import ScriptMachine.Proofs.Machine.Safe

set_option autoImplicit false

/- Safety of the actions on frame-owned structs: charging and sweeping an arena, copying a struct
into one, storing into a slot, and moving a struct to the heap. -/
namespace ScriptMachine.Machine

variable {program : Program} {live live' : ObjectId → Prop} {pending : List ObjectId}
  {shape : Shape} {machine : Machine} {position : Nat} {frame : Frame}

section Frames

variable {frames : List Frame} {change : Frame → Frame}

theorem sameCalls_refl (frames : List Frame) : List.Forall₂ SameCall frames frames :=
  List.forall₂_same.mpr fun frame _ => SameCall.refl frame

theorem sameCalls_modify (same : ∀ frame, SameCall frame (change frame)) :
    List.Forall₂ SameCall frames (frames.modify position change) := by
  induction frames generalizing position with
  | nil => simp
  | cons first rest ih =>
    cases position with
    | zero => exact .cons (same first) (sameCalls_refl rest)
    | succ position => exact .cons (SameCall.refl first) ih

theorem sameCalls_trans {first second third : List Frame}
    (left : List.Forall₂ SameCall first second) (right : List.Forall₂ SameCall second third) :
    List.Forall₂ SameCall first third := by
  induction left generalizing third with
  | nil => exact right
  | cons same _ ih =>
    cases right with
    | cons sameNext rest =>
      obtain ⟨closure, base, ip⟩ := same
      obtain ⟨closure', base', ip'⟩ := sameNext
      exact .cons ⟨closure'.trans closure, base'.trans base, ip'.trans ip⟩ (ih rest)

theorem sameCalls_getElem? {others : List Frame} (same : List.Forall₂ SameCall frames others)
    (here : frames[position]? = some frame) :
    ∃ other, others[position]? = some other ∧ SameCall frame other := by
  induction same generalizing position with
  | nil => simp at here
  | cons first _ ih =>
    cases position with
    | zero =>
      cases here
      exact ⟨_, rfl, first⟩
    | succ position => exact ih here

theorem arenas_modify (keeps : ∀ frame, (change frame).arena = frame.arena) :
    arenas (frames.modify position change) = arenas frames := by
  induction frames generalizing position with
  | nil => simp
  | cons first rest ih =>
    cases position with
    | zero => simp only [List.modify_zero_cons, arenas, List.flatMap_cons, keeps]
    | succ position =>
      simp only [arenas, List.modify_succ_cons, List.flatMap_cons] at ih ⊢
      rw [ih]

/-- The structs of all arenas when that of one frame has changed. -/
theorem mem_arenas_modify {struct : StackStruct}
    (member : struct ∈ arenas (frames.modify position change)) :
    struct ∈ arenas frames ∨
      ∃ frame, frames[position]? = some frame ∧ struct ∈ (change frame).arena := by
  obtain ⟨frame, inFrames, inArena⟩ := List.mem_flatMap.mp member
  obtain ⟨place, here⟩ := List.mem_iff_getElem?.mp inFrames
  rw [List.getElem?_modify] at here
  split at here
  · next same =>
    obtain ⟨old, isOld, rfl⟩ := Option.map_eq_some_iff.mp here
    exact Or.inr ⟨old, same ▸ isOld, inArena⟩
  · simp only [id_map'] at here
    exact Or.inl (List.mem_flatMap.mpr ⟨frame, List.mem_of_getElem? here, inArena⟩)

theorem nodeIds_modify (keeps : ∀ frame, (change frame).arena = frame.arena) :
    nodeIds (frames.modify position change) = nodeIds frames := by
  induction frames generalizing position with
  | nil => simp
  | cons first rest ih =>
    cases position with
    | zero => rw [List.modify_zero_cons, nodeIds_cons, nodeIds_cons, keeps]
    | succ position => rw [List.modify_succ_cons, nodeIds_cons, nodeIds_cons, ih]

theorem Owned.modify {index : Nat} {node : NodeId} {struct : StackStruct}
    (owned : Owned frames index node struct)
    (keeps : ∀ frame, (change frame).base = frame.base ∧ (change frame).arena = frame.arena) :
    Owned (frames.modify position change) index node struct := by
  obtain ⟨frame, member, below, found⟩ := owned
  obtain ⟨place, here⟩ := List.mem_iff_getElem?.mp member
  by_cases same : position = place
  · refine ⟨change frame, List.mem_iff_getElem?.mpr ⟨place, by simp [same, here]⟩, ?_, ?_⟩
    · rw [(keeps frame).1]
      exact below
    · rw [(keeps frame).2]
      exact found
  · exact ⟨frame, List.mem_iff_getElem?.mpr ⟨place, by simp [same, here]⟩, below, found⟩

theorem modify_congr {change other : Frame → Frame} (here : frames[position]? = some frame)
    (agree : change frame = other frame) :
    frames.modify position change = frames.modify position other := by
  apply List.ext_getElem?
  intro place
  rw [List.getElem?_modify, List.getElem?_modify]
  by_cases same : position = place
  · rw [← same, here]
    simp [agree]
  · simp [same]

end Frames

section Charge

/-- What charging a frame leaves as it was. -/
structure Settled (live live' : ObjectId → Prop) (machine after : Machine) : Prop where
  stack : after.stack = machine.stack
  nextNode : after.nextNode = machine.nextNode
  frames : List.Forall₂ SameCall machine.frames after.frames
  nodes : ∀ id ∈ nodeIds after.frames, id ∈ nodeIds machine.frames
  rooted : ∀ id ∈ machine.stackRoots, live id → live' id
  types : ∀ {node struct}, node ∈ referenced machine → machine.node? node = some struct →
    ∃ struct', after.node? node = some struct' ∧ struct'.type = struct.type

/-- Counters of a frame are not part of the data. -/
theorem Data.tick (data : Data program live pending shape machine) (position : Nat)
    {change : Frame → Frame}
    (same : ∀ frame, SameCall frame (change frame))
    (keeps : ∀ frame, (change frame).arena = frame.arena) :
    Data program live pending shape
      { machine with frames := machine.frames.modify position change } := by
  apply data.withFrames (sameCalls_modify same)
  · intro index value here
    have holds := data.values here
    cases value with
    | nil | bool _ | number _ | ref _ => exact holds
    | stack node =>
      obtain ⟨struct, owned, fits⟩ := holds
      exact ⟨struct, owned.modify fun frame => ⟨(same frame).2.1, keeps frame⟩, fits⟩
  · rw [arenas_modify keeps]
    exact data.fitting
  · rw [nodeIds_modify keeps]
    exact data.unique
  · rw [nodeIds_modify keeps]
    exact data.numbered

/-- The machine after its frame at `position` was swept. -/
def afterSweep (machine : Machine) (position arrivals sweepAt : Nat) : List Frame :=
  swept machine.frames position (referenced machine) arrivals sweepAt

theorem mem_referenced {index : Nat} {node : NodeId}
    (here : machine.stack[index]? = some (.stack node)) : node ∈ referenced machine :=
  List.mem_filterMap.mpr ⟨.stack node, by simpa using Array.mem_of_getElem? here, rfl⟩

theorem Data.sweep (data : Data program live pending shape machine) {arrivals sweepAt : Nat}
    {arenaBytes : UInt64} :
    Data program live pending shape
      { machine with frames := afterSweep machine position arrivals sweepAt, arenaBytes } := by
  refine data.withFrames ?_ ?_ ?_ ?_ ?_
  · exact sameCalls_modify fun frame => ⟨rfl, rfl, rfl⟩
  · intro index value here
    have holds := data.values here
    cases value with
    | nil | bool _ | number _ | ref _ => exact holds
    | stack node =>
      obtain ⟨struct, owned, fits⟩ := holds
      rcases owned.swept (mem_referenced here) with same | pruned
      · exact ⟨struct, same, fits⟩
      · exact ⟨_, pruned, StackStruct.Fits.prune struct fits⟩
  · intro struct member
    rcases mem_arenas_modify member with old | ⟨frame, here, inside⟩
    · exact data.fitting struct old
    · obtain ⟨whole, inArena, isKept⟩ := List.mem_filterMap.mp inside
      have fits := data.fitting whole
        (List.mem_flatMap.mpr ⟨frame, List.mem_of_getElem? here, inArena⟩)
      obtain ⟨_, isPruned⟩ := Option.ite_none_right_eq_some.mp isKept
      rw [← Option.some.inj isPruned]
      exact StackStruct.Fits.prune whole fits
  · exact data.unique.of_le count_swept_le
  · intro id member
    apply data.numbered
    exact StackStruct.mem_of_count_le (count_swept_le id) member

/-- A sweep loses nothing that the stack keeps alive. -/
theorem Data.stackRoots_sweep (data : Data program live pending shape machine)
    {arrivals sweepAt : Nat} {id : ObjectId} {after : Machine} (sameStack : after.stack = machine.stack)
    (frames : after.frames = afterSweep machine position arrivals sweepAt)
    (member : id ∈ machine.stackRoots) : id ∈ after.stackRoots := by
  obtain ⟨value, inStack, inValue⟩ := List.mem_flatMap.mp member
  refine List.mem_flatMap.mpr ⟨value, by rw [sameStack]; exact inStack, ?_⟩
  obtain ⟨index, here⟩ := Array.mem_iff_getElem?.mp (Array.mem_toList_iff.mp inStack)
  cases value with
  | nil | bool _ | number _ | ref _ => exact inValue
  | stack node =>
    obtain ⟨struct, found, owned, _⟩ := data.struct here
    have unique : StackStruct.Unique (nodeIds after.frames) := by
      rw [frames]
      exact data.unique.of_le count_swept_le
    rw [valueRoots, found] at inValue
    rcases owned.swept (mem_referenced here) with same | pruned
    · rw [← afterSweep, ← frames] at same
      rw [valueRoots, same.node? unique]
      exact inValue
    · rw [← afterSweep, ← frames] at pruned
      rw [valueRoots, pruned.node? unique]
      change id ∈ (struct.prune _).2.references
      rw [StackStruct.prune_references]
      exact inValue

theorem safe_sweepArena {done : Unit → Machine → Prop}
    (data : Data program live [] shape machine) (here : machine.frames[position]? = some frame)
    (next : ∀ after, Data program live [] shape after → Settled live live machine after →
      (∀ id ∈ machine.stackRoots, id ∈ after.stackRoots) → done () after) :
    Safe program (sweepArena position) machine done := by
  simp only [sweepArena, safe_bind, safe_get, here, safe_given, safe_modifyFrame, safe_modify]
  have sameFrames : machine.frames.modify position (fun frame' =>
      { frame' with
        arena := sweptArena (referenced machine) frame.arena
        arrivals := 0
        sweepAt := max minSweep (2 * (sweptArena (referenced machine) frame.arena).length) })
      = afterSweep machine position 0
        (max minSweep (2 * (sweptArena (referenced machine) frame.arena).length)) :=
    modify_congr here rfl
  rw [sameFrames]
  apply next
  · exact data.sweep.recount rfl rfl rfl
  · refine ⟨rfl, rfl, sameCalls_modify fun frame => ⟨rfl, rfl, rfl⟩, ?_, fun _ _ isLive => isLive, ?_⟩
    · intro id member
      exact StackStruct.mem_of_count_le (count_swept_le id) member
    · intro node struct wanted found
      have unique : StackStruct.Unique (nodeIds (afterSweep machine position 0
          (max minSweep (2 * (sweptArena (referenced machine) frame.arena).length)))) :=
        data.unique.of_le count_swept_le
      obtain ⟨index, owned⟩ := owned_of_node? found
      rcases owned.swept wanted with same | pruned
      · exact ⟨struct, (node?_eq _ node).trans (same.found unique), rfl⟩
      · exact ⟨_, (node?_eq _ node).trans (pruned.found unique), StackStruct.prune_type _ _⟩
  · exact fun id member => data.stackRoots_sweep rfl rfl member

theorem Data.stackRoots_tick (data : Data program live pending shape machine) (position : Nat)
    {change : Frame → Frame} (same : ∀ frame, SameCall frame (change frame))
    (keeps : ∀ frame, (change frame).arena = frame.arena) (id : ObjectId)
    (member : id ∈ machine.stackRoots) :
    id ∈ stackRoots { machine with frames := machine.frames.modify position change } := by
  obtain ⟨value, inStack, inValue⟩ := List.mem_flatMap.mp member
  refine List.mem_flatMap.mpr ⟨value, inStack, ?_⟩
  obtain ⟨index, here⟩ := Array.mem_iff_getElem?.mp (Array.mem_toList_iff.mp inStack)
  cases value with
  | nil | bool _ | number _ | ref _ => exact inValue
  | stack node =>
    obtain ⟨struct, found, owned, _⟩ := data.struct here
    rw [valueRoots, found] at inValue
    have still : Owned (machine.frames.modify position change) index node struct :=
      owned.modify fun frame => ⟨(same frame).2.1, keeps frame⟩
    exact mem_valueRoots_of_struct (still.node? (data.tick position same keeps).unique) inValue

theorem safe_charge {bytes : UInt64} {done : Unit → Machine → Prop}
    (data : Data program live [] shape machine) (here : machine.frames[position]? = some frame)
    (next : ∀ live' after, Data program live' [] shape after →
      Settled live live' machine after → done () after) :
    Safe program (charge position bytes) machine done := by
  simp only [charge, safe_bind, safe_modifyFrame, safe_get]
  have same : ∀ frame : Frame, SameCall frame { frame with arrivals := frame.arrivals + 1 } :=
    fun frame => ⟨rfl, rfl, rfl⟩
  have ticked := data.tick position same fun _ => rfl
  have rootedTick := data.stackRoots_tick position same fun _ => rfl
  have ids : nodeIds (machine.frames.modify position fun frame =>
      { frame with arrivals := frame.arrivals + 1 }) = nodeIds machine.frames :=
    nodeIds_modify fun _ => rfl
  have hereTick : (machine.frames.modify position fun frame =>
      { frame with arrivals := frame.arrivals + 1 })[position]?
      = some { frame with arrivals := frame.arrivals + 1 } := by
    simp [here]
  rw [hereTick, safe_given]
  -- with or without a sweep, what follows is the request
  have request : ∀ after, Data program live [] shape after → Settled live live machine after →
      (∀ id ∈ machine.stackRoots, id ∈ after.stackRoots) →
      Safe program (do
        allocating [] (Heap.reserve · bytes)
        modify fun machine => { machine with arenaBytes := machine.arenaBytes + bytes }) after
        done := by
    intro after data settled kept
    rw [safe_bind]
    refine safe_reserve data fun live' heap data' rooted => ?_
    refine next live' _ (data'.withFrames (sameCalls_refl _) data'.values data'.fitting
      data'.unique data'.numbered)
      ⟨settled.stack, settled.nextNode, settled.frames, settled.nodes, ?_, settled.types⟩
    exact fun id member => rooted id (mem_roots_of_stackRoots (kept id member))
  have settledTick : Settled live live machine { machine with
      frames := machine.frames.modify position fun frame =>
        { frame with arrivals := frame.arrivals + 1 } } :=
    ⟨rfl, rfl, sameCalls_modify same, fun id member => ids ▸ member, fun _ _ isLive => isLive, by
      intro node struct _ found
      obtain ⟨index, owned⟩ := owned_of_node? found
      have still : Owned (machine.frames.modify position fun frame =>
          { frame with arrivals := frame.arrivals + 1 }) index node struct :=
        owned.modify fun _ => ⟨rfl, rfl⟩
      exact ⟨struct, still.node? ticked.unique, rfl⟩⟩
  split
  · simp only [safe_bind]
    refine safe_sweepArena ticked hereTick fun after data settled kept => ?_
    rw [← safe_bind]
    refine request after data ⟨settled.stack, settled.nextNode,
      sameCalls_trans settledTick.frames settled.frames, ?_, fun _ _ isLive => isLive, ?_⟩ ?_
    · exact fun id member => settledTick.nodes id (settled.nodes id member)
    · intro node struct wanted found
      obtain ⟨middle, foundMiddle, sameType⟩ := settledTick.types wanted found
      obtain ⟨last, foundLast, sameType'⟩ := settled.types wanted foundMiddle
      exact ⟨last, foundLast, sameType'.trans sameType⟩
    · exact fun id member => kept id (rootedTick id member)
  · exact request _ ticked settledTick rootedTick

end Charge

section Copy

variable {struct : StackStruct}

/-- A struct that a frame can be given: its nodes are its own, and its contents are in order. -/
structure Adoptable (program : Program) (live : ObjectId → Prop) (machine : Machine)
    (struct : StackStruct) : Prop where
  unique : StackStruct.Unique struct.ids
  numbered : ∀ id ∈ struct.ids, id < machine.nextNode
  apart : ∀ id ∈ struct.ids, id ∉ nodeIds machine.frames
  fits : struct.Fits (Value.Kept live) program.registry.Sized
  rooted : ∀ id ∈ struct.references, id ∈ machine.stackRoots

theorem Adoptable.settle {after : Machine} (adoptable : Adoptable program live machine struct)
    (settled : Settled live live' machine after) :
    StackStruct.Unique struct.ids ∧ (∀ id ∈ struct.ids, id < after.nextNode) ∧
      (∀ id ∈ struct.ids, id ∉ nodeIds after.frames) ∧
      struct.Fits (Value.Kept live') program.registry.Sized := by
  refine ⟨adoptable.unique, fun id member => ?_, fun id member inside => ?_, ?_⟩
  · rw [settled.nextNode]
    exact adoptable.numbered id member
  · exact adoptable.apart id member (settled.nodes id inside)
  · exact Fits.keep adoptable.fits fun id member =>
      settled.rooted id (adoptable.rooted id member)

theorem Data.adopt (data : Data program live pending shape machine)
    (fits : struct.Fits (Value.Kept live) program.registry.Sized)
    (unique : StackStruct.Unique struct.ids) (numbered : ∀ id ∈ struct.ids, id < machine.nextNode)
    (apart : ∀ id ∈ struct.ids, id ∉ nodeIds machine.frames) :
    Data program live pending shape
      { machine with frames := adopted machine.frames position struct } := by
  refine data.withFrames ?_ ?_ ?_ ?_ ?_
  · exact sameCalls_modify fun frame => ⟨rfl, rfl, rfl⟩
  · intro index value here
    have holds := data.values here
    cases value with
    | nil | bool _ | number _ | ref _ => exact holds
    | stack node =>
      obtain ⟨found, owned, fits⟩ := holds
      exact ⟨found, owned.adopted fun inside => apart node inside owned.mem_nodeIds, fits⟩
  · intro other member
    rcases mem_arenas_modify member with old | ⟨frame, here, inside⟩
    · exact data.fitting other old
    · rcases List.mem_cons.mp inside with isNew | inArena
      · rw [isNew]
        exact fits
      · exact data.fitting other
          (List.mem_flatMap.mpr ⟨frame, List.mem_of_getElem? here, inArena⟩)
  · exact StackStruct.unique_of_count_le unique data.unique apart count_adopted_le
  · intro id member
    rcases StackStruct.mem_or_mem_of_count_le (count_adopted_le id) member with new | old
    · exact numbered id new
    · exact data.numbered id old

/-- A frame at a position, as it was but for its arena, holds what a value names. -/
def HeldBy (program : Program) (live : ObjectId → Prop) (frames : List Frame) (position : Nat)
    (frame : Frame) (value : Value) : Prop :=
  ∃ other, frames[position]? = some other ∧ SameCall frame other ∧
    ∀ among : List Frame, other ∈ among → Holds program live among frame.base value

theorem HeldBy.holds {frames : List Frame} {value : Value}
    (held : HeldBy program live frames position frame value) :
    Holds program live frames frame.base value := by
  obtain ⟨other, here, _, holds⟩ := held
  exact holds frames (List.mem_of_getElem? here)

theorem safe_adopt {done : Value → Machine → Prop} (data : Data program live [] shape machine)
    (here : machine.frames[position]? = some frame)
    (adoptable : Adoptable program live machine struct)
    (next : ∀ live' after, Data program live' [] shape after → after.stack = machine.stack →
      List.Forall₂ SameCall machine.frames after.frames →
      HeldBy program live' after.frames position frame (.stack struct.id) →
      done (.stack struct.id) after) :
    Safe program (adopt position struct) machine done := by
  simp only [adopt, safe_bind, safe_modifyFrame, safe_pure]
  refine safe_charge data here fun live' after data' settled => ?_
  obtain ⟨unique, numbered, apart, fits⟩ := adoptable.settle settled
  obtain ⟨frame', here', same⟩ := sameCalls_getElem? settled.frames here
  apply next live' _ (data'.adopt fits unique numbered apart) settled.stack
  · exact sameCalls_trans settled.frames (sameCalls_modify fun frame => ⟨rfl, rfl, rfl⟩)
  · refine ⟨{ frame' with arena := struct :: frame'.arena }, by simp [adopted, here'], same,
      fun among member => ⟨struct, ?_, fits⟩⟩
    refine ⟨_, member, Nat.le_of_eq same.2.1, ?_⟩
    rw [StackStruct.findAmong?, StackStruct.find?_self]
    rfl

/-- Identifiers may be passed over. -/
theorem Data.skip (data : Data program live pending shape machine) {nextNode : NodeId}
    (above : machine.nextNode ≤ nextNode) :
    Data program live pending shape { machine with nextNode } :=
  { data with numbered := fun id member => Nat.lt_of_lt_of_le (data.numbered id member) above }

theorem safe_fresh {done : StackStruct → Machine → Prop}
    (data : Data program live [] shape machine)
    (fits : struct.Fits (Value.Kept live) program.registry.Sized)
    (rooted : ∀ id ∈ struct.references, id ∈ machine.stackRoots)
    (next : ∀ copy nextNode, machine.nextNode ≤ nextNode → copy.references = struct.references →
      Data program live [] shape { machine with nextNode } →
      Adoptable program live { machine with nextNode } copy →
      (∀ id ∈ copy.ids, machine.nextNode ≤ id) → done copy { machine with nextNode }) :
    Safe program (fresh struct) machine done := by
  have above := Nat.le_of_lt (StackStruct.clone_next_lt struct machine.nextNode)
  simp only [fresh, safe_modifyGet]
  apply next _ _ above (StackStruct.clone_references struct _) (data.skip above)
  · refine ⟨StackStruct.clone_unique struct _, fun id member => ?_, fun id member inside => ?_,
      StackStruct.Fits.clone struct _ fits, ?_⟩
    · exact (StackStruct.mem_clone_ids.mp member).2
    · have below := data.numbered id inside
      have := (StackStruct.mem_clone_ids.mp member).1
      exact absurd below (Nat.not_lt.mpr this)
    · rw [StackStruct.clone_references]
      exact rooted
  · exact fun id member => (StackStruct.mem_clone_ids.mp member).1

theorem safe_copyInto {done : Value → Machine → Prop}
    (data : Data program live [] shape machine) (here : machine.frames[position]? = some frame)
    (fits : struct.Fits (Value.Kept live) program.registry.Sized)
    (rooted : ∀ id ∈ struct.references, id ∈ machine.stackRoots)
    (next : ∀ live' after value, Data program live' [] shape after →
      after.stack = machine.stack → List.Forall₂ SameCall machine.frames after.frames →
      HeldBy program live' after.frames position frame value → done value after) :
    Safe program (copyInto position struct) machine done := by
  simp only [copyInto, safe_bind]
  refine safe_fresh data fits rooted fun copy nextNode _ _ data' adoptable _ => ?_
  exact safe_adopt data' here adoptable fun live' after => next live' after _

/-- A struct that a stack slot names can be looked up and copied. -/
theorem safe_struct {index : Nat} {node : NodeId} {done : StackStruct → Machine → Prop}
    (data : Data program live [] shape machine)
    (here : machine.stack[index]? = some (.stack node))
    (next : ∀ struct, Owned machine.frames index node struct →
      struct.Fits (Value.Kept live) program.registry.Sized →
      (∀ id ∈ struct.references, id ∈ machine.stackRoots) → done struct machine) :
    Safe program (Machine.struct node) machine done := by
  obtain ⟨struct, found, owned, fits⟩ := data.struct here
  simp only [Machine.struct, safe_bind, safe_get, found, safe_given]
  apply next struct owned fits
  exact fun id member => mem_stackRoots here (mem_valueRoots_of_struct found member)

end Copy

section Store

/-- A store into a slot of a frame-owned struct, with fitting contents made of nodes of its own. -/
theorem Data.store (data : Data program live pending shape machine) (node : NodeId) (slot : Nat)
    (contents : Slot)
    (fits : StackStruct.FitsSlot (Value.Kept live) program.registry.Sized contents)
    (unique : StackStruct.Unique contents.ids)
    (numbered : ∀ id ∈ contents.ids, id < machine.nextNode)
    (apart : ∀ id ∈ contents.ids, id ∉ nodeIds machine.frames) :
    Data program live pending shape
      { machine with frames := withSlot machine.frames node slot contents } := by
  have total : ∀ id, (nodeIds (withSlot machine.frames node slot contents)).count id
      ≤ contents.ids.count id + (nodeIds machine.frames).count id := by
    intro id
    have bound := @count_withSlot_le machine.frames node slot contents id
    have single := Nat.mul_le_mul_right (contents.ids.count id) (data.unique node)
    omega
  refine data.withFrames ?_ ?_ ?_ ?_ ?_
  · exact List.forall₂_map_right_iff.mpr (List.forall₂_same.mpr fun frame _ => ⟨rfl, rfl, rfl⟩)
  · intro index value here
    have holds := data.values here
    cases value with
    | nil | bool _ | number _ | ref _ => exact holds
    | stack other =>
      obtain ⟨found, owned, fitsFound⟩ := holds
      refine ⟨_, owned.withSlot node slot data.unique fun inside => apart other inside owned.mem_nodeIds, ?_⟩
      exact StackStruct.Fits.update (fun struct fitting => fitting.store slot fits) found fitsFound
  · intro struct member
    obtain ⟨frame, inFrames, inArena⟩ := List.mem_flatMap.mp member
    obtain ⟨old, isOld, rfl⟩ := List.mem_map.mp inFrames
    rw [StackStruct.updateAmong_eq] at inArena
    obtain ⟨before, inside, rfl⟩ := List.mem_map.mp inArena
    exact StackStruct.Fits.update (fun struct fitting => fitting.store slot fits) before
      (data.fitting before (List.mem_flatMap.mpr ⟨old, isOld, inside⟩))
  · exact StackStruct.unique_of_count_le unique data.unique apart total
  · intro id member
    rcases StackStruct.mem_or_mem_of_count_le (total id) member with new | old
    · exact numbered id new
    · exact data.numbered id old

end Store

section Promote

variable {pinned : List ObjectId}

/-- Replaces an object that is neither code nor an open cell. -/
theorem Data.set (data : Data program live pending shape machine) {pending' : List ObjectId}
    {id : ObjectId} {old object : Object} (present : machine.heap.get? id = some old)
    (alike : old.Alike object) (mutable : old.isCode = false)
    (closed : ∀ slot, old ≠ .cell (.onStack slot))
    (stillPending : ∀ other, other ≠ id → other ∈ pending → other ∈ pending')
    (sane : Sane program live pending' machine.openCells (machine.heap.set id object) id object) :
    Data program live pending' shape { machine with heap := machine.heap.set id object } := by
  apply data.withHeap
    (data.stored.set present alike mutable stillPending (fun _ _ _ member => member) fun _ => sane)
  · intro other before _ _ found
    by_cases same : id = other
    · subst same
      rw [present] at found
      cases found
      exact ⟨object, Heap.get?_set_self present, alike⟩
    · exact ⟨before, by rw [Heap.get?_set_of_ne same, found], .refl before⟩
  · exact fun _ _ isLive => isLive
  · intro slot cell member
    have found := (data.cells member).2.2
    by_cases same : id = cell
    · subst same
      rw [present] at found
      cases found
      exact absurd rfl (closed slot)
    · rw [Heap.get?_set_of_ne same, found]

theorem setField_eq {heap : Heap} {id : ObjectId} {type : StructId} {fields : Array Value}
    (here : heap.get? id = some (.record type fields)) (slot : Nat) (value : Value) :
    heap.setField id slot value = heap.set id (.record type (fields.setIfInBounds slot value)) := by
  rw [Heap.setField, here]

theorem Data.setField (data : Data program live pending shape machine) (slot : Nat) {id : ObjectId}
    {type : StructId} {fields : Array Value} {value : Value} (isLive : live id)
    (here : machine.heap.get? id = some (.record type fields)) (kept : value.Kept live) :
    Data program live pending shape
      { machine with heap := machine.heap.setField id slot value } := by
  obtain ⟨object, found, sized, fieldsKept⟩ : ∃ object, machine.heap.get? id = some object ∧
      program.registry.Sized type fields.size ∧ ∀ value ∈ fields, value.Kept live := by
    obtain ⟨object, found, sane⟩ := data.stored.sane isLive
    rw [here] at found
    cases found
    exact ⟨_, here, sane⟩
  rw [setField_eq here]
  refine data.set here ⟨rfl, Array.size_setIfInBounds⟩ rfl (by simp) (fun _ _ member => member) ?_
  refine ⟨by rw [Array.size_setIfInBounds]; exact sized, fun other member => ?_⟩
  rcases Array.mem_or_eq_of_mem_setIfInBounds member with old | new
  · exact fieldsKept other old
  · rw [new]
    exact kept

/-- Objects that are the same, but for the fields of an instance. -/
def Refilled : Object → Object → Prop
  | .record type fields, .record type' fields' => type' = type ∧ fields'.size = fields.size
  | object, object' => object' = object

theorem Refilled.refl (object : Object) : Refilled object object := by
  cases object <;> simp [Refilled]

theorem Refilled.record {type : StructId} {fields : Array Value} {other : Object}
    (same : Refilled (.record type fields) other) : ∃ fields', other = .record type fields' := by
  cases other with
  | record type' fields' => exact ⟨fields', by rw [same.1]⟩
  | string _ | function _ | closure _ _ | cell _ | native _ => cases same

theorem Refilled.trans {first second third : Object} (left : Refilled first second)
    (right : Refilled second third) : Refilled first third := by
  cases first with
  | string _ | function _ | closure _ _ | cell _ | native _ =>
    cases left
    exact right
  | record _ _ =>
    obtain ⟨_, rfl⟩ := left.record
    obtain ⟨_, rfl⟩ := right.record
    exact ⟨rfl, right.2.trans left.2⟩

/-- What moving structs to the heap keeps: the roots stay live, and the same but for fields. -/
def Follows (pinned : List ObjectId) (machine : Machine) (live live' : ObjectId → Prop)
    (heap : Heap) : Prop :=
  ∀ id ∈ pinned ++ machine.roots, live id →
    live' id ∧ ∀ {old}, machine.heap.get? id = some old →
      ∃ new, heap.get? id = some new ∧ Refilled old new

theorem Follows.refl (pinned : List ObjectId) (machine : Machine) (live : ObjectId → Prop) :
    Follows pinned machine live live machine.heap :=
  fun _ _ isLive => ⟨isLive, fun found => ⟨_, found, .refl _⟩⟩

theorem Follows.trans {live'' : ObjectId → Prop} {heap heap' : Heap}
    (first : Follows pinned machine live live' heap)
    (second : Follows pinned { machine with heap } live' live'' heap') :
    Follows pinned machine live live'' heap' := by
  intro id member isLive
  obtain ⟨isLive', refilled⟩ := first id member isLive
  obtain ⟨isLive'', refilled'⟩ := second id member isLive'
  refine ⟨isLive'', fun found => ?_⟩
  obtain ⟨middle, here, same⟩ := refilled found
  obtain ⟨last, here', same'⟩ := refilled' here
  exact ⟨last, here', same.trans same'⟩

theorem Follows.fewer {few : List ObjectId} {heap : Heap}
    (follows : Follows pinned machine live live' heap) (among : ∀ id ∈ few, id ∈ pinned) :
    Follows few machine live live' heap := by
  intro id member
  apply follows id
  rcases List.mem_append.mp member with inFew | inRoots
  · exact List.mem_append_left _ (among id inFew)
  · exact List.mem_append_right _ inRoots

theorem follows_setField {id : ObjectId} {type : StructId} {fields : Array Value}
    (here : machine.heap.get? id = some (.record type fields)) (slot : Nat) (value : Value) :
    Follows pinned machine live live (machine.heap.setField id slot value) := by
  intro other _ isLive
  refine ⟨isLive, fun {old} found => ?_⟩
  rw [setField_eq here]
  by_cases same : id = other
  · subst same
    rw [here] at found
    cases found
    exact ⟨_, Heap.get?_set_self here, rfl, Array.size_setIfInBounds⟩
  · exact ⟨old, by rw [Heap.get?_set_of_ne same, found], .refl old⟩

mutual

/-- Moving a struct to the heap allocates for it and for every struct nested in it; each new
instance is pinned until it is stored in its owner. -/
theorem safe_promote : (struct : StackStruct) → ∀ {live : ObjectId → Prop} {machine : Machine}
    {pinned : List ObjectId} {done : ObjectId → Machine → Prop},
    Data program live [] shape machine →
    struct.Fits (Value.Kept live) program.registry.Sized →
    (∀ id ∈ struct.references, id ∈ pinned ++ machine.roots) →
    (∀ live' heap id, Data program live' [] shape { machine with heap } →
      Follows pinned machine live live' heap → live' id → done id { machine with heap }) →
    Safe program (promote pinned struct) machine done
  | .node _ type slots _, live, machine, pinned, done, data, fits, named, next => by
    simp only [promote, safe_bind, safe_pure, Heap.newRecord]
    obtain ⟨sized, fitsSlots⟩ := fits
    refine safe_allocate data (by simp) fun live' heap data' rooted same here => ?_
    have enlisted := data'.enlist here (by
      refine ⟨by rw [Array.size_replicate]; exact sized, fun value member => ?_⟩
      rw [(Array.mem_replicate.mp member).2]
      trivial)
    have begun : Follows pinned machine live (With live' machine.heap.nextId) heap := by
      intro id member isLive
      have isLive' := rooted id member isLive
      exact ⟨Or.inl isLive', fun found => ⟨_, by rw [(same id isLive').2, found], .refl _⟩⟩
    have fitsSlots' : StackStruct.FitsSlots (Value.Kept (With live' machine.heap.nextId))
        program.registry.Sized slots := by
      refine @StackStruct.FitsSlots.narrow _ _ _ live' ?_ slots fitsSlots ?_
      · exact fun value kept refs => kept.imp fun id isRef _ => Or.inl (refs id isRef)
      · intro id member
        exact rooted id (named id member)
          (StackStruct.FitsSlots.references (fun _ kept => kept) slots fitsSlots id member)
    refine safe_promoteSlots slots enlisted (Or.inr rfl) here fitsSlots' ?_ ?_
    · intro id member
      rw [List.cons_append]
      exact List.mem_cons_of_mem _ (named id member)
    · intro live'' heap' data'' follows
      refine next live'' heap' _ data'' (begun.trans (follows.fewer fun _ => List.mem_cons_of_mem _)) ?_
      exact (follows _ List.mem_cons_self (Or.inr rfl)).1

theorem safe_promoteSlots : (slots : List Slot) → ∀ {live : ObjectId → Prop} {machine : Machine}
    {pinned : List ObjectId} {id : ObjectId} {index : Nat} {type : StructId} {fields : Array Value}
    {done : Unit → Machine → Prop},
    Data program live [] shape machine → live id →
    machine.heap.get? id = some (.record type fields) →
    StackStruct.FitsSlots (Value.Kept live) program.registry.Sized slots →
    (∀ other ∈ StackStruct.slotReferences slots, other ∈ (id :: pinned) ++ machine.roots) →
    (∀ live' heap, Data program live' [] shape { machine with heap } →
      Follows (id :: pinned) machine live live' heap → done () { machine with heap }) →
    Safe program (promoteSlots (id :: pinned) id index slots) machine done
  | [], live, machine, pinned, id, index, type, fields, done, data, isLive, here, _, _, next => by
    simp only [promoteSlots, safe_pure]
    exact next live machine.heap data (Follows.refl _ _ _)
  | .plain value :: rest, live, machine, pinned, id, index, type, fields, done, data, isLive, here,
      fits, named, next => by
    simp only [promoteSlots, safe_bind, safe_modifyHeap]
    have filled := data.setField index isLive here fits.1
    have present : (machine.heap.setField id index value).get? id
        = some (.record type (fields.setIfInBounds index value)) := by
      rw [setField_eq here, Heap.get?_set_self here]
    refine safe_promoteSlots rest filled isLive present fits.2 ?_ ?_
    · intro other member
      exact named other (by cases value <;> simp [StackStruct.slotReferences, member])
    · intro live' heap data' follows
      exact next live' heap data' ((follows_setField here index value).trans follows)
  | .nested inner :: rest, live, machine, pinned, id, index, type, fields, done, data, isLive, here,
      fits, named, next => by
    simp only [promoteSlots, safe_bind, safe_modifyHeap]
    refine safe_promote inner data fits.1 ?_ ?_
    · exact fun other member => named other (List.mem_append_left _ member)
    · intro live' heap moved data' follows isMoved
      obtain ⟨isLive', alike⟩ := follows id List.mem_cons_self isLive
      obtain ⟨new, present, same⟩ := alike here
      obtain ⟨fields', rfl⟩ := same.record
      have kept : (Value.ref moved).Kept live' := isMoved
      have filled := data'.setField index isLive' present kept
      have presentAfter : (heap.setField id index (.ref moved)).get? id
          = some (.record type (fields'.setIfInBounds index (.ref moved))) := by
        rw [setField_eq present, Heap.get?_set_self present]
      refine safe_promoteSlots rest filled isLive' presentAfter ?_ ?_ ?_
      · refine @StackStruct.FitsSlots.narrow _ _ _ live' ?_ rest fits.2 ?_
        · exact fun value kept refs => kept.imp fun other isRef _ => refs other isRef
        · intro other member
          exact (follows other (named other (List.mem_append_right _ member))
            (StackStruct.FitsSlots.references (fun _ kept => kept) rest fits.2 other member)).1
      · exact fun other member => named other (List.mem_append_right _ member)
      · intro live'' heap' data'' follows'
        have step : Follows (id :: pinned) { machine with heap } live' live'
            (heap.setField id index (.ref moved)) := follows_setField present index (.ref moved)
        exact next live'' heap' data'' ((follows.trans step).trans follows')

end

/-- A value from the stack may be stored on the heap once it has been moved there. -/
theorem safe_heapValue {index : Nat} {value : Value} {done : Value → Machine → Prop}
    (data : Data program live [] shape machine) (here : machine.stack[index]? = some value)
    (next : ∀ live' heap value, Data program live' [] shape { machine with heap } →
      Follows pinned machine live live' heap → value.Kept live' → done value { machine with heap }) :
    Safe program (heapValue pinned value) machine done := by
  have holds := data.values here
  cases value with
  | nil | bool _ | number _ =>
    exact next live machine.heap _ data (Follows.refl _ _ _) trivial
  | ref id => exact next live machine.heap _ data (Follows.refl _ _ _) holds
  | stack node =>
    simp only [heapValue, safe_bind, safe_pure]
    refine safe_struct data here fun struct _ fits rooted => ?_
    refine safe_promote struct data fits ?_ fun live' heap id data' follows isLive =>
      next live' heap _ data' follows isLive
    exact fun id member => List.mem_append_right _ (mem_roots_of_stackRoots (rooted id member))

end Promote

end ScriptMachine.Machine
