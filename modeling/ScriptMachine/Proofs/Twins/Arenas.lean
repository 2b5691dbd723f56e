import Mathlib.Data.List.Flatten
import ScriptMachine.Proofs.Twins.Abreast

set_option autoImplicit false

/- Frame-owned structs on both sides. An arena may be swept on one side only, so a struct is sure to be
in an arena only while some node of it is in use; what is found under one identifier is the same on
both sides. -/
namespace ScriptMachine.Machine

open StackStruct (Unique idsAmong findAmong? updateAmong)

section Lookup

variable {machine after : Machine} {frames : List Frame} {node : NodeId} {found struct : StackStruct}

/-- A node is found in the one struct that owns it. -/
theorem node?_iff (unique : Unique (nodeIds machine.frames)) :
    machine.node? node = some found ↔ ∃ owner ∈ arenas machine.frames, owner.find? node = some found := by
  rw [node?_eq, StackStruct.findAmong?_eq]
  constructor
  · exact List.exists_of_findSome?_eq_some
  · rintro ⟨owner, member, here⟩
    rw [nodeIds, StackStruct.idsAmong_eq] at unique
    rw [StackStruct.findSome?_owner (unique node) member
      ((StackStruct.find?_isSome node owner).mp (by rw [here]; rfl)), here]

theorem mem_nodeIds_of_node? (here : machine.node? node = some found) :
    node ∈ nodeIds machine.frames := by
  obtain ⟨_, owned⟩ := owned_of_node? here
  exact owned.mem_nodeIds

theorem mem_nodeIds_iff : node ∈ nodeIds frames ↔ ∃ owner ∈ arenas frames, node ∈ owner.ids := by
  rw [nodeIds, StackStruct.idsAmong_eq, List.mem_flatMap]

end Lookup

section Thinning

variable {machine : Machine} {position : Nat} {said : Array UInt8}

/-- Arenas whose structs have been pruned at most. -/
theorem Thins.of_arenas {heap : Heap} {frames : List Frame} {arenaBytes : UInt64}
    (thins : machine.heap.Thins heap) (unique : Unique (nodeIds machine.frames))
    (calls : List.Forall₂ SameCall machine.frames frames)
    (ids : ∀ id, (nodeIds frames).count id ≤ (nodeIds machine.frames).count id)
    (each : ∀ owner ∈ arenas frames, owner ∈ arenas machine.frames ∨
      ∃ old ∈ arenas machine.frames, ∃ referenced, owner = (old.prune referenced).2) :
    Thins machine { machine with heap, frames, arenaBytes } where
  heap := thins
  calls := calls
  nodes {node found} here := by
    obtain ⟨owner, member, inOwner⟩ := (node?_iff (unique.of_le ids)).mp here
    rcases each owner member with same | ⟨old, isOld, referenced, rfl⟩
    · exact ⟨found, (node?_iff unique).mpr ⟨owner, same, inOwner⟩, fun twin => twin⟩
    · have uniqueOld : Unique old.ids :=
        unique.of_le fun id => by
          rw [nodeIds, StackStruct.idsAmong_eq]
          exact StackStruct.count_child_le isOld id
      obtain ⟨before, inOld, rfl⟩ := StackStruct.find?_of_prune uniqueOld inOwner
      exact ⟨before, (node?_iff unique).mpr ⟨old, isOld, inOld⟩,
        fun twin => StackStruct.Twin.prune before twin⟩
  ids := ids
  rest := rfl

/-- The counters of a frame cannot be seen. -/
theorem thins_tick (unique : Unique (nodeIds machine.frames)) {change : Frame → Frame}
    (same : ∀ frame, SameCall frame (change frame))
    (keeps : ∀ frame, (change frame).arena = frame.arena) :
    Thins machine { machine with frames := machine.frames.modify position change } :=
  .of_arenas (.refl _) unique (sameCalls_modify same)
    (fun _ => Nat.le_of_eq (by rw [nodeIds_modify keeps])) fun owner member => by
      rw [arenas_modify keeps] at member
      exact .inl member

theorem thins_sweep (unique : Unique (nodeIds machine.frames)) {heap : Heap}
    (thins : machine.heap.Thins heap) {arrivals sweepAt : Nat} {arenaBytes : UInt64} :
    Thins machine { machine with
      heap, frames := afterSweep machine position arrivals sweepAt, arenaBytes } := by
  refine .of_arenas thins unique (sameCalls_modify fun frame => ⟨rfl, rfl, rfl⟩) count_swept_le
    fun owner member => ?_
  rcases mem_arenas_modify member with same | ⟨frame, here, inArena⟩
  · exact .inl same
  · obtain ⟨old, isOld, isKept⟩ := List.mem_filterMap.mp inArena
    obtain ⟨_, isPruned⟩ := Option.ite_none_right_eq_some.mp isKept
    exact .inr ⟨old, List.mem_flatMap.mpr ⟨frame, List.mem_of_getElem? here, isOld⟩, _,
      (Option.some.inj isPruned).symm⟩

theorem alone_sweepArena (unique : Unique (nodeIds machine.frames)) :
    Alone said (sweepArena position) machine fun _ => Thins machine := by
  simp only [sweepArena, alone_bind, alone_get]
  refine alone_given fun frame here => ?_
  simp only [modifyFrame, alone_modify]
  have sameFrames : machine.frames.modify position (fun frame' =>
      { frame' with
        arena := sweptArena (referenced machine) frame.arena
        arrivals := 0
        sweepAt := max minSweep (2 * (sweptArena (referenced machine) frame.arena).length) })
      = afterSweep machine position 0
        (max minSweep (2 * (sweptArena (referenced machine) frame.arena).length)) :=
    modify_congr here rfl
  rw [sameFrames]
  refine thins_sweep unique ?_
  exact .of_same rfl rfl rfl

/-- Charging a frame cannot be seen. -/
theorem alone_charge {bytes : UInt64} (unique : Unique (nodeIds machine.frames))
    (output : machine.output = said) :
    Alone said (charge position bytes) machine fun _ => Thins machine := by
  simp only [charge, modifyFrame, alone_bind, alone_modify, alone_get]
  have ticked : Thins machine { machine with frames := machine.frames.modify position fun frame =>
      { frame with arrivals := frame.arrivals + 1 } } :=
    thins_tick unique (fun _ => ⟨rfl, rfl, rfl⟩) fun _ => rfl
  have request : ∀ after, Thins machine after → Alone said (do
      allocating [] (Heap.reserve · bytes)
      modify fun machine => { machine with arenaBytes := machine.arenaBytes + bytes }) after
      fun _ => Thins machine := by
    intro after thins
    have outputAfter : after.output = said := by rw [thins.rest, output]
    simp only [alone_bind, alone_modify]
    refine alone_allocating outputAfter fun _ _ heap made => ?_
    have reserved := Heap.reserve_ok made
    have uniqueAfter := unique.of_le thins.ids
    exact thins.trans (.of_arenas reserved uniqueAfter (sameCalls_refl _) (fun _ => Nat.le_refl _)
      fun owner member => .inl member)
  refine alone_given fun frame _ => ?_
  split
  · simp only [alone_bind]
    refine (alone_sweepArena (unique.of_le ticked.ids)).mono fun _ after swept => ?_
    rw [← alone_bind]
    exact request after (ticked.trans swept)
  · exact request _ ticked

end Thinning

section Matching

variable {pairs more : Pairing} {struct struct' inner inner' : StackStruct} {contents contents' : Slot}
  {bound : NodeId}

/-- Structs with twins under every identifier. -/
structure Matched (pairs : Pairing) (struct struct' : StackStruct) : Prop where
  twin : struct.Twin pairs struct'
  inside : ∀ {node : NodeId} {found found' : StackStruct}, struct.find? node = some found →
    struct'.find? node = some found' → found.Twin pairs found'

inductive MatchedSlot (pairs : Pairing) : Slot → Slot → Prop where
  | plain {value value' : Value} : value.Twin pairs value' →
      MatchedSlot pairs (.plain value) (.plain value')
  | nested {inner inner' : StackStruct} : Matched pairs inner inner' →
      MatchedSlot pairs (.nested inner) (.nested inner')

theorem Matched.mono (larger : pairs ≤ more) (matched : Matched pairs struct struct') :
    Matched more struct struct' :=
  ⟨matched.twin.mono larger, fun here there => (matched.inside here there).mono larger⟩

theorem MatchedSlot.twin (matched : MatchedSlot pairs contents contents') :
    StackStruct.TwinSlot pairs contents contents' := by
  cases matched with
  | plain value => exact .plain value
  | nested inner => exact .nested inner.twin

/-- What is found in both of two slots. -/
theorem MatchedSlot.inside {node : NodeId} {found found' : StackStruct}
    (matched : MatchedSlot pairs contents contents') (isInner : contents = .nested inner)
    (here : inner.find? node = some found) (isInner' : contents' = .nested inner')
    (there : inner'.find? node = some found') : found.Twin pairs found' := by
  cases matched with
  | plain _ => cases isInner
  | nested matched =>
    cases isInner
    cases isInner'
    exact matched.inside here there

theorem matched_blank (node : NodeId) (type : StructId) (count : Nat) :
    Matched pairs (.blank node type count) (.blank node type count) := by
  refine ⟨StackStruct.twin_blank node type count, fun {other found found'} here there => ?_⟩
  have whole : other = node ∧ found = .blank node type count := by
    rw [StackStruct.find?_eq] at here
    split at here
    · next same =>
      cases here
      exact ⟨same.symm, rfl⟩
    · rw [StackStruct.blank_children] at here
      cases here
  obtain ⟨rfl, rfl⟩ := whole
  cases here.symm.trans there
  exact StackStruct.twin_blank other type count

/-- Stores into matched structs of what has higher identifiers. -/
theorem Matched.store (matched : Matched pairs struct struct') (slot : Nat)
    (same : MatchedSlot pairs contents contents') (unique : Unique struct.ids)
    (unique' : Unique struct'.ids) (below : ∀ id ∈ struct.ids, id < bound)
    (below' : ∀ id ∈ struct'.ids, id < bound) (above : ∀ id ∈ contents.ids, bound ≤ id)
    (above' : ∀ id ∈ contents'.ids, bound ≤ id) :
    Matched pairs (struct.store slot contents) (struct'.store slot contents') := by
  have whole := matched.twin.store slot same.twin
  refine ⟨whole, fun {node found found'} here there => ?_⟩
  by_cases isSelf : struct.id = node
  · subst isSelf
    rw [StackStruct.find?_eq, if_pos (StackStruct.store_id _ _ _)] at here
    rw [StackStruct.find?_eq, matched.twin.id_eq, if_pos (StackStruct.store_id _ _ _)] at there
    cases here
    cases there
    exact whole
  · have other : struct'.id ≠ node := matched.twin.id_eq ▸ isSelf
    by_cases old : node < bound
    · have absent : node ∉ contents.ids := fun inside => Nat.not_lt.mpr (above node inside) old
      have absent' : node ∉ contents'.ids := fun inside => Nat.not_lt.mpr (above' node inside) old
      rw [StackStruct.find?_store slot (unique node) isSelf absent] at here
      rw [StackStruct.find?_store slot (unique' node) other absent'] at there
      exact matched.inside here there
    · obtain ⟨inner, isInner, inInner⟩ :=
        StackStruct.find?_of_store (fun inside => old (below node inside)) here
      obtain ⟨inner', isInner', inInner'⟩ :=
        StackStruct.find?_of_store (fun inside => old (below' node inside)) there
      exact same.inside isInner inInner isInner' inInner'

end Matching

section Spare

variable {machine : Machine} {struct : StackStruct} {contents : Slot} {ids : List NodeId}
  {base : NodeId} {position : Nat}

/-- Identifiers of nodes that are in no arena: they are numbered from `base` on, where those of the
arenas end. -/
structure Spare (base : NodeId) (machine : Machine) (ids : List NodeId) : Prop where
  unique : Unique ids
  lower : ∀ id ∈ ids, base ≤ id
  upper : ∀ id ∈ ids, id < machine.nextNode
  old : ∀ id ∈ nodeIds machine.frames, id < base

theorem Spare.apart (spare : Spare base machine ids) : ∀ id ∈ ids, id ∉ nodeIds machine.frames :=
  fun id inside old => Nat.not_lt.mpr (spare.lower id inside) (spare.old id old)

theorem Spare.thin {after : Machine} (spare : Spare base machine ids) (thins : Thins machine after) :
    Spare base after ids where
  unique := spare.unique
  lower := spare.lower
  upper := by
    rw [thins.rest]
    exact spare.upper
  old id member := spare.old id (StackStruct.mem_of_count_le (thins.ids id) member)

/-- A copy takes up the identifiers from the first free one on. -/
theorem spare_clone (numbered : Numbered machine.frames machine.nextNode) (struct : StackStruct) :
    Spare machine.nextNode { machine with nextNode := (struct.clone machine.nextNode).2 }
      (struct.clone machine.nextNode).1.ids where
  unique := StackStruct.clone_unique struct _
  lower _ member := (StackStruct.mem_clone_ids.mp member).1
  upper _ member := (StackStruct.mem_clone_ids.mp member).2
  old := numbered.below

/-- A plain value holds no nodes. -/
theorem spare_plain (numbered : Numbered machine.frames machine.nextNode) (value : Value) :
    Spare machine.nextNode machine (Slot.plain value).ids :=
  ⟨fun _ => by simp, by simp, by simp, numbered.below⟩

/-- A struct that is not in an arena has something stored into it that is not in one either. -/
theorem Spare.store (spare : Spare base machine struct.ids) {next : NodeId}
    (fresh : Spare machine.nextNode { machine with nextNode := next } contents.ids)
    (above : machine.nextNode ≤ next) (slot : Nat) :
    Spare base { machine with nextNode := next } (struct.store slot contents).ids := by
  have total := StackStruct.count_store_le struct slot contents
  have either := fun id => @StackStruct.mem_or_mem_of_count_le _ _ _ id (total id)
  refine ⟨StackStruct.unique_of_count_le spare.unique fresh.unique (fun id inside other => ?_) total,
    fun id member => ?_, fun id member => ?_, spare.old⟩
  · exact Nat.not_lt.mpr (fresh.lower id other) (spare.upper id inside)
  · rcases either id member with old | new
    · exact spare.lower id old
    · exact Nat.le_trans (spare.lower _ (StackStruct.id_mem_ids struct)) (Nat.le_trans
        (Nat.le_of_lt (spare.upper _ (StackStruct.id_mem_ids struct))) (fresh.lower id new))
  · rcases either id member with old | new
    · exact Nat.lt_of_lt_of_le (spare.upper id old) above
    · exact fresh.upper id new

/-- The arenas have got some spare identifiers. -/
theorem Spare.numbered {frames : List Frame} (spare : Spare base machine ids)
    (numbered : Numbered machine.frames machine.nextNode)
    (fewer : ∀ id, (nodeIds frames).count id ≤ ids.count id + (nodeIds machine.frames).count id) :
    Numbered frames machine.nextNode where
  unique := StackStruct.unique_of_count_le spare.unique numbered.unique spare.apart fewer
  below id member :=
    (StackStruct.mem_or_mem_of_count_le (fewer id) member).elim (spare.upper id) (numbered.below id)

theorem numbered_withSlot (numbered : Numbered machine.frames machine.nextNode)
    (spare : Spare base machine contents.ids) (target : NodeId) (slot : Nat) :
    Numbered (withSlot machine.frames target slot contents) machine.nextNode := by
  refine spare.numbered numbered fun id => ?_
  have total := @count_withSlot_le machine.frames target slot contents id
  have most := Nat.mul_le_mul_right (contents.ids.count id) (numbered.unique target)
  omega

/-- What is found after a frame got a struct was there before, or is part of the struct. -/
theorem node?_of_adopted (spare : Spare base machine struct.ids)
    (numbered : Numbered machine.frames machine.nextNode) {node : NodeId} {found : StackStruct}
    (here : Machine.node? { machine with frames := adopted machine.frames position struct } node
      = some found) :
    (node < base ∧ machine.node? node = some found) ∨ (base ≤ node ∧ struct.find? node = some found) := by
  obtain ⟨owner, member, inOwner⟩ := (node?_iff (spare.numbered numbered count_adopted_le).unique).mp here
  have inIds := (StackStruct.find?_isSome node owner).mp (by rw [inOwner]; rfl)
  have old : owner ∈ arenas machine.frames → node < base ∧ machine.node? node = some found :=
    fun isOld => ⟨spare.old node (mem_nodeIds_iff.mpr ⟨owner, isOld, inIds⟩),
      (node?_iff numbered.unique).mpr ⟨owner, isOld, inOwner⟩⟩
  rcases mem_arenas_modify member with same | ⟨frame, isFrame, inArena⟩
  · exact .inl (old same)
  · rcases List.mem_cons.mp inArena with rfl | isOld
    · exact .inr ⟨spare.lower node inIds, inOwner⟩
    · exact .inl (old (List.mem_flatMap.mpr ⟨frame, List.mem_of_getElem? isFrame, isOld⟩))

end Spare

section Changes

variable {pairs more : Pairing} {left right : Machine} {struct struct' : StackStruct}
  {contents contents' : Slot} {base : NodeId} {position : Nat}

theorem twinFrames_modify {frames frames' : List Frame} {change change' : Frame → Frame}
    (twins : List.Forall₂ (TwinFrame pairs) frames frames')
    (same : ∀ frame frame', TwinFrame pairs frame frame' →
      TwinFrame pairs (change frame) (change' frame')) :
    List.Forall₂ (TwinFrame pairs) (frames.modify position change)
      (frames'.modify position change') := by
  induction twins generalizing position with
  | nil => simp
  | cons first rest ih =>
    cases position with
    | zero => exact .cons (same _ _ first) rest
    | succ position => exact .cons first ih

/-- Both frames get a struct. -/
theorem Twin.adopt (twin : Twin pairs left right) (spare : Spare base left struct.ids)
    (spare' : Spare base right struct'.ids) (matched : Matched pairs struct struct') :
    Twin pairs { left with frames := adopted left.frames position struct }
      { right with frames := adopted right.frames position struct' } :=
  { twin with
    frames := twinFrames_modify twin.frames fun _ _ same => ⟨same.closure, same.base, same.ip⟩
    numbered := spare.numbered twin.numbered count_adopted_le
    numbered' := spare'.numbered twin.numbered' count_adopted_le
    nodes := fun here there => by
      rcases node?_of_adopted spare twin.numbered here with ⟨below, old⟩ | ⟨above, new⟩ <;>
        rcases node?_of_adopted spare' twin.numbered' there with ⟨below', old'⟩ | ⟨above', new'⟩
      · exact twin.nodes old old'
      · exact absurd below (Nat.not_lt.mpr above')
      · exact absurd below' (Nat.not_lt.mpr above)
      · exact matched.inside new new' }

/-- What is found after a store was there before, or is part of what was stored. -/
theorem node?_of_withSlot {machine : Machine} (spare : Spare base machine contents.ids)
    (numbered : Numbered machine.frames machine.nextNode) {target : NodeId} {slot : Nat}
    {node : NodeId} {found : StackStruct}
    (here : Machine.node? { machine with frames := withSlot machine.frames target slot contents } node
      = some found) :
    (node < base ∧ ∃ old, machine.node? node = some old ∧
        found = old.update target fun struct => struct.store slot contents) ∨
      base ≤ node ∧ ∃ inner, contents = .nested inner ∧ inner.find? node = some found := by
  have uniqueAfter := (numbered_withSlot numbered spare target slot).unique
  by_cases below : node < base
  · have apart : node ∉ contents.ids := fun inside => Nat.not_lt.mpr (spare.lower node inside) below
    have present : node ∈ nodeIds machine.frames := by
      have after : 0 < (nodeIds (withSlot machine.frames target slot contents)).count node :=
        List.count_pos_iff.mpr (mem_nodeIds_of_node? here)
      have total := @count_withSlot_le machine.frames target slot contents node
      rw [List.count_eq_zero_of_not_mem apart] at total
      exact List.count_pos_iff.mp (by simp only [Nat.mul_zero] at total; omega)
    obtain ⟨owner, member, inOwner⟩ := mem_nodeIds_iff.mp present
    obtain ⟨old, inOld⟩ := Option.isSome_iff_exists.mp ((StackStruct.find?_isSome node owner).mpr inOwner)
    have isOld := (node?_iff numbered.unique).mpr ⟨owner, member, inOld⟩
    obtain ⟨index, owned⟩ := owned_of_node? isOld
    have stays := (node?_eq { machine with frames := Machine.withSlot machine.frames target slot contents }
      node).trans ((owned.withSlot target slot numbered.unique apart).found uniqueAfter)
    exact .inl ⟨below, old, isOld, Option.some.inj (here.symm.trans stays)⟩
  · refine .inr ⟨Nat.not_lt.mp below, ?_⟩
    obtain ⟨owner, member, inOwner⟩ := (node?_iff uniqueAfter).mp here
    obtain ⟨frame, inFrames, inArena⟩ := List.mem_flatMap.mp member
    obtain ⟨old, isFrame, rfl⟩ := List.mem_map.mp inFrames
    rw [StackStruct.updateAmong_eq] at inArena
    obtain ⟨before, inBefore, rfl⟩ := List.mem_map.mp inArena
    refine StackStruct.find?_of_update (fun inside => below (spare.old node ?_)) inOwner
    exact mem_nodeIds_iff.mpr ⟨before, List.mem_flatMap.mpr ⟨old, isFrame, inBefore⟩, inside⟩

/-- The same store on both sides. -/
theorem Twin.withSlot (twin : Twin pairs left right) (spare : Spare base left contents.ids)
    (spare' : Spare base right contents'.ids) (matched : MatchedSlot pairs contents contents')
    (target : NodeId) (slot : Nat) :
    Twin pairs { left with frames := withSlot left.frames target slot contents }
      { right with frames := withSlot right.frames target slot contents' } :=
  { twin with
    frames := by
      simp only [Machine.withSlot, List.forall₂_map_left_iff, List.forall₂_map_right_iff]
      exact twin.frames.imp fun _ _ same => ⟨same.closure, same.base, same.ip⟩
    numbered := numbered_withSlot twin.numbered spare target slot
    numbered' := numbered_withSlot twin.numbered' spare' target slot
    nodes := fun here there => by
      rcases node?_of_withSlot spare twin.numbered here with
          ⟨below, old, isOld, rfl⟩ | ⟨above, inner, isInner, new⟩ <;>
        rcases node?_of_withSlot spare' twin.numbered' there with
          ⟨below', old', isOld', rfl⟩ | ⟨above', inner', isInner', new'⟩
      · exact StackStruct.Twin.update matched.twin old (twin.nodes isOld isOld')
      · exact absurd below (Nat.not_lt.mpr above')
      · exact absurd below' (Nat.not_lt.mpr above)
      · exact matched.inside isInner new isInner' new' }

/-- Frames that hold no more structs than before. -/
theorem Twin.withFrames {frames frames' : List Frame} (twin : Twin pairs left right)
    (twins : List.Forall₂ (TwinFrame pairs) frames frames')
    (fewer : List.Sublist (arenas frames) (arenas left.frames))
    (fewer' : List.Sublist (arenas frames') (arenas right.frames)) :
    Twin pairs { left with frames } { right with frames := frames' } := by
  have within : ∀ {machine : Machine} {frames : List Frame}, Numbered machine.frames machine.nextNode →
      List.Sublist (arenas frames) (arenas machine.frames) → Numbered frames machine.nextNode ∧
      ∀ {node found}, Machine.node? { machine with frames } node = some found →
        machine.node? node = some found := by
    intro machine frames numbered fewer
    have ids : ∀ id, (nodeIds frames).count id ≤ (nodeIds machine.frames).count id := by
      intro id
      rw [nodeIds, nodeIds, StackStruct.idsAmong_eq, StackStruct.idsAmong_eq]
      exact (fewer.flatMap _).count_le id
    refine ⟨⟨numbered.unique.of_le ids, fun id member => ?_⟩, fun {node found} here => ?_⟩
    · exact numbered.below id (StackStruct.mem_of_count_le (ids id) member)
    · obtain ⟨owner, member, inOwner⟩ :=
        (@node?_iff { machine with frames } node found (numbered.unique.of_le ids)).mp here
      exact (node?_iff numbered.unique).mpr ⟨owner, fewer.subset member, inOwner⟩
  have one := within twin.numbered fewer
  have other := within twin.numbered' fewer'
  exact { twin with
    frames := twins
    numbered := one.1
    numbered' := other.1
    nodes := fun here there => twin.nodes (one.2 here) (other.2 there) }

/-- A frame changes on both sides, but not what it holds. -/
theorem Twin.modifyFrame {change change' : Frame → Frame} (twin : Twin pairs left right)
    (same : ∀ frame frame', TwinFrame pairs frame frame' →
      TwinFrame pairs (change frame) (change' frame'))
    (keeps : ∀ frame, (change frame).arena = frame.arena)
    (keeps' : ∀ frame, (change' frame).arena = frame.arena) :
    Twin pairs { left with frames := left.frames.modify position change }
      { right with frames := right.frames.modify position change' } := by
  refine twin.withFrames (twinFrames_modify twin.frames same) ?_ ?_
  · rw [arenas_modify keeps]
  · rw [arenas_modify keeps']

/-- What is counted cannot be seen. -/
theorem Twin.recount {heap heap' : Heap} {bytes bytes' : UInt64} (twin : Twin pairs left right)
    (thins : left.heap.Thins heap) (thins' : right.heap.Thins heap') :
    Twin pairs { left with heap, arenaBytes := bytes }
      { right with heap := heap', arenaBytes := bytes' } :=
  twin.thin (.of_arenas thins twin.numbered.unique (sameCalls_refl _) (fun _ => Nat.le_refl _)
    fun _ member => .inl member) (.of_arenas thins' twin.numbered'.unique (sameCalls_refl _)
    (fun _ => Nat.le_refl _) fun _ member => .inl member)

end Changes

end ScriptMachine.Machine
