import ScriptMachine.Machine.Step
import ScriptMachine.Proofs.StackStruct.Contents

set_option autoImplicit false

/- The arenas of all frames together. A stack slot may name a struct of its own frame or of a
frame below, so ownership is stated for a slot: some frame that starts at or below it holds the
struct. -/
namespace ScriptMachine.Machine

open StackStruct (Unique idsAmong findAmong? updateAmong)

/-- The structs of all arenas. -/
def arenas (frames : List Frame) : List StackStruct :=
  frames.flatMap Frame.arena

/-- The identifiers of all nodes in some arena. -/
def nodeIds (frames : List Frame) : List NodeId :=
  idsAmong (arenas frames)

/-- A struct that a frame with its base at or below a stack slot owns. -/
def Owned (frames : List Frame) (index : Nat) (node : NodeId) (struct : StackStruct) : Prop :=
  ∃ frame ∈ frames, frame.base ≤ index ∧ findAmong? node frame.arena = some struct

/-- Frames that differ in their arenas only. -/
def SameCall (frame other : Frame) : Prop :=
  other.closure = frame.closure ∧ other.base = frame.base ∧ other.ip = frame.ip

theorem SameCall.refl (frame : Frame) : SameCall frame frame :=
  ⟨rfl, rfl, rfl⟩

section Lookup

variable {frames : List Frame} {frame : Frame} {index : Nat} {node : NodeId}
  {struct : StackStruct}

theorem nodeIds_eq (frames : List Frame) :
    nodeIds frames = frames.flatMap fun frame => idsAmong frame.arena := by
  simp only [nodeIds, arenas, StackStruct.idsAmong_eq, List.flatMap_assoc]

@[simp] theorem nodeIds_cons (frame : Frame) (frames : List Frame) :
    nodeIds (frame :: frames) = idsAmong frame.arena ++ nodeIds frames := by
  simp only [nodeIds_eq, List.flatMap_cons]

theorem count_arena_le (member : frame ∈ frames) (id : NodeId) :
    (idsAmong frame.arena).count id ≤ (nodeIds frames).count id := by
  induction frames with
  | nil => cases member
  | cons first rest ih =>
    rw [nodeIds_cons, List.count_append]
    rcases List.mem_cons.mp member with same | later
    · rw [same]; omega
    · have := ih later; omega

theorem node?_eq (machine : Machine) (id : NodeId) :
    machine.node? id = findAmong? id (arenas machine.frames) := by
  unfold node? arenas
  induction machine.frames with
  | nil => rfl
  | cons frame rest ih =>
    rw [List.findSome?_cons, List.flatMap_cons, ih, StackStruct.findAmong?_eq _ (_ ++ _),
      List.findSome?_append, ← StackStruct.findAmong?_eq, ← StackStruct.findAmong?_eq]
    cases findAmong? id frame.arena <;> rfl

theorem mem_nodeIds (member : frame ∈ frames) (found : findAmong? node frame.arena = some struct) :
    node ∈ nodeIds frames := by
  have inside : node ∈ idsAmong frame.arena := by
    rw [← StackStruct.findAmong?_isSome, found]
    rfl
  rw [nodeIds_eq]
  exact List.mem_flatMap.mpr ⟨frame, member, inside⟩

theorem Owned.mem_nodeIds (owned : Owned frames index node struct) : node ∈ nodeIds frames := by
  obtain ⟨frame, member, _, found⟩ := owned
  exact Machine.mem_nodeIds member found

theorem Owned.found (owned : Owned frames index node struct) (unique : Unique (nodeIds frames)) :
    findAmong? node (arenas frames) = some struct := by
  obtain ⟨frame, member, _, found⟩ := owned
  rw [StackStruct.findAmong?_eq] at found ⊢
  obtain ⟨owner, inArena, inOwner⟩ := List.exists_of_findSome?_eq_some found
  have inside : node ∈ owner.ids := by
    rw [← StackStruct.find?_isSome, inOwner]
    rfl
  rw [nodeIds, StackStruct.idsAmong_eq] at unique
  rw [StackStruct.findSome?_owner (unique node) (List.mem_flatMap.mpr ⟨frame, member, inArena⟩)
    inside, inOwner]

theorem Owned.node? {machine : Machine} (owned : Owned machine.frames index node struct)
    (unique : Unique (nodeIds machine.frames)) : machine.node? node = some struct := by
  rw [node?_eq, owned.found unique]

theorem owned_of_node? {machine : Machine} (found : machine.node? node = some struct) :
    ∃ index, Owned machine.frames index node struct := by
  obtain ⟨frame, member, inArena⟩ := List.exists_of_findSome?_eq_some found
  exact ⟨frame.base, frame, member, Nat.le_refl _, inArena⟩

theorem Owned.mono (owned : Owned frames index node struct) {higher : Nat}
    (above : index ≤ higher) : Owned frames higher node struct := by
  obtain ⟨frame, member, below, found⟩ := owned
  exact ⟨frame, member, Nat.le_trans below above, found⟩

/-- What is nested in an owned struct is owned. -/
theorem Owned.nested (owned : Owned frames index node struct) (unique : Unique (nodeIds frames))
    {slot : Nat} {inner : StackStruct} (here : struct.slots[slot]? = some (.nested inner)) :
    Owned frames index inner.id inner := by
  obtain ⟨frame, member, below, found⟩ := owned
  exact ⟨frame, member, below,
    StackStruct.findAmong?_nested (unique.of_le (count_arena_le member)) found here⟩

end Lookup

section Adopt

variable {frames : List Frame} {position : Nat} {frame : Frame} {struct : StackStruct}

/-- Frames of which one got a struct. -/
def adopted (frames : List Frame) (position : Nat) (struct : StackStruct) : List Frame :=
  frames.modify position fun frame => { frame with arena := struct :: frame.arena }

theorem count_adopted_le (id : NodeId) :
    (nodeIds (adopted frames position struct)).count id
      ≤ struct.ids.count id + (nodeIds frames).count id := by
  induction frames generalizing position with
  | nil => simp [adopted]
  | cons first rest ih =>
    cases position with
    | zero =>
      simp only [adopted, List.modify_zero_cons, nodeIds_cons, idsAmong, List.count_append]
      omega
    | succ position =>
      have below := @ih position
      simp only [adopted] at below
      simp only [adopted, List.modify_succ_cons, nodeIds_cons, List.count_append]
      omega

theorem Owned.adopted {index : Nat} {node : NodeId} {found : StackStruct}
    (owned : Owned frames index node found) (apart : node ∉ struct.ids) :
    Owned (adopted frames position struct) index node found := by
  obtain ⟨frame, member, below, inArena⟩ := owned
  obtain ⟨place, here⟩ := List.mem_iff_getElem?.mp member
  by_cases same : position = place
  · refine ⟨{ frame with arena := struct :: frame.arena }, ?_, below, ?_⟩
    · apply List.mem_iff_getElem?.mpr ⟨place, ?_⟩
      simp [Machine.adopted, same, here]
    · rw [findAmong?, StackStruct.find?_eq_none apart]
      exact inArena
  · refine ⟨frame, ?_, below, inArena⟩
    apply List.mem_iff_getElem?.mpr ⟨place, ?_⟩
    simp [Machine.adopted, same, here]

end Adopt

section Sweep

variable {frames : List Frame} {position : Nat} {referenced : List NodeId}

/-- Frames of which one had its arena swept and its counters set anew. -/
def swept (frames : List Frame) (position : Nat) (referenced : List NodeId)
    (arrivals sweepAt : Nat) : List Frame :=
  frames.modify position fun frame =>
    { frame with arena := sweptArena referenced frame.arena, arrivals, sweepAt }

theorem sweptArena_eq (arena : List StackStruct) :
    sweptArena referenced arena = arena.filterMap (StackStruct.kept referenced.contains) := rfl

theorem count_swept_le {arrivals sweepAt : Nat} (id : NodeId) :
    (nodeIds (swept frames position referenced arrivals sweepAt)).count id
      ≤ (nodeIds frames).count id := by
  induction frames generalizing position with
  | nil => simp [swept]
  | cons first rest ih =>
    cases position with
    | zero =>
      have below := @StackStruct.count_kept_le referenced.contains first.arena id
      simp only [swept, List.modify_zero_cons, nodeIds_cons, List.count_append, sweptArena_eq]
      omega
    | succ position =>
      have below := @ih position
      simp only [swept] at below
      simp only [swept, List.modify_succ_cons, nodeIds_cons, List.count_append]
      omega

/-- A struct that is referenced is still owned after a sweep, with the same contents. -/
theorem Owned.swept {index : Nat} {node : NodeId} {struct : StackStruct} {arrivals sweepAt : Nat}
    (owned : Owned frames index node struct) (wanted : node ∈ referenced) :
    Owned (swept frames position referenced arrivals sweepAt) index node struct ∨
      Owned (swept frames position referenced arrivals sweepAt) index node
        (struct.prune referenced.contains).2 := by
  obtain ⟨frame, member, below, inArena⟩ := owned
  obtain ⟨place, here⟩ := List.mem_iff_getElem?.mp member
  by_cases same : position = place
  · refine Or.inr ⟨{ frame with arena := sweptArena referenced frame.arena, arrivals, sweepAt },
      ?_, below, ?_⟩
    · apply List.mem_iff_getElem?.mpr ⟨place, ?_⟩
      simp [Machine.swept, same, here]
    · rw [sweptArena_eq, StackStruct.findAmong?_kept (by simpa using wanted), inArena]
      rfl
  · refine Or.inl ⟨frame, ?_, below, inArena⟩
    apply List.mem_iff_getElem?.mpr ⟨place, ?_⟩
    simp [Machine.swept, same, here]

end Sweep

section Store

variable {frames : List Frame} {target : NodeId} {slot : Nat} {contents : Slot}

/-- Frames after a store into a slot of a node, whichever frame owns it. -/
def withSlot (frames : List Frame) (target : NodeId) (slot : Nat) (contents : Slot) : List Frame :=
  frames.map fun frame =>
    { frame with arena := updateAmong target (fun struct => struct.store slot contents) frame.arena }

theorem count_withSlot_le (id : NodeId) :
    (nodeIds (withSlot frames target slot contents)).count id
      ≤ (nodeIds frames).count id + (nodeIds frames).count target * contents.ids.count id := by
  induction frames with
  | nil => simp [withSlot]
  | cons first rest ih =>
    have here := @StackStruct.count_updateAmong_le target _ id _
      (fun struct => StackStruct.count_store_le struct slot contents id) first.arena
    simp only [withSlot] at ih
    simp only [withSlot, List.map_cons, nodeIds_cons, List.count_append, Nat.add_mul]
    omega

/-- Every struct stays owned, changed where the store reaches it. -/
theorem Owned.withSlot {index : Nat} {node : NodeId} {struct : StackStruct}
    (owned : Owned frames index node struct) (target : NodeId) (slot : Nat) (unique : Unique (nodeIds frames))
    (apart : node ∉ contents.ids) :
    Owned (withSlot frames target slot contents) index node
      (struct.update target fun struct => struct.store slot contents) := by
  obtain ⟨frame, member, below, inArena⟩ := owned
  refine ⟨_, List.mem_map.mpr ⟨frame, member, rfl⟩, below, ?_⟩
  rw [StackStruct.findAmong?_update (unique.of_le (count_arena_le member)), inArena, Option.map_some]
  · intro struct
    exact StackStruct.store_id struct slot contents
  · intro struct single isTarget other
    exact StackStruct.find?_store slot single (isTarget ▸ other) apart

end Store

end ScriptMachine.Machine
