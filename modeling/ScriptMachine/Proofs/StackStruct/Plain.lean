import ScriptMachine.Proofs.StackStruct.Nodes

set_option autoImplicit false

/- Structs in which no plain slot names a struct. Then a struct is reached from another one only as
its child, at every depth and also among the displaced ones. -/
namespace ScriptMachine

/-- A value that is no frame-owned struct. -/
def Value.Plain (value : Value) : Prop :=
  value.node? = none

namespace StackStruct

mutual

def Plain : StackStruct → Prop
  | .node _ _ slots displaced => PlainSlots slots ∧ PlainAmong displaced

def PlainSlots : List Slot → Prop
  | [] => True
  | .plain value :: rest => value.Plain ∧ PlainSlots rest
  | .nested inner :: rest => inner.Plain ∧ PlainSlots rest

def PlainAmong : List StackStruct → Prop
  | [] => True
  | struct :: rest => struct.Plain ∧ PlainAmong rest

end

theorem plainAmong_iff (structs : List StackStruct) :
    PlainAmong structs ↔ ∀ struct ∈ structs, struct.Plain := by
  induction structs with
  | nil => simp [PlainAmong]
  | cons struct rest ih => simp [PlainAmong, ih]

/-- Contents that may be stored in a slot. -/
def PlainSlot : Slot → Prop
  | .plain value => value.Plain
  | .nested inner => inner.Plain

theorem plainSlots_iff (slots : List Slot) :
    PlainSlots slots ↔ ∀ slot ∈ slots, PlainSlot slot := by
  induction slots with
  | nil => simp [PlainSlots]
  | cons slot rest ih => cases slot <;> simp [PlainSlots, PlainSlot, ih]

theorem plain_iff (struct : StackStruct) :
    struct.Plain ↔ (∀ slot ∈ struct.slots, PlainSlot slot) ∧ ∀ other ∈ struct.displaced, other.Plain := by
  cases struct with
  | node id type slots displaced =>
    rw [Plain, plainSlots_iff, plainAmong_iff]
    rfl

theorem plain_blank (id : NodeId) (type : StructId) (count : Nat) : (blank id type count).Plain := by
  rw [plain_iff]
  refine ⟨fun slot member => ?_, by simp [blank, displaced]⟩
  rw [List.eq_of_mem_replicate member]
  rfl

theorem Plain.children {struct : StackStruct} (isPlain : struct.Plain) :
    ∀ child ∈ struct.children, child.Plain := by
  rw [plain_iff] at isPlain
  intro child member
  rcases List.mem_append.mp member with nested | displaced
  · obtain ⟨slot, inSlots, isInner⟩ := List.mem_filterMap.mp nested
    cases slot with
    | plain _ => cases isInner
    | nested inner =>
      cases isInner
      exact isPlain.1 _ inSlots
  · exact isPlain.2 _ displaced

theorem Plain.store {struct : StackStruct} (isPlain : struct.Plain) (slot : Nat) {contents : Slot}
    (stored : PlainSlot contents) : (struct.store slot contents).Plain := by
  cases struct with
  | node id type slots displaced =>
    rw [plain_iff] at isPlain ⊢
    refine ⟨fun other member => ?_, fun other member => ?_⟩
    · rcases List.mem_or_eq_of_mem_set member with old | new
      · exact isPlain.1 other old
      · rwa [new]
    · rcases List.mem_append.mp member with old | new
      · exact isPlain.2 other old
      · obtain ⟨before, here, isInner⟩ := Option.bind_eq_some_iff.mp (Option.mem_toList.mp new)
        cases before with
        | plain _ => cases isInner
        | nested inner =>
          cases isInner
          exact isPlain.1 _ (List.mem_of_getElem? here)

mutual

theorem Plain.find? {target : NodeId} {found : StackStruct} : (struct : StackStruct) →
    struct.Plain → struct.find? target = some found → found.Plain
  | .node id type slots displaced, isPlain, here => by
    rw [StackStruct.find?] at here
    split at here
    · cases here
      exact isPlain
    · rcases Option.or_eq_some_iff.mp (Option.orElse_eq_or.symm.trans here) with inSlots | ⟨_, among⟩
      · exact PlainSlots.find? slots isPlain.1 inSlots
      · exact PlainAmong.find? displaced isPlain.2 among

theorem PlainSlots.find? {target : NodeId} {found : StackStruct} : (slots : List Slot) →
    PlainSlots slots → findInSlots? target slots = some found → found.Plain
  | [], _, here => by cases here
  | .plain _ :: rest, isPlain, here => PlainSlots.find? rest isPlain.2 here
  | .nested inner :: rest, isPlain, here => by
    rcases Option.or_eq_some_iff.mp (Option.orElse_eq_or.symm.trans here) with inside | ⟨_, later⟩
    · exact Plain.find? inner isPlain.1 inside
    · exact PlainSlots.find? rest isPlain.2 later

theorem PlainAmong.find? {target : NodeId} {found : StackStruct} : (structs : List StackStruct) →
    PlainAmong structs → findAmong? target structs = some found → found.Plain
  | [], _, here => by cases here
  | struct :: rest, isPlain, here => by
    rcases Option.or_eq_some_iff.mp (Option.orElse_eq_or.symm.trans here) with inside | ⟨_, later⟩
    · exact Plain.find? struct isPlain.1 inside
    · exact PlainAmong.find? rest isPlain.2 later

end

section Update

variable {target : NodeId} {change : StackStruct → StackStruct}

mutual

theorem Plain.update (keeps : ∀ struct : StackStruct, struct.Plain → (change struct).Plain) :
    (struct : StackStruct) → struct.Plain → (struct.update target change).Plain
  | .node id type slots displaced, isPlain => by
    rw [StackStruct.update]
    split
    · exact keeps _ isPlain
    · exact ⟨PlainSlots.update keeps slots isPlain.1, PlainAmong.update keeps displaced isPlain.2⟩

theorem PlainSlots.update (keeps : ∀ struct : StackStruct, struct.Plain → (change struct).Plain) :
    (slots : List Slot) → PlainSlots slots → PlainSlots (updateInSlots target change slots)
  | [], _ => trivial
  | .plain _ :: rest, isPlain => ⟨isPlain.1, PlainSlots.update keeps rest isPlain.2⟩
  | .nested inner :: rest, isPlain =>
    ⟨Plain.update keeps inner isPlain.1, PlainSlots.update keeps rest isPlain.2⟩

theorem PlainAmong.update (keeps : ∀ struct : StackStruct, struct.Plain → (change struct).Plain) :
    (structs : List StackStruct) → PlainAmong structs →
      PlainAmong (updateAmong target change structs)
  | [], _ => trivial
  | struct :: rest, isPlain =>
    ⟨Plain.update keeps struct isPlain.1, PlainAmong.update keeps rest isPlain.2⟩

end

end Update

mutual

theorem Plain.clone : (struct : StackStruct) → (fresh : NodeId) → struct.Plain →
    (struct.clone fresh).1.Plain
  | .node _ _ slots _, fresh, isPlain => ⟨PlainSlots.clone slots (fresh + 1) isPlain.1, trivial⟩

theorem PlainSlots.clone : (slots : List Slot) → (fresh : NodeId) → PlainSlots slots →
    PlainSlots (cloneSlots fresh slots).1
  | [], _, _ => trivial
  | .plain _ :: rest, fresh, isPlain => ⟨isPlain.1, PlainSlots.clone rest fresh isPlain.2⟩
  | .nested inner :: rest, fresh, isPlain =>
    ⟨Plain.clone inner fresh isPlain.1, PlainSlots.clone rest (inner.clone fresh).2 isPlain.2⟩

end

section Prune

variable {referenced : NodeId → Bool}

mutual

theorem Plain.prune : (struct : StackStruct) → struct.Plain → (struct.prune referenced).2.Plain
  | .node _ _ slots displaced, isPlain =>
    ⟨PlainSlots.prune slots isPlain.1, PlainAmong.prune displaced isPlain.2⟩

theorem PlainSlots.prune : (slots : List Slot) → PlainSlots slots →
    PlainSlots (pruneSlots referenced slots).2
  | [], _ => trivial
  | .plain _ :: rest, isPlain => ⟨isPlain.1, PlainSlots.prune rest isPlain.2⟩
  | .nested inner :: rest, isPlain =>
    ⟨Plain.prune inner isPlain.1, PlainSlots.prune rest isPlain.2⟩

theorem PlainAmong.prune : (structs : List StackStruct) → PlainAmong structs →
    PlainAmong (pruneDisplaced referenced structs).2
  | [], _ => trivial
  | struct :: rest, isPlain => by
    have here := Plain.prune struct isPlain.1
    have later := PlainAmong.prune rest isPlain.2
    simp only [pruneDisplaced]
    split
    · exact ⟨here, later⟩
    · exact later

end

end Prune

end StackStruct

end ScriptMachine
