import Mathlib.Tactic.Tauto
import ScriptMachine.Proofs.StackStruct.Change

set_option autoImplicit false

/- What the current contents of a struct are like, at every depth. Displaced structs are not part
of the contents: nothing reads them through their owner. -/
namespace ScriptMachine.StackStruct

variable {plain : Value → Prop} {sized : StructId → Nat → Prop}

mutual

/-- Every plain value in a struct satisfies `plain`, and every struct in it has as many slots as
`sized` asks of its type. -/
def Fits (plain : Value → Prop) (sized : StructId → Nat → Prop) : StackStruct → Prop
  | .node _ type slots _ => sized type slots.length ∧ FitsSlots plain sized slots

def FitsSlots (plain : Value → Prop) (sized : StructId → Nat → Prop) : List Slot → Prop
  | [] => True
  | .plain value :: rest => plain value ∧ FitsSlots plain sized rest
  | .nested inner :: rest => inner.Fits plain sized ∧ FitsSlots plain sized rest

end

/-- The contents of one slot satisfy what `Fits` asks. -/
def FitsSlot (plain : Value → Prop) (sized : StructId → Nat → Prop) : Slot → Prop
  | .plain value => plain value
  | .nested inner => inner.Fits plain sized

theorem fitsSlots_iff (slots : List Slot) :
    FitsSlots plain sized slots ↔ ∀ slot ∈ slots, FitsSlot plain sized slot := by
  induction slots with
  | nil => simp [FitsSlots]
  | cons slot rest ih => cases slot <;> simp [FitsSlots, FitsSlot, ih]

theorem fits_iff (struct : StackStruct) :
    struct.Fits plain sized ↔
      sized struct.type struct.slots.length ∧ ∀ slot ∈ struct.slots, FitsSlot plain sized slot := by
  cases struct with
  | node id type slots displaced =>
    simp [Fits, fitsSlots_iff, StackStruct.type, StackStruct.slots]

theorem Fits.slot {struct : StackStruct} (fits : struct.Fits plain sized) {index : Nat} {slot : Slot}
    (here : struct.slots[index]? = some slot) : FitsSlot plain sized slot :=
  ((fits_iff struct).mp fits).2 slot (List.mem_of_getElem? here)

theorem Fits.slotCount {struct : StackStruct} (fits : struct.Fits plain sized) :
    sized struct.type struct.slots.length :=
  ((fits_iff struct).mp fits).1

@[simp] theorem store_type (struct : StackStruct) (slot : Nat) (contents : Slot) :
    (struct.store slot contents).type = struct.type := by
  cases struct; rfl

@[simp] theorem store_slots (struct : StackStruct) (slot : Nat) (contents : Slot) :
    (struct.store slot contents).slots = struct.slots.set slot contents := by
  cases struct; rfl

@[simp] theorem prune_type (struct : StackStruct) (referenced : NodeId → Bool) :
    (struct.prune referenced).2.type = struct.type := by
  cases struct; rfl

theorem Fits.store {struct : StackStruct} (fits : struct.Fits plain sized) (slot : Nat)
    {contents : Slot} (fitting : FitsSlot plain sized contents) :
    (struct.store slot contents).Fits plain sized := by
  rw [fits_iff, store_type, store_slots, List.length_set]
  refine ⟨fits.slotCount, fun other member => ?_⟩
  rcases List.mem_or_eq_of_mem_set member with old | new
  · exact ((fits_iff struct).mp fits).2 other old
  · rw [new]
    exact fitting

theorem fits_blank {id : NodeId} {type : StructId} {count : Nat} (isSized : sized type count)
    (nil : plain .nil) : (blank id type count).Fits plain sized := by
  rw [fits_iff]
  refine ⟨by simpa [blank, StackStruct.type, StackStruct.slots] using isSized, ?_⟩
  intro slot member
  simp only [blank, StackStruct.slots, List.mem_replicate] at member
  rw [member.2]
  exact nil

mutual

theorem Fits.update {target : NodeId} {change : StackStruct → StackStruct}
    (keeps : ∀ struct : StackStruct, struct.Fits plain sized → (change struct).Fits plain sized) :
    (struct : StackStruct) → struct.Fits plain sized →
    (struct.update target change).Fits plain sized
  | .node id type slots displaced, fits => by
    rw [StackStruct.update]
    split
    · exact keeps _ fits
    · obtain ⟨isSized, inside⟩ := fits
      obtain ⟨same, fitting⟩ := FitsSlots.update keeps slots inside
      exact ⟨same ▸ isSized, fitting⟩

theorem FitsSlots.update {target : NodeId} {change : StackStruct → StackStruct}
    (keeps : ∀ struct : StackStruct, struct.Fits plain sized → (change struct).Fits plain sized) :
    (slots : List Slot) → FitsSlots plain sized slots →
    slots.length = (updateInSlots target change slots).length ∧
      FitsSlots plain sized (updateInSlots target change slots)
  | [], _ => ⟨rfl, trivial⟩
  | .plain _ :: rest, fits => by
    obtain ⟨same, fitting⟩ := FitsSlots.update keeps rest fits.2
    exact ⟨by simp [updateInSlots, same], fits.1, fitting⟩
  | .nested inner :: rest, fits => by
    obtain ⟨same, fitting⟩ := FitsSlots.update keeps rest fits.2
    exact ⟨by simp [updateInSlots, same], Fits.update keeps inner fits.1, fitting⟩

end

mutual

theorem Fits.clone : (struct : StackStruct) → (fresh : NodeId) → struct.Fits plain sized →
    (struct.clone fresh).1.Fits plain sized
  | .node _ type slots _, fresh, fits => by
    obtain ⟨isSized, inside⟩ := fits
    obtain ⟨same, fitting⟩ := FitsSlots.clone slots (fresh + 1) inside
    exact ⟨same ▸ isSized, fitting⟩

theorem FitsSlots.clone : (slots : List Slot) → (fresh : NodeId) →
    FitsSlots plain sized slots →
    slots.length = (cloneSlots fresh slots).1.length ∧
      FitsSlots plain sized (cloneSlots fresh slots).1
  | [], _, _ => ⟨rfl, trivial⟩
  | .plain _ :: rest, fresh, fits => by
    obtain ⟨same, fitting⟩ := FitsSlots.clone rest fresh fits.2
    exact ⟨by simp [cloneSlots, same], fits.1, fitting⟩
  | .nested inner :: rest, fresh, fits => by
    obtain ⟨same, fitting⟩ := FitsSlots.clone rest (inner.clone fresh).2 fits.2
    exact ⟨by simp [cloneSlots, same], Fits.clone inner fresh fits.1, fitting⟩

end

mutual

theorem Fits.prune {referenced : NodeId → Bool} : (struct : StackStruct) →
    struct.Fits plain sized → (struct.prune referenced).2.Fits plain sized
  | .node _ type slots _, fits => by
    obtain ⟨isSized, inside⟩ := fits
    obtain ⟨same, fitting⟩ := FitsSlots.prune slots inside
    exact ⟨same ▸ isSized, fitting⟩

theorem FitsSlots.prune {referenced : NodeId → Bool} : (slots : List Slot) →
    FitsSlots plain sized slots →
    slots.length = (pruneSlots referenced slots).2.length ∧
      FitsSlots plain sized (pruneSlots referenced slots).2
  | [], _ => ⟨rfl, trivial⟩
  | .plain _ :: rest, fits => by
    obtain ⟨same, fitting⟩ := FitsSlots.prune rest fits.2
    exact ⟨by simp [pruneSlots, same], fits.1, fitting⟩
  | .nested inner :: rest, fits => by
    obtain ⟨same, fitting⟩ := FitsSlots.prune rest fits.2
    exact ⟨by simp [pruneSlots, same], Fits.prune inner fits.1, fitting⟩

end

mutual

theorem Fits.mono {other : Value → Prop} (weaker : ∀ value, plain value → other value) :
    (struct : StackStruct) → struct.Fits plain sized → struct.Fits other sized
  | .node _ _ slots _, fits => ⟨fits.1, FitsSlots.mono weaker slots fits.2⟩

theorem FitsSlots.mono {other : Value → Prop} (weaker : ∀ value, plain value → other value) :
    (slots : List Slot) → FitsSlots plain sized slots → FitsSlots other sized slots
  | [], _ => trivial
  | .plain _ :: rest, fits => ⟨weaker _ fits.1, FitsSlots.mono weaker rest fits.2⟩
  | .nested inner :: rest, fits => ⟨Fits.mono weaker inner fits.1, FitsSlots.mono weaker rest fits.2⟩

end

mutual

theorem Fits.resized {other : StructId → Nat → Prop}
    (weaker : ∀ type count, sized type count → other type count) :
    (struct : StackStruct) → struct.Fits plain sized → struct.Fits plain other
  | .node _ _ slots _, fits => ⟨weaker _ _ fits.1, FitsSlots.resized weaker slots fits.2⟩

theorem FitsSlots.resized {other : StructId → Nat → Prop}
    (weaker : ∀ type count, sized type count → other type count) :
    (slots : List Slot) → FitsSlots plain sized slots → FitsSlots plain other slots
  | [], _ => trivial
  | .plain _ :: rest, fits => ⟨fits.1, FitsSlots.resized weaker rest fits.2⟩
  | .nested inner :: rest, fits =>
    ⟨Fits.resized weaker inner fits.1, FitsSlots.resized weaker rest fits.2⟩

end

mutual

/-- The objects a struct names are among its plain values. -/
theorem Fits.references {live : ObjectId → Prop} (named : ∀ id, plain (.ref id) → live id) :
    (struct : StackStruct) → struct.Fits plain sized → ∀ id ∈ struct.references, live id
  | .node _ _ slots _, fits => FitsSlots.references named slots fits.2

theorem FitsSlots.references {live : ObjectId → Prop} (named : ∀ id, plain (.ref id) → live id) :
    (slots : List Slot) → FitsSlots plain sized slots → ∀ id ∈ slotReferences slots, live id
  | [], _, _, member => by simp [slotReferences] at member
  | .plain value :: rest, fits, id, member => by
    have later := FitsSlots.references named rest fits.2 id
    cases value with
    | ref object =>
      rcases List.mem_cons.mp member with here | inRest
      · rw [here]
        exact named object fits.1
      · exact later inRest
    | nil | bool _ | number _ | stack _ => exact later (by simpa only [slotReferences] using member)
  | .nested inner :: rest, fits, id, member => by
    rcases List.mem_append.mp (by simpa only [slotReferences] using member) with here | inRest
    · exact Fits.references named inner fits.1 id here
    · exact FitsSlots.references named rest fits.2 id inRest

end

mutual

/-- A copy names the same objects. -/
theorem clone_references : (struct : StackStruct) → (fresh : NodeId) →
    (struct.clone fresh).1.references = struct.references
  | .node _ _ slots _, fresh => by
    simp only [clone, references, cloneSlots_references slots (fresh + 1)]

theorem cloneSlots_references : (slots : List Slot) → (fresh : NodeId) →
    slotReferences (cloneSlots fresh slots).1 = slotReferences slots
  | [], _ => rfl
  | .plain value :: rest, fresh => by
    cases value <;> simp [cloneSlots, slotReferences, cloneSlots_references rest fresh]
  | .nested inner :: rest, fresh => by
    simp only [cloneSlots, slotReferences, clone_references inner fresh,
      cloneSlots_references rest (inner.clone fresh).2]

end

mutual

theorem prune_references {referenced : NodeId → Bool} : (struct : StackStruct) →
    (struct.prune referenced).2.references = struct.references
  | .node _ _ slots _ => by
    simp only [prune, references, pruneSlots_references slots]

theorem pruneSlots_references {referenced : NodeId → Bool} : (slots : List Slot) →
    slotReferences (pruneSlots referenced slots).2 = slotReferences slots
  | [] => rfl
  | .plain value :: rest => by
    cases value <;> simp [pruneSlots, slotReferences, pruneSlots_references rest]
  | .nested inner :: rest => by
    simp only [pruneSlots, slotReferences, prune_references inner, pruneSlots_references rest]

end

mutual

/-- Contents stay fitting for a condition that asks more of the objects they name. -/
theorem Fits.narrow {other : Value → Prop} {live : ObjectId → Prop}
    (narrow : ∀ value, plain value → (∀ id, value = .ref id → live id) → other value) :
    (struct : StackStruct) → struct.Fits plain sized → (∀ id ∈ struct.references, live id) →
    struct.Fits other sized
  | .node _ _ slots _, fits, named => ⟨fits.1, FitsSlots.narrow narrow slots fits.2 named⟩

theorem FitsSlots.narrow {other : Value → Prop} {live : ObjectId → Prop}
    (narrow : ∀ value, plain value → (∀ id, value = .ref id → live id) → other value) :
    (slots : List Slot) → FitsSlots plain sized slots → (∀ id ∈ slotReferences slots, live id) →
    FitsSlots other sized slots
  | [], _, _ => trivial
  | .plain value :: rest, fits, named => by
    refine ⟨narrow value fits.1 ?_, FitsSlots.narrow narrow rest fits.2 ?_⟩
    · intro id isRef
      exact named id (by simp [isRef, slotReferences])
    · intro id member
      exact named id (by cases value <;> simp [slotReferences, member])
  | .nested inner :: rest, fits, named =>
    ⟨Fits.narrow narrow inner fits.1 fun id member => named id (List.mem_append_left _ member),
      FitsSlots.narrow narrow rest fits.2 fun id member => named id (List.mem_append_right _ member)⟩

end

/-- The objects that the contents of a slot name. -/
def contentReferences (contents : Slot) : List ObjectId :=
  slotReferences [contents]

theorem slotReferences_cons (contents : Slot) (rest : List Slot) :
    slotReferences (contents :: rest) = contentReferences contents ++ slotReferences rest := by
  cases contents with
  | plain value => cases value <;> rfl
  | nested inner => simp [slotReferences, contentReferences]

theorem slotReferences_set {contents : Slot} {id : ObjectId} (slots : List Slot) (slot : Nat)
    (member : id ∈ slotReferences (slots.set slot contents)) :
    id ∈ slotReferences slots ∨ id ∈ contentReferences contents := by
  induction slots generalizing slot with
  | nil => exact Or.inl member
  | cons first rest ih =>
    cases slot with
    | zero =>
      rw [List.set_cons_zero, slotReferences_cons, List.mem_append] at member
      rw [slotReferences_cons, List.mem_append]
      tauto
    | succ slot =>
      rw [List.set_cons_succ, slotReferences_cons, List.mem_append] at member
      rw [slotReferences_cons, List.mem_append]
      rcases member with here | later
      · exact Or.inl (Or.inl here)
      · rcases ih slot later with old | new
        · exact Or.inl (Or.inr old)
        · exact Or.inr new

theorem store_references {struct : StackStruct} {slot : Nat} {contents : Slot} {id : ObjectId}
    (member : id ∈ (struct.store slot contents).references) :
    id ∈ struct.references ∨ id ∈ contentReferences contents := by
  cases struct with
  | node _ _ slots _ => exact slotReferences_set slots slot member

/-- A struct nested in one that is found among some structs is found there too. -/
theorem findAmong?_nested {structs : List StackStruct} {target : NodeId} {struct inner : StackStruct}
    (unique : Unique (idsAmong structs)) (found : findAmong? target structs = some struct)
    {index : Nat} (here : struct.slots[index]? = some (.nested inner)) :
    findAmong? inner.id structs = some inner :=
  findAmong?_child unique found (mem_children_of_slot here)

end ScriptMachine.StackStruct
