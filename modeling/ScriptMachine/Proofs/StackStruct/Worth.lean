import ScriptMachine.Proofs.StackStruct.Change
import ScriptMachine.Value.Render

set_option autoImplicit false

/- What a struct is worth, whoever keeps it: its type and its fields, as an immutable tree. Neither
the identifiers of nodes nor displaced structs are part of it. Stores, copies and pruning are compared
here with what they do to such trees. -/
namespace ScriptMachine

mutual

inductive Worth where
  | node (type : StructId) (fields : List FieldWorth)

inductive FieldWorth where
  | plain (value : Value)
  | nested (inner : Worth)

end

namespace Worth

/-- The struct at the end of a path of fields. -/
def at? : List Nat → Worth → Option Worth
  | [], worth => some worth
  | step :: path, .node _ fields =>
    match fields[step]? with
    | some (.nested inner) => inner.at? path
    | _ => none

/-- Replaces one field of the struct at the end of a path. -/
def replace : List Nat → Nat → FieldWorth → Worth → Worth
  | [], field, contents, .node type fields => .node type (fields.set field contents)
  | step :: path, field, contents, .node type fields =>
    match fields[step]? with
    | some (.nested inner) =>
      .node type (fields.set step (.nested (inner.replace path field contents)))
    | _ => .node type fields

/-- There is nothing to replace where a path leads nowhere. -/
theorem replace_of_absent {path : List Nat} {worth : Worth} (absent : worth.at? path = none)
    (field : Nat) (contents : FieldWorth) : worth.replace path field contents = worth := by
  induction path generalizing worth with
  | nil => cases absent
  | cons step path ih =>
    cases worth with
    | node type fields =>
      rw [at?] at absent
      rw [replace]
      split at absent
      · next inner isField =>
        obtain ⟨inside, same⟩ := List.getElem?_eq_some_iff.mp isField
        rw [ih absent, ← same, List.set_getElem_self]
      · rfl

mutual

/-- The text of a tree, given what types are declared and how plain values are written. -/
def text (types : StructId → StructType) (plainText : Value → Text) : Worth → Text
  | .node type fields => structText (types type) (fieldTexts types plainText fields)

def fieldTexts (types : StructId → StructType) (plainText : Value → Text) :
    List FieldWorth → List Text
  | [] => []
  | .plain value :: rest => plainText value :: fieldTexts types plainText rest
  | .nested inner :: rest => inner.text types plainText :: fieldTexts types plainText rest

end

end Worth

namespace StackStruct

/-- The struct at the end of a path of slots. -/
def at? : List Nat → StackStruct → Option StackStruct
  | [], struct => some struct
  | step :: path, struct => (struct.slots[step]?.bind Slot.inner?).bind (at? path)

mutual

def worth : StackStruct → Worth
  | .node _ type slots _ => .node type (slotWorths slots)

def slotWorths : List Slot → List FieldWorth
  | [] => []
  | .plain value :: rest => .plain value :: slotWorths rest
  | .nested inner :: rest => .nested inner.worth :: slotWorths rest

end

end StackStruct

def Slot.worth : Slot → FieldWorth
  | .plain value => .plain value
  | .nested inner => .nested inner.worth

namespace StackStruct

theorem slotWorths_eq (slots : List Slot) : slotWorths slots = slots.map Slot.worth := by
  induction slots with
  | nil => rfl
  | cons slot rest ih => cases slot <;> simp [slotWorths, Slot.worth, ih]

@[simp] theorem worth_node (id : NodeId) (type : StructId) (slots : List Slot)
    (displaced : List StackStruct) :
    (node id type slots displaced).worth = .node type (slots.map Slot.worth) := by
  rw [worth, slotWorths_eq]

section Paths

theorem at?_cons_node (step : Nat) (path : List Nat) (id : NodeId) (type : StructId)
    (slots : List Slot) (displaced : List StackStruct) :
    at? (step :: path) (node id type slots displaced)
      = (slots[step]?.bind Slot.inner?).bind (at? path) := rfl

/-- A step of a path leads to a struct in a slot. -/
theorem exists_of_at? {step : Nat} {path : List Nat} {struct found : StackStruct}
    (here : struct.at? (step :: path) = some found) :
    ∃ inner, struct.slots[step]? = some (.nested inner) ∧ inner.at? path = some found := by
  obtain ⟨inner, isInner, further⟩ := Option.bind_eq_some_iff.mp here
  obtain ⟨slot, isSlot, inSlot⟩ := Option.bind_eq_some_iff.mp isInner
  cases slot with
  | plain _ => cases inSlot
  | nested _ =>
    cases inSlot
    exact ⟨_, isSlot, further⟩

/-- What is found at the end of a path is part of the struct. -/
theorem ids_at? {path : List Nat} {struct found : StackStruct} (here : struct.at? path = some found) :
    ∀ id ∈ found.ids, id ∈ struct.ids := by
  induction path generalizing struct with
  | nil =>
    cases here
    exact fun _ member => member
  | cons step path ih =>
    obtain ⟨inner, isSlot, further⟩ := exists_of_at? here
    intro id member
    exact mem_ids_of_child (mem_children_of_slot isSlot) (ih further id member)

/-- Identifiers lead where paths lead. -/
theorem find?_at? {path : List Nat} {struct found : StackStruct} (unique : Unique struct.ids)
    (here : struct.at? path = some found) : struct.find? found.id = some found := by
  induction path generalizing struct with
  | nil =>
    cases here
    exact find?_self _
  | cons step path ih =>
    obtain ⟨inner, isSlot, further⟩ := exists_of_at? here
    have member := mem_children_of_slot isSlot
    have single := unique.of_le (count_children_le struct)
    have inside := ids_at? further _ (id_mem_ids found)
    rw [find?_eq, if_neg (id_ne_of_mem_child unique member inside),
      findSome?_owner (single _) member inside]
    exact ih (single.of_le (count_child_le member)) further

/-- Paths lead in a struct where they lead in its worth. -/
theorem worth_at? (path : List Nat) (struct : StackStruct) :
    (struct.at? path).map worth = struct.worth.at? path := by
  induction path generalizing struct with
  | nil => rfl
  | cons step path ih =>
    cases struct with
    | node id type slots displaced =>
      rw [at?_cons_node, worth_node, Worth.at?, List.getElem?_map]
      cases isSlot : slots[step]? with
      | none => rfl
      | some slot =>
        cases slot with
        | plain _ => rfl
        | nested inner => exact ih inner

end Paths

section Changes

@[simp] theorem worth_store (struct : StackStruct) (slot : Nat) (contents : Slot) :
    (struct.store slot contents).worth = struct.worth.replace [] slot contents.worth := by
  cases struct with
  | node id type slots displaced => simp [store, Worth.replace, List.map_set]

/-- Slots without the target stay as they are when the target is changed. -/
theorem updateInSlots_eq_set {target : NodeId} {change : StackStruct → StackStruct}
    {slots : List Slot} {step : Nat} {inner : StackStruct}
    (single : ((slots.filterMap Slot.inner?).flatMap ids).count target ≤ 1)
    (isSlot : slots[step]? = some (.nested inner)) (inside : target ∈ inner.ids) :
    updateInSlots target change slots = slots.set step (.nested (inner.update target change)) := by
  have without : ∀ rest : List Slot,
      ((rest.filterMap Slot.inner?).flatMap ids).count target = 0 →
      updateInSlots target change rest = rest := by
    intro rest none
    induction rest with
    | nil => rfl
    | cons slot rest ih =>
      cases slot with
      | plain _ => rw [updateInSlots, ih (by simpa [List.filterMap_cons, Slot.inner?] using none)]
      | nested other =>
        simp only [List.filterMap_cons, Slot.inner?, List.flatMap_cons, List.count_append] at none
        rw [updateInSlots, ih (by omega), update_of_not_mem (List.count_eq_zero.mp (by omega))]
  have positive := List.count_pos_iff.mpr inside
  induction slots generalizing step with
  | nil => cases isSlot
  | cons slot rest ih =>
    cases step with
    | zero =>
      cases isSlot
      simp only [List.filterMap_cons, Slot.inner?, List.flatMap_cons, List.count_append] at single
      rw [updateInSlots, without rest (by omega), List.set_cons_zero]
    | succ step =>
      rw [List.getElem?_cons_succ] at isSlot
      cases slot with
      | plain _ =>
        rw [updateInSlots, List.set_cons_succ,
          ih (by simpa [List.filterMap_cons, Slot.inner?] using single) isSlot]
      | nested other =>
        simp only [List.filterMap_cons, Slot.inner?, List.flatMap_cons, List.count_append] at single
        have later := count_child_le (List.mem_filterMap.mpr
          ⟨_, List.mem_of_getElem? isSlot, rfl⟩ : inner ∈ rest.filterMap Slot.inner?) target
        rw [updateInSlots, List.set_cons_succ, ih (by omega) isSlot,
          update_of_not_mem (List.count_eq_zero.mp (by omega))]

/-- A store into the node at the end of a path replaces the field there, and nothing else. -/
theorem worth_update {path : List Nat} {struct found : StackStruct} (unique : Unique struct.ids)
    (here : struct.at? path = some found) (slot : Nat) (contents : Slot) :
    (struct.update found.id (·.store slot contents)).worth
      = struct.worth.replace path slot contents.worth := by
  induction path generalizing struct with
  | nil =>
    cases here
    rw [update_target rfl, worth_store]
  | cons step path ih =>
    obtain ⟨inner, isSlot, further⟩ := exists_of_at? here
    have inside := ids_at? further _ (id_mem_ids found)
    have member := mem_children_of_slot isSlot
    have apart := id_ne_of_mem_child unique member inside
    have uniqueInner : Unique inner.ids :=
      unique.of_le fun id => Nat.le_trans (count_child_le member id) (count_children_le struct id)
    cases struct with
    | node id type slots displaced =>
      have isSlot : slots[step]? = some (.nested inner) := isSlot
      have apart : id ≠ found.id := apart
      have single : ((slots.filterMap Slot.inner?).flatMap ids).count found.id ≤ 1 := by
        have once := Nat.le_trans (count_children_le _ _) (unique found.id)
        simp only [children, StackStruct.slots, List.flatMap_append, List.count_append] at once
        omega
      have isField : (slots.map Slot.worth)[step]? = some (.nested inner.worth) := by
        rw [List.getElem?_map, isSlot]
        rfl
      rw [update, if_neg (by simpa using apart), updateInSlots_eq_set single isSlot inside]
      simp only [worth_node, Worth.replace, isField, List.map_set, Slot.worth,
        ih uniqueInner further]

mutual

theorem worth_clone : (struct : StackStruct) → (fresh : NodeId) →
    (struct.clone fresh).1.worth = struct.worth
  | .node _ _ slots _, fresh => by
    simp only [clone, worth, slotWorths_clone slots (fresh + 1)]

theorem slotWorths_clone : (slots : List Slot) → (fresh : NodeId) →
    slotWorths (cloneSlots fresh slots).1 = slotWorths slots
  | [], _ => rfl
  | .plain _ :: rest, fresh => by simp only [cloneSlots, slotWorths, slotWorths_clone rest fresh]
  | .nested inner :: rest, fresh => by
    simp only [cloneSlots, slotWorths, worth_clone inner fresh, slotWorths_clone rest]

end

/-- Where a path leads in a copy there is a copy. -/
theorem exists_of_at?_clone {path : List Nat} {struct found : StackStruct} {fresh : NodeId}
    (here : (struct.clone fresh).1.at? path = some found) :
    ∃ inner start, struct.at? path = some inner ∧ found = (inner.clone start).1 := by
  have inSlots : ∀ (slots : List Slot) (fresh : NodeId) (step : Nat) (inner : StackStruct),
      (cloneSlots fresh slots).1[step]? = some (.nested inner) →
      ∃ source start, slots[step]? = some (.nested source) ∧ inner = (source.clone start).1 := by
    intro slots
    induction slots with
    | nil => exact fun _ _ _ isSlot => by cases isSlot
    | cons slot rest ih =>
      intro fresh step inner isSlot
      cases slot with
      | plain _ =>
        cases step with
        | zero => cases isSlot
        | succ step => exact ih fresh step inner isSlot
      | nested source =>
        cases step with
        | zero =>
          cases isSlot
          exact ⟨source, fresh, rfl, rfl⟩
        | succ step => exact ih _ step inner isSlot
  induction path generalizing struct fresh with
  | nil =>
    cases here
    exact ⟨struct, fresh, rfl, rfl⟩
  | cons step path ih =>
    obtain ⟨inner, isSlot, further⟩ := exists_of_at? here
    cases struct with
    | node id type slots displaced =>
      obtain ⟨source, start, isSource, rfl⟩ := inSlots slots (fresh + 1) step inner isSlot
      obtain ⟨last, begin, inSource, same⟩ := ih further
      refine ⟨last, begin, ?_, same⟩
      rw [at?_cons_node, isSource]
      exact inSource

/-- A copy owns no displaced structs, at any depth. -/
theorem displaced_clone {path : List Nat} {struct found : StackStruct} {fresh : NodeId}
    (here : (struct.clone fresh).1.at? path = some found) : found.displaced = [] := by
  obtain ⟨inner, start, -, rfl⟩ := exists_of_at?_clone here
  cases inner
  rfl

mutual

theorem worth_prune {referenced : NodeId → Bool} : (struct : StackStruct) →
    (struct.prune referenced).2.worth = struct.worth
  | .node _ _ slots _ => by simp only [prune, worth, slotWorths_prune slots]

theorem slotWorths_prune {referenced : NodeId → Bool} : (slots : List Slot) →
    slotWorths (pruneSlots referenced slots).2 = slotWorths slots
  | [] => rfl
  | .plain _ :: rest => by simp only [pruneSlots, slotWorths, slotWorths_prune rest]
  | .nested inner :: rest => by
    simp only [pruneSlots, slotWorths, worth_prune inner, slotWorths_prune rest]

end

end Changes

section Text

mutual

/-- A struct is written as what it is worth. -/
theorem text_worth (view : View) (plainText : Value → Text) : (struct : StackStruct) →
    struct.text view plainText = struct.worth.text view.structType plainText
  | .node _ _ slots _ => by
    simp only [StackStruct.text, worth, Worth.text, slotTexts_worth view plainText slots]

theorem slotTexts_worth (view : View) (plainText : Value → Text) : (slots : List Slot) →
    slotTexts view plainText slots
      = Worth.fieldTexts view.structType plainText (slotWorths slots)
  | [] => rfl
  | .plain _ :: rest => by
    simp only [slotTexts, slotWorths, Worth.fieldTexts, slotTexts_worth view plainText rest]
  | .nested inner :: rest => by
    simp only [slotTexts, slotWorths, Worth.fieldTexts, text_worth view plainText inner,
      slotTexts_worth view plainText rest]

end

end Text

end StackStruct

namespace View

/-- The text of a plain value in a frame-owned struct that is written on its own. -/
def partText (view : View) (value : Value) : Text :=
  view.textWithin (2 * view.heap.objectCount + 1) [] true value

theorem text_stack {view : View} {node : NodeId} {struct : StackStruct}
    (here : view.node? node = some struct) :
    view.text (.stack node) = struct.text view view.partText := by
  simp only [text, fullDepth, textWithin, here]
  rfl

end View

end ScriptMachine
