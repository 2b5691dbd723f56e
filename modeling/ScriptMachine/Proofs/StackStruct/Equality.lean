import Mathlib
import ScriptMachine.Proofs.StackStruct.Worth

set_option autoImplicit false

/- Equality of values in a forest of structs, in which every node has an identifier of its own. Two
different nodes are equal when their worths are, whichever copies they are. A node equals itself
without a look at its fields; that differs from what its worth says only where a field is not a
number. -/
namespace ScriptMachine

namespace Value

@[simp] theorem identical_self (value : Value) :
    value.identical value = true ↔ value ≠ .number Float.nan := by
  cases value <;> simp [identical]

theorem identical_comm (a b : Value) : a.identical b = b.identical a := by
  cases a <;> cases b <;> simp only [identical, Bool.beq_comm]
  rw [Bool.eq_iff_iff, Float.beq_iff_ne_nan_and_eq, Float.beq_iff_ne_nan_and_eq]
  grind

theorem identical_trans {a b c : Value} (first : a.identical b = true)
    (second : b.identical c = true) : a.identical c = true := by
  cases a <;> cases b <;> simp only [identical, reduceCtorEq] at first
  all_goals cases c <;> simp only [identical, reduceCtorEq] at second ⊢
  case number.number.number a b c =>
    rw [Float.beq_iff_ne_nan_and_eq] at first second ⊢
    grind
  all_goals grind

end Value

namespace Worth

mutual

/-- Equality of trees: the same type and equal fields. -/
def alike : Worth → Worth → Bool
  | .node type fields, .node type' fields' => type == type' && alikeFields fields fields'

def alikeFields : List FieldWorth → List FieldWorth → Bool
  | [], [] => true
  | .plain a :: left, .plain b :: right => a.identical b && alikeFields left right
  | .nested a :: left, .nested b :: right => a.alike b && alikeFields left right
  | _, _ => false

end

mutual

/-- No field, at any depth, is a number that differs from itself. -/
def Numeric : Worth → Prop
  | .node _ fields => NumericFields fields

def NumericFields : List FieldWorth → Prop
  | [] => True
  | .plain value :: rest => value ≠ .number Float.nan ∧ NumericFields rest
  | .nested inner :: rest => inner.Numeric ∧ NumericFields rest

end

mutual

/-- A tree equals itself exactly when all its numbers do. -/
theorem alike_self : (worth : Worth) → (worth.alike worth = true ↔ worth.Numeric)
  | .node _ fields => by simp [alike, Numeric, alikeFields_self fields]

theorem alikeFields_self : (fields : List FieldWorth) →
    (alikeFields fields fields = true ↔ NumericFields fields)
  | [] => by simp [alikeFields, NumericFields]
  | .plain _ :: rest => by simp [alikeFields, NumericFields, alikeFields_self rest]
  | .nested inner :: rest => by
    simp [alikeFields, NumericFields, alike_self inner, alikeFields_self rest]

end

mutual

theorem alike_comm : (one other : Worth) → one.alike other = other.alike one
  | .node _ _, .node _ _ => by rw [alike, alike, BEq.comm, alikeFields_comm]

theorem alikeFields_comm : (left right : List FieldWorth) →
    alikeFields left right = alikeFields right left
  | [], [] => rfl
  | [], .plain _ :: _ | [], .nested _ :: _ => rfl
  | .plain _ :: _, [] | .nested _ :: _, [] => rfl
  | .plain _ :: _, .nested _ :: _ | .nested _ :: _, .plain _ :: _ => rfl
  | .plain a :: left, .plain b :: right => by
    rw [alikeFields, alikeFields, Value.identical_comm, alikeFields_comm left right]
  | .nested a :: left, .nested b :: right => by
    rw [alikeFields, alikeFields, alike_comm a b, alikeFields_comm left right]

end

mutual

theorem alike_trans : {one middle other : Worth} → one.alike middle = true →
    middle.alike other = true → one.alike other = true
  | .node _ _, .node _ _, .node _ _, first, second => by
    simp only [alike, Bool.and_eq_true, beq_iff_eq] at first second ⊢
    exact ⟨first.1.trans second.1, alikeFields_trans first.2 second.2⟩

theorem alikeFields_trans : {left middle right : List FieldWorth} → alikeFields left middle = true →
    alikeFields middle right = true → alikeFields left right = true
  | [], [], [], _, _ => rfl
  | .plain _ :: _, .plain _ :: _, .plain _ :: _, first, second => by
    simp only [alikeFields, Bool.and_eq_true] at first second ⊢
    exact ⟨Value.identical_trans first.1 second.1, alikeFields_trans first.2 second.2⟩
  | .nested _ :: _, .nested _ :: _, .nested _ :: _, first, second => by
    simp only [alikeFields, Bool.and_eq_true] at first second ⊢
    exact ⟨alike_trans first.1 second.1, alikeFields_trans first.2 second.2⟩

end

end Worth

namespace StackStruct

section Owners

/-- Structs without a common node are told apart by any node of theirs. -/
theorem owner_eq {structs : List StackStruct} {one other : StackStruct} {id : NodeId}
    (single : (structs.flatMap ids).count id ≤ 1) (here : one ∈ structs) (there : other ∈ structs)
    (inOne : id ∈ one.ids) (inOther : id ∈ other.ids) : one = other := by
  induction structs with
  | nil => cases here
  | cons struct rest ih =>
    rw [List.flatMap_cons, List.count_append] at single
    have inRest : ∀ {owner : StackStruct}, owner ∈ rest → id ∈ owner.ids →
        1 ≤ (rest.flatMap ids).count id := fun member inside =>
      Nat.le_trans (List.count_pos_iff.mpr inside) (count_child_le member id)
    rcases List.mem_cons.mp here with isOne | inOnes <;>
      rcases List.mem_cons.mp there with isOther | inOthers
    · exact isOne.trans isOther.symm
    · have first := List.count_pos_iff.mpr inOne
      have second := inRest inOthers inOther
      rw [isOne] at first
      omega
    · have first := List.count_pos_iff.mpr inOther
      have second := inRest inOnes inOne
      rw [isOther] at first
      omega
    · exact ih (by omega) inOnes inOthers

variable {one other : StackStruct} {child child' : StackStruct}

/-- No struct is owned by itself or by what it owns. -/
theorem child_id_ne {struct : StackStruct} (unique : Unique struct.ids)
    (here : struct.find? one.id = some one) (member : child ∈ one.children) :
    child.id ≠ struct.id := by
  have inside := mem_ids_of_child member child.id_mem_ids
  rw [find?_eq] at here
  split at here
  · cases here
    exact (id_ne_of_mem_child unique member child.id_mem_ids).symm
  · obtain ⟨owner, isOwner, inOwner⟩ := List.exists_of_findSome?_eq_some here
    exact (id_ne_of_mem_child unique isOwner (mem_ids_of_found inOwner inside)).symm

/-- A node has one owner. -/
theorem parent_eq {struct : StackStruct} (unique : Unique struct.ids)
    (here : struct.find? one.id = some one) (there : struct.find? other.id = some other)
    (member : child ∈ one.children) (member' : child' ∈ other.children)
    (same : child.id = child'.id) : one = other := by
  have inOne := mem_ids_of_child member child.id_mem_ids
  have inOther := same ▸ mem_ids_of_child member' child'.id_mem_ids
  induction struct using induction_children with
  | node struct ih =>
    have single := unique.of_le (count_children_le struct)
    have uniqueOf : ∀ {owner : StackStruct}, owner ∈ struct.children → Unique owner.ids :=
      fun isOwner => single.of_le (count_child_le isOwner)
    rw [find?_eq] at here there
    split at here <;> split at there
    · cases here
      cases there
      rfl
    · -- The child of the whole is the owner of the other one, which it would then be owned by.
      cases here
      obtain ⟨owner, isOwner, inOwner⟩ := List.exists_of_findSome?_eq_some there
      obtain rfl := owner_eq (single _) member isOwner child.id_mem_ids
        (mem_ids_of_found inOwner inOther)
      exact absurd same.symm (child_id_ne (uniqueOf isOwner) inOwner member')
    · cases there
      obtain ⟨owner, isOwner, inOwner⟩ := List.exists_of_findSome?_eq_some here
      obtain rfl := owner_eq (single _) member' isOwner (same ▸ child'.id_mem_ids)
        (mem_ids_of_found inOwner inOne)
      exact absurd same (child_id_ne (uniqueOf isOwner) inOwner member)
    · obtain ⟨owner, isOwner, inOwner⟩ := List.exists_of_findSome?_eq_some here
      obtain ⟨owner', isOwner', inOwner'⟩ := List.exists_of_findSome?_eq_some there
      obtain rfl := owner_eq (single _) isOwner isOwner' (mem_ids_of_found inOwner inOne)
        (mem_ids_of_found inOwner' inOther)
      exact ih owner isOwner (uniqueOf isOwner) inOwner inOwner'

end Owners

section Equality

variable {roots : List StackStruct}

theorem parentAmong_eq (unique : Unique (idsAmong roots)) {one other child child' : StackStruct}
    (here : findAmong? one.id roots = some one) (there : findAmong? other.id roots = some other)
    (member : child ∈ one.children) (member' : child' ∈ other.children)
    (same : child.id = child'.id) : one = other := by
  rw [idsAmong_eq] at unique
  rw [findAmong?_eq] at here there
  obtain ⟨owner, isOwner, inOwner⟩ := List.exists_of_findSome?_eq_some here
  obtain ⟨owner', isOwner', inOwner'⟩ := List.exists_of_findSome?_eq_some there
  obtain rfl := owner_eq (unique _) isOwner isOwner'
    (mem_ids_of_found inOwner (mem_ids_of_child member child.id_mem_ids))
    (same ▸ mem_ids_of_found inOwner' (mem_ids_of_child member' child'.id_mem_ids))
  exact parent_eq (unique.of_le (count_child_le isOwner)) inOwner inOwner' member member' same

mutual

/-- Different nodes are equal when their worths are. -/
theorem equal_of_ne (unique : Unique (idsAmong roots)) : (one other : StackStruct) →
    findAmong? one.id roots = some one → findAmong? other.id roots = some other →
    one.id ≠ other.id →
    one.equal other = one.worth.alike other.worth
  | .node id type slots displaced, .node id' type' slots' displaced', here, there, apart => by
    have apart' : (id == id') = false := beq_eq_false_iff_ne.mpr apart
    rw [equal, worth, worth, Worth.alike, StackStruct.id, apart', Bool.false_or]
    refine congrArg _ (equalSlots_of_ne unique slots slots' fun inner inner' member member' => ?_)
    have owned : inner ∈ (node id type slots displaced).children :=
      List.mem_append_left _ (List.mem_filterMap.mpr ⟨_, member, rfl⟩)
    have owned' : inner' ∈ (node id' type' slots' displaced').children :=
      List.mem_append_left _ (List.mem_filterMap.mpr ⟨_, member', rfl⟩)
    refine ⟨findAmong?_child unique here owned, findAmong?_child unique there owned', fun same => ?_⟩
    exact apart (congrArg StackStruct.id (parentAmong_eq unique here there owned owned' same))

theorem equalSlots_of_ne (unique : Unique (idsAmong roots)) : (slots slots' : List Slot) →
    (∀ inner inner', .nested inner ∈ slots → .nested inner' ∈ slots' →
      findAmong? inner.id roots = some inner ∧ findAmong? inner'.id roots = some inner' ∧
        inner.id ≠ inner'.id) →
    equalSlots slots slots' = Worth.alikeFields (slotWorths slots) (slotWorths slots')
  | [], [], _ => rfl
  | [], .plain _ :: _, _ | [], .nested _ :: _, _ => rfl
  | .plain _ :: _, [], _ | .nested _ :: _, [], _ => rfl
  | .plain _ :: _, .nested _ :: _, _ | .nested _ :: _, .plain _ :: _, _ => rfl
  | .plain _ :: rest, .plain _ :: rest', apart => by
    rw [equalSlots, slotWorths, slotWorths, Worth.alikeFields,
      equalSlots_of_ne unique rest rest' fun inner inner' member member' =>
        apart inner inner' (List.mem_cons_of_mem _ member) (List.mem_cons_of_mem _ member')]
  | .nested inner :: rest, .nested inner' :: rest', apart => by
    obtain ⟨here, there, different⟩ := apart inner inner' List.mem_cons_self List.mem_cons_self
    rw [equalSlots, slotWorths, slotWorths, Worth.alikeFields,
      equal_of_ne unique inner inner' here there different,
      equalSlots_of_ne unique rest rest' fun inner inner' member member' =>
        apart inner inner' (List.mem_cons_of_mem _ member) (List.mem_cons_of_mem _ member')]

end

/-- Copies are compared by what they are copies of. -/
theorem equal_clones (one other : StackStruct) (fresh : NodeId) :
    (one.clone fresh).1.equal (other.clone (one.clone fresh).2).1 = one.worth.alike other.worth := by
  let copy := (one.clone fresh).1
  let copy' := (other.clone (one.clone fresh).2).1
  have later : fresh < (one.clone fresh).2 := clone_next_lt one fresh
  have apart : ∀ id ∈ copy.ids, id ∉ copy'.ids := fun id member member' =>
    absurd (mem_clone_ids.mp member).2 (Nat.not_lt.mpr (mem_clone_ids.mp member').1)
  have unique : Unique (idsAmong [copy, copy']) := by
    intro id
    simp only [idsAmong, List.append_nil, List.count_append]
    have first : copy.ids.count id ≤ 1 := clone_unique one fresh id
    have second : copy'.ids.count id ≤ 1 := clone_unique other (one.clone fresh).2 id
    by_cases member : id ∈ copy.ids
    · have := List.count_eq_zero.mpr (apart id member)
      omega
    · have := List.count_eq_zero.mpr member
      omega
  have different : copy.id ≠ copy'.id := by
    rw [clone_id, clone_id]
    exact Nat.ne_of_lt later
  have absent : copy.find? copy'.id = none :=
    find?_eq_none fun member => apart _ member copy'.id_mem_ids
  have compared := equal_of_ne unique copy copy' (by simp [findAmong?])
    (by simp [findAmong?, absent]) different
  rw [compared, worth_clone, worth_clone]

end Equality

end StackStruct

namespace View

open StackStruct (Unique idsAmong findAmong?)

variable {view : View} {roots : List StackStruct}

section Laws

variable (unique : Unique (idsAmong roots)) (finds : ∀ id, view.node? id = findAmong? id roots)

include unique finds

/-- Structs are equal when they are one node, or when their worths are equal. -/
theorem equal_stack {a b : NodeId} : view.equal (.stack a) (.stack b) = true ↔
    a = b ∨ ∃ one other, view.node? a = some one ∧ view.node? b = some other ∧
      one.worth.alike other.worth = true := by
  have named : ∀ {id : NodeId} {struct : StackStruct}, view.node? id = some struct →
      struct.id = id := fun found => (StackStruct.findAmong?_spec (finds _ ▸ found)).1
  rw [equal]
  cases here : view.node? a with
  | none => simp
  | some one =>
    cases there : view.node? b with
    | none => simp
    | some other =>
      obtain rfl := named here
      obtain rfl := named there
      by_cases same : one.id = other.id
      · obtain rfl : one = other := Option.some.inj (here.symm.trans (same ▸ there))
        cases one with
        | node id type slots displaced => simp [StackStruct.equal, StackStruct.id]
      · have compared := StackStruct.equal_of_ne unique one other (finds _ ▸ here) (finds _ ▸ there)
          same
        simp [compared, same]

theorem equal_comm (a b : Value) : view.equal a b = view.equal b a := by
  cases a <;> cases b <;> try rfl
  case stack.stack a b =>
    rw [Bool.eq_iff_iff, equal_stack unique finds, equal_stack unique finds]
    refine or_congr eq_comm ⟨?_, ?_⟩ <;> rintro ⟨one, other, here, there, alike⟩ <;>
      exact ⟨other, one, there, here, Worth.alike_comm one.worth _ ▸ alike⟩
  case bool.bool a b => exact Value.identical_comm (.bool a) (.bool b)
  case number.number a b => exact Value.identical_comm (.number a) (.number b)
  case ref.ref a b => exact Value.identical_comm (.ref a) (.ref b)

theorem equal_trans {a b c : Value} (first : view.equal a b = true) (second : view.equal b c = true) :
    view.equal a c = true := by
  cases a <;> cases b <;> try cases first
  all_goals cases c <;> try cases second
  case stack.stack.stack a b c =>
    rw [equal_stack unique finds] at first second ⊢
    obtain rfl | ⟨one, middle, here, there, alike⟩ := first
    · exact second
    · obtain rfl | ⟨middle', other, there', beyond, alike'⟩ := second
      · exact .inr ⟨one, middle, here, there, alike⟩
      · obtain rfl := Option.some.inj (there.symm.trans there')
        exact .inr ⟨one, other, here, beyond, Worth.alike_trans alike alike'⟩
  case nil.nil.refl.nil.refl => rfl
  case bool.bool.bool a b c => exact @Value.identical_trans (.bool a) (.bool b) (.bool c) first second
  case number.number.number a b c =>
    exact @Value.identical_trans (.number a) (.number b) (.number c) first second
  case ref.ref.ref a b c => exact @Value.identical_trans (.ref a) (.ref b) (.ref c) first second

/-- Copies compare as the structs do, unless a struct is compared with itself and holds, at some
depth, a number that differs from itself. -/
theorem equal_clones_iff {one other : StackStruct} (here : view.node? one.id = some one)
    (there : view.node? other.id = some other) (fresh : NodeId) :
    view.equal (.stack one.id) (.stack other.id)
        = (one.clone fresh).1.equal (other.clone (one.clone fresh).2).1
      ↔ (one.id = other.id → one.worth.Numeric) := by
  rw [StackStruct.equal_clones, Bool.eq_iff_iff, equal_stack unique finds]
  by_cases same : one.id = other.id
  · obtain rfl : one = other := Option.some.inj (here.symm.trans (same ▸ there))
    simp [Worth.alike_self]
  · simp [same, here, there]

end Laws

end View

end ScriptMachine
