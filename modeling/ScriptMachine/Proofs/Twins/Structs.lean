import ScriptMachine.Proofs.Machine.Arenas
import ScriptMachine.Proofs.Twins.Heap

set_option autoImplicit false

/- Structs of two machines with the same contents. Nodes have one identifier on both sides; displaced
structs may have been pruned on one side only, and nothing reads them through their owner. -/
namespace ScriptMachine

namespace StackStruct

mutual

/-- Structs that agree in identifiers, types and slots, at every depth. -/
def Twin (pairs : Pairing) : StackStruct → StackStruct → Prop
  | .node id type slots _, other =>
    id = other.id ∧ type = other.type ∧ TwinSlots pairs slots other.slots

def TwinSlots (pairs : Pairing) : List Slot → List Slot → Prop
  | [], [] => True
  | .plain value :: rest, .plain value' :: rest' => value.Twin pairs value' ∧ TwinSlots pairs rest rest'
  | .nested inner :: rest, .nested inner' :: rest' =>
    inner.Twin pairs inner' ∧ TwinSlots pairs rest rest'
  | _, _ => False

end

/-- The contents of two slots agree. -/
inductive TwinSlot (pairs : Pairing) : Slot → Slot → Prop where
  | plain {value value' : Value} : value.Twin pairs value' → TwinSlot pairs (.plain value) (.plain value')
  | nested {inner inner' : StackStruct} : inner.Twin pairs inner' →
      TwinSlot pairs (.nested inner) (.nested inner')

variable {pairs more : Pairing} {struct struct' : StackStruct}

theorem twinSlots_iff {slots slots' : List Slot} :
    TwinSlots pairs slots slots' ↔ List.Forall₂ (TwinSlot pairs) slots slots' := by
  induction slots generalizing slots' with
  | nil => cases slots' <;> simp [TwinSlots]
  | cons first rest ih =>
    cases slots' with
    | nil => cases first <;> simp [TwinSlots]
    | cons first' rest' =>
      rw [List.forall₂_cons, ← ih]
      cases first <;> cases first' <;> simp only [TwinSlots] <;> constructor
      · exact fun ⟨value, rest⟩ => ⟨.plain value, rest⟩
      · exact fun ⟨.plain value, rest⟩ => ⟨value, rest⟩
      · exact False.elim
      · exact fun ⟨slot, _⟩ => nomatch slot
      · exact False.elim
      · exact fun ⟨slot, _⟩ => nomatch slot
      · exact fun ⟨inner, rest⟩ => ⟨.nested inner, rest⟩
      · exact fun ⟨.nested inner, rest⟩ => ⟨inner, rest⟩

theorem twin_iff : struct.Twin pairs struct' ↔ struct.id = struct'.id ∧ struct.type = struct'.type ∧
    List.Forall₂ (TwinSlot pairs) struct.slots struct'.slots := by
  cases struct with
  | node id type slots displaced => rw [Twin, twinSlots_iff]; rfl

theorem Twin.id_eq (twin : struct.Twin pairs struct') : struct.id = struct'.id :=
  (twin_iff.mp twin).1

theorem Twin.type_eq (twin : struct.Twin pairs struct') : struct.type = struct'.type :=
  (twin_iff.mp twin).2.1

theorem Twin.slots (twin : struct.Twin pairs struct') :
    List.Forall₂ (TwinSlot pairs) struct.slots struct'.slots :=
  (twin_iff.mp twin).2.2

theorem Twin.mono_swap (struct : StackStruct) : ∀ {struct' : StackStruct},
    struct.Twin pairs struct' → (∀ more, pairs ≤ more → struct.Twin more struct') ∧
      struct'.Twin pairs.swapped struct := by
  induction struct using induction_children with
  | node struct ih =>
    intro struct' twin
    have slot : ∀ {one other}, one ∈ struct.slots → TwinSlot pairs one other →
        (∀ more, pairs ≤ more → TwinSlot more one other) ∧ TwinSlot pairs.swapped other one := by
      intro one other member same
      cases same with
      | plain value => exact ⟨fun more larger => .plain (value.mono larger), .plain value.swap⟩
      | @nested inner inner' twin =>
        have below := ih inner (List.mem_append_left _
          (List.mem_filterMap.mpr ⟨_, member, rfl⟩)) twin
        exact ⟨fun more larger => .nested (below.1 more larger), .nested below.2⟩
    have slots := twin.slots
    refine ⟨fun more larger => twin_iff.mpr ⟨twin.id_eq, twin.type_eq, ?_⟩,
      twin_iff.mpr ⟨twin.id_eq.symm, twin.type_eq.symm, ?_⟩⟩
    · generalize struct'.slots = others at slots
      generalize struct.slots = ours at slots slot
      induction slots with
      | nil => exact .nil
      | cons same _ ihSlots =>
        exact .cons ((slot List.mem_cons_self same).1 more larger)
          (ihSlots fun member => slot (List.mem_cons_of_mem _ member))
    · generalize struct'.slots = others at slots
      generalize struct.slots = ours at slots slot
      induction slots with
      | nil => exact .nil
      | cons same _ ihSlots =>
        exact .cons (slot List.mem_cons_self same).2
          (ihSlots fun member => slot (List.mem_cons_of_mem _ member))

theorem Twin.mono (twin : struct.Twin pairs struct') (larger : pairs ≤ more) :
    struct.Twin more struct' :=
  (Twin.mono_swap struct twin).1 more larger

theorem TwinSlots.mono {slots slots' : List Slot} (twins : TwinSlots pairs slots slots')
    (larger : pairs ≤ more) : TwinSlots more slots slots' := by
  rw [twinSlots_iff] at twins ⊢
  refine twins.imp fun _ _ same => ?_
  cases same with
  | plain value => exact .plain (value.mono larger)
  | nested inner => exact .nested (inner.mono larger)

theorem Twin.swap (twin : struct.Twin pairs struct') : struct'.Twin pairs.swapped struct :=
  (Twin.mono_swap struct twin).2

/-- Reading a slot gives twins. -/
theorem Twin.field? (twin : struct.Twin pairs struct') {slot : Nat} {value value' : Value}
    (here : struct.field? slot = some value) (there : struct'.field? slot = some value') :
    value.Twin pairs value' := by
  obtain ⟨contents, isHere, rfl⟩ := Option.map_eq_some_iff.mp here
  obtain ⟨contents', isThere, rfl⟩ := Option.map_eq_some_iff.mp there
  have same : TwinSlot pairs contents contents' := by
    have slots := twin.slots
    rw [List.forall₂_iff_get] at slots
    obtain ⟨inside, rfl⟩ := List.getElem?_eq_some_iff.mp isHere
    obtain ⟨inside', rfl⟩ := List.getElem?_eq_some_iff.mp isThere
    exact slots.2 slot inside inside'
  cases same with
  | plain value => exact value
  | nested inner =>
    simp only [Slot.value, inner.id_eq]
    exact .stack _

theorem twin_blank (id : NodeId) (type : StructId) (count : Nat) :
    (blank id type count).Twin pairs (blank id type count) := by
  refine twin_iff.mpr ⟨rfl, rfl, ?_⟩
  simp only [blank, StackStruct.slots]
  induction count with
  | zero => exact .nil
  | succ count ih => exact .cons (.plain .nil) ih

theorem forall₂_set {α β : Type} {relation : α → β → Prop} {left : List α} {right : List β}
    (related : List.Forall₂ relation left right) (index : Nat) {a : α} {b : β}
    (same : relation a b) : List.Forall₂ relation (left.set index a) (right.set index b) := by
  induction related generalizing index with
  | nil => exact .nil
  | cons first rest ih =>
    cases index with
    | zero => exact .cons same rest
    | succ index => exact .cons first (ih index)

theorem Twin.store (twin : struct.Twin pairs struct') (slot : Nat) {contents contents' : Slot}
    (same : TwinSlot pairs contents contents') :
    (struct.store slot contents).Twin pairs (struct'.store slot contents') := by
  refine twin_iff.mpr ⟨by simp [twin.id_eq], by simp [twin.type_eq], ?_⟩
  rw [store_slots, store_slots]
  exact forall₂_set twin.slots slot same

section Clone

mutual

/-- Copies of twins are twins, take up the same identifiers, and have twins everywhere. -/
theorem Twin.clone : (struct : StackStruct) → {struct' : StackStruct} → struct.Twin pairs struct' →
    (fresh : NodeId) → (struct.clone fresh).2 = (struct'.clone fresh).2 ∧
      (struct.clone fresh).1.Twin pairs (struct'.clone fresh).1 ∧
      ∀ {node found found'}, (struct.clone fresh).1.find? node = some found →
        (struct'.clone fresh).1.find? node = some found' → found.Twin pairs found'
  | .node _ type slots _, .node _ type' slots' _, twin, fresh => by
    have inSlots : TwinSlots pairs slots slots' := twin.2.2
    obtain ⟨next, alike, inside⟩ := TwinSlots.clone slots inSlots (fresh + 1)
    have whole : (StackStruct.node fresh type (cloneSlots (fresh + 1) slots).1 []).Twin pairs
        (.node fresh type' (cloneSlots (fresh + 1) slots').1 []) := ⟨rfl, twin.2.1, alike⟩
    refine ⟨next, whole, fun {node found found'} here there => ?_⟩
    simp only [StackStruct.clone, find?, findAmong?] at here there
    split at here
    · next same =>
      rw [if_pos same] at there
      cases here
      cases there
      exact whole
    · next other =>
      rw [if_neg other] at there
      exact inside (by simpa using here) (by simpa using there)

theorem TwinSlots.clone : (slots : List Slot) → {slots' : List Slot} →
    TwinSlots pairs slots slots' → (fresh : NodeId) →
    (cloneSlots fresh slots).2 = (cloneSlots fresh slots').2 ∧
      TwinSlots pairs (cloneSlots fresh slots).1 (cloneSlots fresh slots').1 ∧
      ∀ {node found found'}, findInSlots? node (cloneSlots fresh slots).1 = some found →
        findInSlots? node (cloneSlots fresh slots').1 = some found' → found.Twin pairs found'
  | [], [], _, _ => ⟨rfl, trivial, fun here => nomatch here⟩
  | .plain _ :: rest, .plain _ :: rest', twin, fresh => by
    obtain ⟨next, alike, inside⟩ := TwinSlots.clone rest twin.2 fresh
    exact ⟨next, ⟨twin.1, alike⟩, inside⟩
  | .nested inner :: rest, .nested inner' :: rest', twin, fresh => by
    obtain ⟨next, alike, inside⟩ := Twin.clone inner twin.1 fresh
    obtain ⟨next', alike', inside'⟩ := TwinSlots.clone rest twin.2 (inner.clone fresh).2
    simp only [cloneSlots]
    rw [← next]
    refine ⟨next', ⟨alike, alike'⟩, fun {node found found'} here there => ?_⟩
    simp only [findInSlots?, Option.orElse_eq_orElse, Option.orElse_eq_or,
      Option.or_eq_some_iff] at here there
    -- a node of one copy is numbered like its counterpart, so the two are found in the same slot
    have numbered : ∀ id, (∃ x, (inner.clone fresh).1.find? id = some x) ↔
        ∃ x, (inner'.clone fresh).1.find? id = some x := by
      intro id
      rw [← Option.isSome_iff_exists, ← Option.isSome_iff_exists, find?_isSome, find?_isSome,
        mem_clone_ids, mem_clone_ids, next]
    rcases here with here | ⟨absent, here⟩ <;> rcases there with there | ⟨absent', there⟩
    · exact inside here there
    · obtain ⟨_, present⟩ := (numbered node).mp ⟨_, here⟩
      simp [absent'] at present
    · obtain ⟨_, present⟩ := (numbered node).mpr ⟨_, there⟩
      simp [absent] at present
    · exact inside' here there
  | [], .plain _ :: _, twin, _ | [], .nested _ :: _, twin, _ | .plain _ :: _, [], twin, _
  | .nested _ :: _, [], twin, _ | .plain _ :: _, .nested _ :: _, twin, _
  | .nested _ :: _, .plain _ :: _, twin, _ => by simp [TwinSlots] at twin

end

end Clone

section Prune

variable {referenced : NodeId → Bool}

mutual

/-- Pruning changes displaced structs only. -/
theorem Twin.prune : (struct : StackStruct) → {struct' : StackStruct} → struct.Twin pairs struct' →
    (struct.prune referenced).2.Twin pairs struct'
  | .node _ _ slots _, .node _ _ _ _, twin => ⟨twin.1, twin.2.1, TwinSlots.prune slots twin.2.2⟩

theorem TwinSlots.prune : (slots : List Slot) → {slots' : List Slot} →
    TwinSlots pairs slots slots' → TwinSlots pairs (pruneSlots referenced slots).2 slots'
  | [], [], _ => trivial
  | .plain _ :: rest, .plain _ :: rest', twin => ⟨twin.1, TwinSlots.prune rest twin.2⟩
  | .nested inner :: rest, .nested inner' :: rest', twin =>
    ⟨Twin.prune inner twin.1, TwinSlots.prune rest twin.2⟩
  | [], .plain _ :: _, twin | [], .nested _ :: _, twin | .plain _ :: _, [], twin
  | .nested _ :: _, [], twin | .plain _ :: _, .nested _ :: _, twin
  | .nested _ :: _, .plain _ :: _, twin => by simp [TwinSlots] at twin

end

/-- What is found after pruning was there before, and has been pruned as well. -/
theorem find?_of_prune {struct : StackStruct} {node : NodeId} {found : StackStruct}
    (unique : Unique struct.ids) (here : (struct.prune referenced).2.find? node = some found) :
    ∃ before, struct.find? node = some before ∧ found = (before.prune referenced).2 := by
  induction struct using induction_children with
  | node struct ih =>
    rw [find?_eq, prune_id] at here
    split at here
    · next same =>
      cases here
      exact ⟨struct, by rw [find?_eq, if_pos same], rfl⟩
    · next other =>
      have uniqueChildren := unique.of_le (count_children_le struct)
      obtain ⟨child, member, inChild⟩ := List.exists_of_findSome?_eq_some here
      have fromChild : ∃ old ∈ struct.children, child = (old.prune referenced).2 := by
        rw [prune_children] at member
        rcases List.mem_append.mp member with inSlots | inDisplaced
        · obtain ⟨old, isOld, rfl⟩ := List.mem_map.mp inSlots
          exact ⟨old, List.mem_append_left _ isOld, rfl⟩
        · obtain ⟨old, isOld, isKept⟩ := List.mem_filterMap.mp inDisplaced
          obtain ⟨_, isPruned⟩ := Option.ite_none_right_eq_some.mp isKept
          exact ⟨old, List.mem_append_right _ isOld, (Option.some.inj isPruned).symm⟩
      obtain ⟨old, isOld, rfl⟩ := fromChild
      obtain ⟨before, inOld, same⟩ := ih old isOld
        (uniqueChildren.of_le (count_child_le isOld)) inChild
      refine ⟨before, ?_, same⟩
      rw [find?_eq, if_neg other, findSome?_owner (uniqueChildren node) isOld
        ((find?_isSome node old).mp (by rw [inOld]; rfl)), inOld]

end Prune

section Update

variable {target : NodeId} {slot : Nat} {contents contents' : Slot}

mutual

/-- The same store into twins. -/
theorem Twin.update (same : TwinSlot pairs contents contents') : (struct : StackStruct) →
    {struct' : StackStruct} → struct.Twin pairs struct' →
    (struct.update target fun found => found.store slot contents).Twin pairs
      (struct'.update target fun found => found.store slot contents')
  | .node id type slots displaced, .node id' type' slots' displaced', twin => by
    have sameId : id = id' := twin.1
    subst sameId
    rw [StackStruct.update, StackStruct.update]
    split
    · have whole : (StackStruct.node id type slots displaced).Twin pairs
          (.node id type' slots' displaced') := twin
      exact whole.store slot same
    · exact ⟨rfl, twin.2.1, TwinSlots.update same slots twin.2.2⟩

theorem TwinSlots.update (same : TwinSlot pairs contents contents') : (slots : List Slot) →
    {slots' : List Slot} → TwinSlots pairs slots slots' →
    TwinSlots pairs (updateInSlots target (fun found => found.store slot contents) slots)
      (updateInSlots target (fun found => found.store slot contents') slots')
  | [], [], _ => trivial
  | .plain _ :: rest, .plain _ :: rest', twin => ⟨twin.1, TwinSlots.update same rest twin.2⟩
  | .nested inner :: rest, .nested inner' :: rest', twin =>
    ⟨Twin.update same inner twin.1, TwinSlots.update same rest twin.2⟩
  | [], .plain _ :: _, twin | [], .nested _ :: _, twin | .plain _ :: _, [], twin
  | .nested _ :: _, [], twin | .plain _ :: _, .nested _ :: _, twin
  | .nested _ :: _, .plain _ :: _, twin => by simp [TwinSlots] at twin

end

/-- A node that was not there before a store is part of what was stored. -/
theorem find?_of_store {struct found : StackStruct} {node : NodeId} (absent : node ∉ struct.ids)
    (here : (struct.store slot contents).find? node = some found) :
    ∃ inner, contents = .nested inner ∧ inner.find? node = some found := by
  have other : struct.id ≠ node := fun same => absent (same ▸ id_mem_ids struct)
  rw [find?_eq, store_id, if_neg other] at here
  obtain ⟨child, member, inChild⟩ := List.exists_of_findSome?_eq_some here
  have inside : node ∈ child.ids := (find?_isSome node child).mp (by rw [inChild]; rfl)
  have notOld : child ∉ struct.children := fun isOld =>
    absent (mem_ids_of_child isOld inside)
  rw [store_children] at member
  rcases List.mem_append.mp member with inSlots | inDisplaced
  · obtain ⟨entry, isEntry, isInner⟩ := List.mem_filterMap.mp inSlots
    rcases List.mem_or_eq_of_mem_set isEntry with old | rfl
    · exact absurd (List.mem_append_left _ (List.mem_filterMap.mpr ⟨entry, old, isInner⟩)) notOld
    · cases entry with
      | plain value => cases isInner
      | nested inner =>
        cases isInner
        exact ⟨child, rfl, inChild⟩
  · rcases List.mem_append.mp inDisplaced with old | displaced
    · exact absurd (List.mem_append_right _ old) notOld
    · obtain ⟨entry, isEntry, isInner⟩ := Option.bind_eq_some_iff.mp (Option.mem_toList.mp displaced)
      exact absurd (List.mem_append_left _
        (List.mem_filterMap.mpr ⟨entry, List.mem_of_getElem? isEntry, isInner⟩)) notOld

theorem find?_of_update {struct found : StackStruct} {node : NodeId} (absent : node ∉ struct.ids)
    (here : (struct.update target fun found => found.store slot contents).find? node = some found) :
    ∃ inner, contents = .nested inner ∧ inner.find? node = some found := by
  induction struct using induction_children with
  | node struct ih =>
    by_cases isTarget : struct.id = target
    · rw [update_target isTarget] at here
      exact find?_of_store absent here
    · have other : struct.id ≠ node := fun same => absent (same ▸ id_mem_ids struct)
      rw [find?_eq, update_id isTarget, if_neg other, update_children isTarget,
        List.findSome?_map] at here
      obtain ⟨child, member, inChild⟩ := List.exists_of_findSome?_eq_some here
      exact ih child member (fun inside => absent (mem_ids_of_child member inside)) inChild

end Update

end StackStruct

end ScriptMachine
