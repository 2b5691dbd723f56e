import ScriptMachine.Proofs.StackStruct.Nodes

set_option autoImplicit false

/- What stores, updates, copies and pruning do to the nodes of a struct: which identifiers are
left, and what is found under those that are. -/
namespace ScriptMachine

/-- The identifiers of the struct in a slot, if one is there. -/
def Slot.ids (slot : Slot) : List NodeId :=
  slot.inner?.toList.flatMap StackStruct.ids

@[simp] theorem Slot.ids_plain (value : Value) : (Slot.plain value).ids = [] := rfl

@[simp] theorem Slot.ids_nested (inner : StackStruct) : (Slot.nested inner).ids = inner.ids := by
  simp [Slot.ids, Slot.inner?]

namespace StackStruct

theorem findSome?_congr {structs : List StackStruct} {first second : StackStruct → Option StackStruct}
    (agree : ∀ struct ∈ structs, first struct = second struct) :
    structs.findSome? first = structs.findSome? second := by
  induction structs with
  | nil => rfl
  | cons struct rest ih =>
    rw [List.findSome?_cons, List.findSome?_cons, agree struct List.mem_cons_self,
      ih fun other member => agree other (List.mem_cons_of_mem _ member)]

section Store

/-- The struct that a store into a slot displaces, as a list. -/
def displacedBy (slots : List Slot) (slot : Nat) : List StackStruct :=
  (slots[slot]?.bind Slot.inner?).toList

@[simp] theorem store_id (struct : StackStruct) (slot : Nat) (contents : Slot) :
    (struct.store slot contents).id = struct.id := by
  cases struct; rfl

theorem store_children (struct : StackStruct) (slot : Nat) (contents : Slot) :
    (struct.store slot contents).children
      = (struct.slots.set slot contents).filterMap Slot.inner?
        ++ (struct.displaced ++ displacedBy struct.slots slot) := by
  cases struct; rfl

/-- A slot that is not there displaces nothing and takes nothing. -/
theorem store_outside (struct : StackStruct) {slot : Nat} (contents : Slot)
    (outside : ¬ slot < struct.slots.length) : struct.store slot contents = struct := by
  cases struct with
  | node id type slots displaced =>
    have beyond : slots.length ≤ slot := Nat.le_of_not_lt outside
    simp [store, List.set_eq_of_length_le beyond, List.getElem?_eq_none beyond]

theorem inner_cons (slot : Slot) (rest : List Slot) :
    (slot :: rest).filterMap Slot.inner? = slot.inner?.toList ++ rest.filterMap Slot.inner? := by
  cases slot <;> simp [List.filterMap_cons, Slot.inner?]

/-- A store adds what is stored, and what it displaces is still there. -/
theorem set_perm (slots : List Slot) (slot : Nat) (contents : Slot) (inside : slot < slots.length) :
    ((slots.set slot contents).filterMap Slot.inner? ++ displacedBy slots slot).Perm
      (slots.filterMap Slot.inner? ++ contents.inner?.toList) := by
  induction slots generalizing slot with
  | nil => simp at inside
  | cons first rest ih =>
    cases slot with
    | zero =>
      rw [List.set_cons_zero, inner_cons, inner_cons]
      exact ((List.perm_append_comm.append_right _).trans List.perm_append_comm).trans
        (by simp [displacedBy])
    | succ slot =>
      rw [List.set_cons_succ, inner_cons, inner_cons, List.append_assoc, List.append_assoc]
      exact (ih slot (by simpa using inside)).append_left _

theorem children_store_perm (struct : StackStruct) {slot : Nat} (contents : Slot)
    (inside : slot < struct.slots.length) :
    (struct.store slot contents).children.Perm (struct.children ++ contents.inner?.toList) := by
  have moved := (set_perm struct.slots slot contents inside).append_right struct.displaced
  rw [store_children, children]
  refine (List.perm_append_comm.append_left _).trans ?_
  rw [← List.append_assoc]
  refine moved.trans ?_
  rw [List.append_assoc, List.append_assoc]
  exact List.perm_append_comm.append_left _

theorem count_set_le (id : NodeId) (contents : Slot) (slots : List Slot) (slot : Nat) :
    (((slots.set slot contents).filterMap Slot.inner?).flatMap ids).count id
        + ((displacedBy slots slot).flatMap ids).count id
      ≤ ((slots.filterMap Slot.inner?).flatMap ids).count id + contents.ids.count id := by
  by_cases inside : slot < slots.length
  · have same := ((set_perm slots slot contents inside).flatMap_right ids).count_eq id
    rw [List.flatMap_append, List.flatMap_append, List.count_append, List.count_append] at same
    exact Nat.le_of_eq same
  · have outside : slots.length ≤ slot := Nat.le_of_not_lt inside
    simp [displacedBy, List.set_eq_of_length_le outside, List.getElem?_eq_none outside]

theorem count_store_le (struct : StackStruct) (slot : Nat) (contents : Slot) (id : NodeId) :
    (struct.store slot contents).ids.count id ≤ struct.ids.count id + contents.ids.count id := by
  have below := count_set_le id contents struct.slots slot
  rw [ids_eq, ids_eq struct, store_children, store_id]
  simp only [List.count_cons, children, List.flatMap_append, List.count_append]
  omega

theorem mem_children_store {struct child : StackStruct} (slot : Nat) (contents : Slot)
    (member : child ∈ struct.children) : child ∈ (struct.store slot contents).children := by
  rw [store_children]
  rcases List.mem_append.mp member with nested | displaced
  · obtain ⟨entry, inSlots, inner⟩ := List.mem_filterMap.mp nested
    obtain ⟨index, here⟩ := List.mem_iff_getElem?.mp inSlots
    by_cases replaced : slot = index
    · apply List.mem_append_right _ (List.mem_append_right _ ?_)
      simp [displacedBy, replaced, here, inner]
    · apply List.mem_append_left _ (List.mem_filterMap.mpr ⟨entry, ?_, inner⟩)
      apply List.mem_iff_getElem?.mpr
      exact ⟨index, by rw [List.getElem?_set_ne replaced, here]⟩
  · exact List.mem_append_right _ (List.mem_append_left _ displaced)

/-- A store moves nodes about but loses none. -/
theorem find?_store {struct : StackStruct} {target : NodeId} (slot : Nat) {contents : Slot}
    (single : struct.ids.count target ≤ 1) (other : struct.id ≠ target)
    (absent : target ∉ contents.ids) :
    (struct.store slot contents).find? target = struct.find? target := by
  have above := count_store_le struct slot contents target
  rw [List.count_eq_zero_of_not_mem absent] at above
  by_cases inside : target ∈ struct.ids
  · have inChildren : target ∈ struct.children.flatMap ids := by
      rw [ids_eq] at inside
      exact (List.mem_cons.mp inside).resolve_left (Ne.symm other)
    obtain ⟨child, member, owned⟩ := List.mem_flatMap.mp inChildren
    have before := count_children_le struct target
    have after := count_children_le (struct.store slot contents) target
    rw [find?_eq, store_id, if_neg other, find?_eq target struct, if_neg other,
      findSome?_owner (by omega) (mem_children_store slot contents member) owned,
      findSome?_owner (by omega) member owned]
  · have gone : target ∉ (struct.store slot contents).ids := by
      rw [← List.count_eq_zero]
      rw [← List.count_eq_zero] at inside
      omega
    rw [find?_eq_none gone, find?_eq_none inside]

end Store

section Update

variable {target : NodeId} {change : StackStruct → StackStruct}

theorem updateAmong_eq (structs : List StackStruct) :
    updateAmong target change structs = structs.map (update target change) := by
  induction structs with
  | nil => rfl
  | cons struct rest ih => simp [updateAmong, ih]

theorem inner_updateInSlots (slots : List Slot) :
    (updateInSlots target change slots).filterMap Slot.inner?
      = (slots.filterMap Slot.inner?).map (update target change) := by
  induction slots with
  | nil => rfl
  | cons slot rest ih =>
    cases slot <;> simp [updateInSlots, List.filterMap_cons, Slot.inner?, ih]

theorem update_target {struct : StackStruct} (same : struct.id = target) :
    struct.update target change = change struct := by
  cases struct with
  | node id type slots displaced =>
    have : id = target := same
    simp [update, this]

theorem update_id {struct : StackStruct} (other : struct.id ≠ target) :
    (struct.update target change).id = struct.id := by
  cases struct with
  | node id type slots displaced =>
    have : id ≠ target := other
    simp [update, this, StackStruct.id]

theorem update_children {struct : StackStruct} (other : struct.id ≠ target) :
    (struct.update target change).children = struct.children.map (update target change) := by
  cases struct with
  | node id type slots displaced =>
    have : id ≠ target := other
    simp [update, this, children, StackStruct.slots, StackStruct.displaced, inner_updateInSlots,
      updateAmong_eq]

/-- An update of a node that is not there changes nothing. -/
theorem update_of_not_mem {struct : StackStruct} (absent : target ∉ struct.ids) :
    struct.update target change = struct := by
  induction struct using induction_children with
  | node struct ih =>
    cases struct with
    | node id type slots displaced =>
      have other : id ≠ target := fun same => absent (same ▸ id_mem_ids _)
      have unchanged : ∀ child ∈ (node id type slots displaced).children,
          child.update target change = child := by
        intro child member
        apply ih child member
        intro inside
        exact absent (mem_ids_of_child member inside)
      have sameSlots : ∀ slots : List Slot,
          (∀ child ∈ slots.filterMap Slot.inner?, child.update target change = child) →
          updateInSlots target change slots = slots := by
        intro slots
        induction slots with
        | nil => intro _; rfl
        | cons slot rest ihSlots =>
          intro same
          cases slot with
          | plain value =>
            rw [updateInSlots, ihSlots (by simpa [List.filterMap_cons, Slot.inner?] using same)]
          | nested inner =>
            simp only [List.filterMap_cons, Slot.inner?, List.mem_cons, forall_eq_or_imp] at same
            rw [updateInSlots, same.1, ihSlots same.2]
      have sameDisplaced : updateAmong target change displaced = displaced := by
        rw [updateAmong_eq]
        exact (List.map_congr_left fun child member =>
          unchanged child (List.mem_append_right _ member)).trans (List.map_id _)
      have sameNested := sameSlots slots fun child member =>
        unchanged child (List.mem_append_left _ member)
      simp [update, other, sameNested, sameDisplaced]

/-- A change that keeps the identifier of a node and what is found below it can be made before
or after looking up. -/
theorem find?_update {struct : StackStruct} {wanted : NodeId} (unique : Unique struct.ids)
    (keepsId : ∀ struct, (change struct).id = struct.id)
    (keepsRest : ∀ struct : StackStruct, struct.ids.count wanted ≤ 1 → struct.id = target →
      target ≠ wanted → (change struct).find? wanted = struct.find? wanted) :
    (struct.update target change).find? wanted
      = (struct.find? wanted).map (update target change) := by
  induction struct using induction_children with
  | node struct ih =>
    by_cases isTarget : struct.id = target
    · rw [update_target isTarget]
      by_cases isWanted : target = wanted
      · subst isWanted
        rw [← isTarget, find?_self, Option.map_some, ← keepsId struct, find?_self, keepsId,
          update_target rfl]
      · rw [keepsRest struct (unique wanted) isTarget isWanted]
        cases found : struct.find? wanted with
        | none => rfl
        | some inner =>
          -- a node that owned the target below it would have the target's identifier twice
          have absent : target ∉ inner.ids := by
            intro inside
            rw [find?_eq, if_neg (isTarget ▸ isWanted)] at found
            obtain ⟨child, member, inChild⟩ := List.exists_of_findSome?_eq_some found
            have fewer := (find?_spec inChild).2 target
            have below := count_child_le member target
            have positive := List.count_pos_iff.mpr inside
            have total := unique target
            rw [ids_eq, List.count_cons, isTarget] at total
            simp only [BEq.rfl, ↓reduceIte] at total
            omega
          rw [Option.map_some, update_of_not_mem absent]
    · have uniqueChildren := unique.of_le (count_children_le struct)
      rw [find?_eq, update_id isTarget, update_children isTarget, find?_eq wanted struct]
      split
      · rfl
      · rw [List.findSome?_map, List.map_findSome?]
        apply findSome?_congr
        intro child member
        exact ih child member (uniqueChildren.of_le (count_child_le member))

theorem findAmong?_update {structs : List StackStruct} {wanted : NodeId}
    (unique : Unique (idsAmong structs)) (keepsId : ∀ struct, (change struct).id = struct.id)
    (keepsRest : ∀ struct : StackStruct, struct.ids.count wanted ≤ 1 → struct.id = target →
      target ≠ wanted → (change struct).find? wanted = struct.find? wanted) :
    findAmong? wanted (updateAmong target change structs)
      = (findAmong? wanted structs).map (update target change) := by
  rw [idsAmong_eq] at unique
  rw [updateAmong_eq, findAmong?_eq, findAmong?_eq, List.findSome?_map, List.map_findSome?]
  apply findSome?_congr
  intro struct member
  exact find?_update (unique.of_le (count_child_le member)) keepsId keepsRest

theorem count_map_update_le {structs : List StackStruct} {id : NodeId} {extra : Nat}
    (each : ∀ child ∈ structs, (child.update target change).ids.count id
      ≤ child.ids.count id + child.ids.count target * extra) :
    ((structs.map (update target change)).flatMap ids).count id
      ≤ (structs.flatMap ids).count id + (structs.flatMap ids).count target * extra := by
  induction structs with
  | nil => simp
  | cons first rest ih =>
    have here := each first List.mem_cons_self
    have later := ih fun child member => each child (List.mem_cons_of_mem _ member)
    simp only [List.map_cons, List.flatMap_cons, List.count_append, Nat.add_mul]
    omega

theorem count_update_le {id : NodeId} {extra : Nat}
    (grows : ∀ struct, (change struct).ids.count id ≤ struct.ids.count id + extra)
    (struct : StackStruct) :
    (struct.update target change).ids.count id
      ≤ struct.ids.count id + struct.ids.count target * extra := by
  induction struct using induction_children with
  | node struct ih =>
    by_cases isTarget : struct.id = target
    · rw [update_target isTarget]
      have positive : 1 ≤ struct.ids.count target :=
        List.count_pos_iff.mpr (isTarget ▸ id_mem_ids struct)
      have := grows struct
      have := Nat.mul_le_mul_right extra positive
      omega
    · have below := count_map_update_le ih
      rw [ids_eq, ids_eq struct, update_id isTarget, update_children isTarget]
      simp only [List.count_cons, beq_iff_eq, isTarget, ↓reduceIte, Nat.add_zero]
      omega

/-- A store into one node adds nothing but what is stored. -/
theorem count_update_store_le {struct : StackStruct} (unique : Unique struct.ids)
    (target : NodeId) (slot : Nat) (contents : Slot) (id : NodeId) :
    (struct.update target (·.store slot contents)).ids.count id
      ≤ struct.ids.count id + contents.ids.count id := by
  have grows : (struct.update target (·.store slot contents)).ids.count id
      ≤ struct.ids.count id + struct.ids.count target * contents.ids.count id :=
    count_update_le (fun before => count_store_le before slot contents id) struct
  have once := Nat.mul_le_mul_right (contents.ids.count id) (unique target)
  omega

theorem count_updateAmong_le {id : NodeId} {extra : Nat}
    (grows : ∀ struct, (change struct).ids.count id ≤ struct.ids.count id + extra)
    (structs : List StackStruct) :
    (idsAmong (updateAmong target change structs)).count id
      ≤ (idsAmong structs).count id + (idsAmong structs).count target * extra := by
  rw [updateAmong_eq, idsAmong_eq, idsAmong_eq]
  exact count_map_update_le fun struct _ => count_update_le grows struct

end Update

section Clone

mutual

/-- A copy numbers its nodes from the first fresh identifier on, without a gap. -/
theorem clone_ids : (struct : StackStruct) → (fresh : NodeId) →
    ∃ count : Nat, (struct.clone fresh).2 = fresh + (count + 1) ∧
      (struct.clone fresh).1.ids = List.range' fresh (count + 1)
  | .node _ type slots _, fresh => by
    obtain ⟨count, next, numbered⟩ := cloneSlots_ids slots (fresh + 1)
    refine ⟨count, by simp only [clone, next]; lia, ?_⟩
    simp only [clone, ids, numbered, idsAmong, List.append_nil, List.range'_succ]

theorem cloneSlots_ids : (slots : List Slot) → (fresh : NodeId) →
    ∃ count : Nat, (cloneSlots fresh slots).2 = fresh + count ∧
      idsInSlots (cloneSlots fresh slots).1 = List.range' fresh count
  | [], fresh => ⟨0, rfl, rfl⟩
  | .plain _ :: rest, fresh => by
    obtain ⟨count, next, numbered⟩ := cloneSlots_ids rest fresh
    exact ⟨count, by simpa only [cloneSlots] using next,
      by simpa only [cloneSlots, idsInSlots] using numbered⟩
  | .nested inner :: rest, fresh => by
    obtain ⟨first, middle, numberedInner⟩ := clone_ids inner fresh
    obtain ⟨second, next, numberedRest⟩ := cloneSlots_ids rest (inner.clone fresh).2
    refine ⟨first + 1 + second, by simp only [cloneSlots, middle] at next ⊢; lia, ?_⟩
    simp only [cloneSlots, idsInSlots, numberedInner, numberedRest]
    rw [middle, List.range'_append_1]

end

@[simp] theorem clone_id (struct : StackStruct) (fresh : NodeId) :
    (struct.clone fresh).1.id = fresh := by
  cases struct; rfl

theorem clone_unique (struct : StackStruct) (fresh : NodeId) :
    Unique (struct.clone fresh).1.ids := by
  intro id
  obtain ⟨count, _, numbered⟩ := clone_ids struct fresh
  rw [numbered]
  exact List.nodup_iff_count.mp List.nodup_range' id

theorem mem_clone_ids {struct : StackStruct} {fresh id : NodeId} :
    id ∈ (struct.clone fresh).1.ids ↔ fresh ≤ id ∧ id < (struct.clone fresh).2 := by
  obtain ⟨count, next, numbered⟩ := clone_ids struct fresh
  rw [numbered, List.mem_range'_1, next]

theorem clone_next_lt (struct : StackStruct) (fresh : NodeId) :
    fresh < (struct.clone fresh).2 := by
  obtain ⟨count, next, _⟩ := clone_ids struct fresh
  lia

end Clone

section Prune

variable {referenced : NodeId → Bool}

/-- What is left of a struct that was displaced. -/
def kept (referenced : NodeId → Bool) (struct : StackStruct) : Option StackStruct :=
  if (struct.prune referenced).1 then some (struct.prune referenced).2 else none

theorem pruneSlots_spec (slots : List Slot) :
    (pruneSlots referenced slots).1
        = (slots.filterMap Slot.inner?).any (fun child => (child.prune referenced).1) ∧
      (pruneSlots referenced slots).2.filterMap Slot.inner?
        = (slots.filterMap Slot.inner?).map (fun child => (child.prune referenced).2) := by
  induction slots with
  | nil => exact ⟨rfl, rfl⟩
  | cons slot rest ih =>
    cases slot <;> simp [pruneSlots, List.filterMap_cons, Slot.inner?, ih]

theorem pruneDisplaced_spec (structs : List StackStruct) :
    (pruneDisplaced referenced structs).1
        = structs.any (fun child => (child.prune referenced).1) ∧
      (pruneDisplaced referenced structs).2 = structs.filterMap (kept referenced) := by
  induction structs with
  | nil => exact ⟨rfl, rfl⟩
  | cons struct rest ih =>
    cases here : (struct.prune referenced).1 <;>
      simp [pruneDisplaced, kept, ih, here]

@[simp] theorem prune_id (struct : StackStruct) :
    (struct.prune referenced).2.id = struct.id := by
  cases struct; rfl

theorem prune_children (struct : StackStruct) :
    (struct.prune referenced).2.children
      = (struct.slots.filterMap Slot.inner?).map (fun child => (child.prune referenced).2)
        ++ struct.displaced.filterMap (kept referenced) := by
  cases struct with
  | node id type slots displaced =>
    simp [prune, children, StackStruct.slots, StackStruct.displaced,
      (pruneSlots_spec slots).2, (pruneDisplaced_spec displaced).2]

/-- Pruning tells whether any node of the struct is referenced. -/
theorem prune_reached (struct : StackStruct) :
    (struct.prune referenced).1 = struct.ids.any referenced := by
  induction struct using induction_children with
  | node struct ih =>
    have reached : (struct.prune referenced).1
        = (referenced struct.id || struct.children.any fun child => (child.prune referenced).1) := by
      cases struct with
      | node id type slots displaced =>
        simp [prune, children, StackStruct.id, StackStruct.slots, StackStruct.displaced,
          (pruneSlots_spec slots).1, (pruneDisplaced_spec displaced).1, Bool.or_assoc]
    rw [reached, ids_eq, List.any_cons, List.any_flatMap]
    congr 1
    rw [Bool.eq_iff_iff, List.any_eq_true, List.any_eq_true]
    exact exists_congr fun child => and_congr_right fun member => by rw [ih child member]

theorem count_prune_le (struct : StackStruct) (id : NodeId) :
    (struct.prune referenced).2.ids.count id ≤ struct.ids.count id := by
  induction struct using induction_children with
  | node struct ih =>
    have nested : ∀ structs : List StackStruct, (∀ child ∈ structs, child ∈ struct.children) →
        ((structs.map fun child => (child.prune referenced).2).flatMap ids).count id
          ≤ (structs.flatMap ids).count id := by
      intro structs
      induction structs with
      | nil => simp
      | cons first rest ihRest =>
        intro each
        have here := ih first (each first List.mem_cons_self)
        have later := ihRest fun child member => each child (List.mem_cons_of_mem _ member)
        simp only [List.map_cons, List.flatMap_cons, List.count_append]
        omega
    have displaced : ∀ structs : List StackStruct, (∀ child ∈ structs, child ∈ struct.children) →
        ((structs.filterMap (kept referenced)).flatMap ids).count id
          ≤ (structs.flatMap ids).count id := by
      intro structs
      induction structs with
      | nil => simp
      | cons first rest ihRest =>
        intro each
        have here := ih first (each first List.mem_cons_self)
        have later := ihRest fun child member => each child (List.mem_cons_of_mem _ member)
        cases reached : (first.prune referenced).1 <;>
          simp [kept, reached] <;> omega
    have first := nested (struct.slots.filterMap Slot.inner?) fun _ => List.mem_append_left _
    have second := displaced struct.displaced fun _ => List.mem_append_right _
    rw [ids_eq, ids_eq struct, prune_children, prune_id]
    simp only [children, List.count_cons, List.flatMap_append, List.count_append]
    omega

/-- A referenced node is found among the structs that pruning keeps, when it is found in each of
them pruned. -/
theorem findSome?_kept {structs : List StackStruct} {target : NodeId}
    (wanted : referenced target = true)
    (each : ∀ struct ∈ structs, (struct.prune referenced).2.find? target
      = (struct.find? target).map fun found => (found.prune referenced).2) :
    (structs.filterMap (kept referenced)).findSome? (find? target)
      = (structs.findSome? (find? target)).map fun found => (found.prune referenced).2 := by
  induction structs with
  | nil => rfl
  | cons first rest ih =>
    have here := each first List.mem_cons_self
    have later := ih fun child member => each child (List.mem_cons_of_mem _ member)
    cases reached : (first.prune referenced).1 with
    | true =>
      simp only [List.filterMap_cons, kept, reached, ↓reduceIte, List.findSome?_cons, here]
      cases first.find? target with
      | none => exact later
      | some _ => rfl
    | false =>
      have absent : target ∉ first.ids := by
        intro inside
        rw [prune_reached, List.any_eq_false] at reached
        exact reached target inside wanted
      simp only [List.filterMap_cons, kept, reached, Bool.false_eq_true, ↓reduceIte,
        List.findSome?_cons, find?_eq_none absent]
      exact later

/-- A referenced node is found in what pruning leaves, itself pruned. -/
theorem find?_prune {struct : StackStruct} {target : NodeId} (wanted : referenced target = true) :
    (struct.prune referenced).2.find? target
      = (struct.find? target).map fun found => (found.prune referenced).2 := by
  induction struct using induction_children with
  | node struct ih =>
    rw [find?_eq, prune_id, find?_eq target struct]
    split
    · rfl
    · have displaced := @findSome?_kept referenced struct.displaced _ wanted fun child member =>
        ih child (List.mem_append_right _ member)
      rw [prune_children, children, List.findSome?_append, List.findSome?_append, displaced,
        List.findSome?_map]
      have nested := findSome?_congr fun child member => ih child (List.mem_append_left _ member)
      have outside := List.map_findSome? (f := find? target)
        (g := fun found => (found.prune referenced).2)
        (l := struct.slots.filterMap Slot.inner?)
      rw [Function.comp_def, nested, ← Function.comp_def, ← outside]
      cases (struct.slots.filterMap Slot.inner?).findSome? (find? target) <;> rfl

theorem findAmong?_kept {structs : List StackStruct} {target : NodeId}
    (wanted : referenced target = true) :
    findAmong? target (structs.filterMap (kept referenced))
      = (findAmong? target structs).map fun found => (found.prune referenced).2 := by
  rw [findAmong?_eq, findAmong?_eq, findSome?_kept wanted fun _ _ => find?_prune wanted]

theorem count_kept_le (structs : List StackStruct) (id : NodeId) :
    (idsAmong (structs.filterMap (kept referenced))).count id ≤ (idsAmong structs).count id := by
  induction structs with
  | nil => exact Nat.le_refl _
  | cons first rest ih =>
    have here := @count_prune_le referenced first id
    cases reached : (first.prune referenced).1 <;>
      simp only [List.filterMap_cons, kept, reached, Bool.false_eq_true, ↓reduceIte, idsAmong,
        List.count_append] <;> omega

end Prune

end StackStruct

end ScriptMachine
