import ScriptMachine.Proofs.StackStruct.Change

set_option autoImplicit false

/- The bytes that structs are charged with. A store of a nested struct adds that struct and a link, a
store of anything else adds nothing, and pruning takes away what it drops. -/
namespace ScriptMachine.StackStruct

/-- The bytes of several structs. -/
def total : List StackStruct → Nat
  | [] => 0
  | struct :: rest => struct.bytes + total rest

@[simp] theorem total_nil : total [] = 0 := rfl

@[simp] theorem total_cons (struct : StackStruct) (rest : List StackStruct) :
    total (struct :: rest) = struct.bytes + total rest := rfl

@[simp] theorem total_append (first second : List StackStruct) :
    total (first ++ second) = total first + total second := by
  induction first with
  | nil => exact (Nat.zero_add _).symm
  | cons struct rest ih => rw [List.cons_append, total_cons, total_cons, ih, Nat.add_assoc]

/-- The bytes of owned structs, with a link each. -/
def linked (structs : List StackStruct) : Nat :=
  8 * structs.length + total structs

@[simp] theorem linked_nil : linked [] = 0 := rfl

@[simp] theorem linked_cons (struct : StackStruct) (rest : List StackStruct) :
    linked (struct :: rest) = 8 + struct.bytes + linked rest := by
  simp only [linked, List.length_cons, total_cons]
  omega

@[simp] theorem linked_append (first second : List StackStruct) :
    linked (first ++ second) = linked first + linked second := by
  simp only [linked, List.length_append, total_append]
  omega

theorem slotBytes_eq (slots : List Slot) : slotBytes slots = linked (slots.filterMap Slot.inner?) := by
  induction slots with
  | nil => rfl
  | cons slot rest ih =>
    cases slot with
    | plain value => simp [slotBytes, List.filterMap_cons, Slot.inner?, ih]
    | nested inner => simp [slotBytes, Slot.inner?, ih]

theorem bytesAmong_eq (structs : List StackStruct) : bytesAmong structs = linked structs := by
  induction structs with
  | nil => rfl
  | cons struct rest ih => simp [bytesAmong, ih]

theorem bytes_eq (struct : StackStruct) :
    struct.bytes = 56 + 16 * struct.slots.length + linked struct.children := by
  cases struct with
  | node id type slots displaced =>
    simp only [bytes, slotBytes_eq, bytesAmong_eq, children, StackStruct.slots,
      StackStruct.displaced, linked_append]
    omega

section Store

theorem linked_perm {first second : List StackStruct} (perm : first.Perm second) :
    linked first = linked second := by
  induction perm with
  | nil => rfl
  | cons struct _ ih => rw [linked_cons, linked_cons, ih]
  | swap first second rest => simp only [linked_cons]; omega
  | trans _ _ before after => exact before.trans after

/-- What is displaced stays, and is charged with a link as before. -/
theorem bytes_store (struct : StackStruct) {slot : Nat} (contents : Slot)
    (inside : slot < struct.slots.length) :
    (struct.store slot contents).bytes = struct.bytes + linked contents.inner?.toList := by
  have moved := linked_perm (children_store_perm struct contents inside)
  have sameCount : (struct.store slot contents).slots.length = struct.slots.length := by
    cases struct
    exact List.length_set
  rw [bytes_eq, bytes_eq struct, sameCount, moved, linked_append]
  omega

/-- Nothing is displaced by what is not nested, wherever it is stored. -/
theorem bytes_store_plain (struct : StackStruct) (slot : Nat) (value : Value) :
    (struct.store slot (.plain value)).bytes = struct.bytes := by
  by_cases inside : slot < struct.slots.length
  · exact bytes_store struct _ inside
  · rw [store_outside struct _ inside]

end Store

section Update

variable {target : NodeId} {change : StackStruct → StackStruct}

theorem total_update_of_not_mem {structs : List StackStruct} (absent : target ∉ idsAmong structs) :
    total (structs.map (update target change)) = total structs := by
  have same : structs.map (update target change) = structs := by
    refine (List.map_congr_left fun struct member => ?_).trans (List.map_id structs)
    refine update_of_not_mem fun inside => absent ?_
    rw [idsAmong_eq]
    exact List.mem_flatMap.mpr ⟨struct, member, inside⟩
  rw [same]

/-- Among structs with different nodes an update adds what it adds to the one it finds. -/
theorem total_map_update {structs : List StackStruct} {found : StackStruct}
    (unique : Unique (idsAmong structs))
    (here : structs.findSome? (find? target) = some found)
    (each : ∀ struct ∈ structs, struct.find? target = some found →
      (struct.update target change).bytes + found.bytes = struct.bytes + (change found).bytes) :
    total (structs.map (update target change)) + found.bytes
      = total structs + (change found).bytes := by
  induction structs with
  | nil => cases here
  | cons struct rest ih =>
    have split : ∀ id, struct.ids.count id + (idsAmong rest).count id ≤ 1 := fun id => by
      have := unique id
      rwa [idsAmong, List.count_append] at this
    simp only [List.map_cons, total_cons]
    rw [List.findSome?_cons] at here
    cases inFirst : struct.find? target with
    | some first =>
      rw [inFirst] at here
      cases here
      have present : target ∈ struct.ids := by
        have := find?_isSome target struct
        rw [inFirst] at this
        simpa using this
      have absent : target ∉ idsAmong rest := by
        intro also
        have one := List.count_pos_iff.mpr present
        have two := List.count_pos_iff.mpr also
        have := split target
        omega
      rw [total_update_of_not_mem absent]
      have added := each struct List.mem_cons_self inFirst
      omega
    | none =>
      rw [inFirst] at here
      have absent : target ∉ struct.ids := by
        have := find?_isSome target struct
        rw [inFirst] at this
        simpa using this
      rw [update_of_not_mem absent]
      have later := ih (fun id => by have := split id; omega) here
        fun other member => each other (List.mem_cons_of_mem _ member)
      omega

theorem length_update {struct : StackStruct} (other : struct.id ≠ target) :
    (struct.update target change).slots.length = struct.slots.length := by
  have nested : ∀ slots, (updateInSlots target change slots).length = slots.length := by
    intro slots
    induction slots with
    | nil => rfl
    | cons slot rest ih => cases slot <;> simp [updateInSlots, ih]
  cases struct with
  | node id type slots displaced =>
    have : id ≠ target := other
    simp [update, this, StackStruct.slots, nested]

theorem linked_map_update (structs : List StackStruct) :
    linked (structs.map (update target change))
      = 8 * structs.length + total (structs.map (update target change)) := by
  rw [linked, List.length_map]

theorem bytes_update {struct found : StackStruct} (unique : Unique struct.ids)
    (here : struct.find? target = some found) :
    (struct.update target change).bytes + found.bytes = struct.bytes + (change found).bytes := by
  induction struct using induction_children with
  | node struct ih =>
    by_cases same : struct.id = target
    · rw [find?_eq, if_pos same] at here
      cases here
      rw [update_target same]
      omega
    · rw [find?_eq, if_neg same] at here
      have inside : Unique (idsAmong struct.children) := by
        refine unique.of_le fun id => ?_
        rw [ids_eq, idsAmong_eq, List.count_cons]
        exact Nat.le_add_right _ _
      have each : ∀ child ∈ struct.children, child.find? target = some found →
          (child.update target change).bytes + found.bytes
            = child.bytes + (change found).bytes := fun child member found =>
        ih child member (inside.of_le fun id => by
          rw [idsAmong_eq]
          exact count_child_le member id) found
      have sum := total_map_update inside here each
      rw [bytes_eq, bytes_eq struct, update_children same, length_update same, linked_map_update,
        linked]
      omega

end Update

section Prune

variable {referenced : NodeId → Bool}

theorem length_prune (struct : StackStruct) :
    (struct.prune referenced).2.slots.length = struct.slots.length := by
  have nested : ∀ slots, (pruneSlots referenced slots).2.length = slots.length := by
    intro slots
    induction slots with
    | nil => rfl
    | cons slot rest ih => cases slot <;> simp [pruneSlots, ih]
  cases struct with
  | node id type slots displaced => simp [prune, StackStruct.slots, nested]

theorem linked_map_le {structs : List StackStruct} {change : StackStruct → StackStruct}
    (each : ∀ struct ∈ structs, (change struct).bytes ≤ struct.bytes) :
    linked (structs.map change) ≤ linked structs := by
  induction structs with
  | nil => exact Nat.le_refl _
  | cons struct rest ih =>
    have here := each struct List.mem_cons_self
    have later := ih fun other member => each other (List.mem_cons_of_mem _ member)
    simp only [List.map_cons, linked_cons]
    omega

theorem linked_kept_le {structs : List StackStruct}
    (each : ∀ struct ∈ structs, (struct.prune referenced).2.bytes ≤ struct.bytes) :
    linked (structs.filterMap (kept referenced)) ≤ linked structs := by
  induction structs with
  | nil => exact Nat.le_refl _
  | cons struct rest ih =>
    have here := each struct List.mem_cons_self
    have later := ih fun other member => each other (List.mem_cons_of_mem _ member)
    cases reached : (struct.prune referenced).1 <;> simp [kept, reached] <;> omega

/-- Pruning adds nothing. -/
theorem bytes_prune_le (struct : StackStruct) : (struct.prune referenced).2.bytes ≤ struct.bytes := by
  induction struct using induction_children with
  | node struct ih =>
    have nested := linked_map_le fun child member =>
      ih child (List.mem_append_left struct.displaced member)
    have displaced := linked_kept_le fun child member =>
      ih child (List.mem_append_right (struct.slots.filterMap Slot.inner?) member)
    rw [bytes_eq, bytes_eq struct, length_prune, prune_children]
    simp only [children, linked_append]
    omega

theorem total_kept_le (structs : List StackStruct) :
    total (structs.filterMap (kept referenced)) ≤ total structs := by
  induction structs with
  | nil => exact Nat.le_refl _
  | cons struct rest ih =>
    have here := @bytes_prune_le referenced struct
    cases reached : (struct.prune referenced).1 <;> simp [kept, reached] <;> omega

mutual

/-- There is nothing to prune in a copy. -/
theorem prune_clone : (struct : StackStruct) → (fresh : NodeId) →
    ((struct.clone fresh).1.prune referenced).2 = (struct.clone fresh).1
  | .node id type slots displaced, fresh => by
    have nested := prune_cloneSlots slots (fresh + 1)
    simp only [clone, prune, pruneDisplaced, nested]

theorem prune_cloneSlots : (slots : List Slot) → (fresh : NodeId) →
    (pruneSlots referenced (cloneSlots fresh slots).1).2 = (cloneSlots fresh slots).1
  | [], _ => rfl
  | .plain value :: rest, fresh => by
    simp only [cloneSlots, pruneSlots, prune_cloneSlots rest fresh]
  | .nested inner :: rest, fresh => by
    simp only [cloneSlots, pruneSlots, prune_clone inner fresh, prune_cloneSlots rest]

end

end Prune

end ScriptMachine.StackStruct
