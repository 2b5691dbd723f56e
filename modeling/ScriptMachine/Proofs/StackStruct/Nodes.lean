import ScriptMachine.StackStruct

set_option autoImplicit false

/- The nodes of frame-owned structs. A node is named by its identifier, so every statement about
looking one up rests on identifiers being used once; `Unique` says so by counting. Nested and
displaced structs are treated alike here, as the children of their owner. -/
namespace ScriptMachine.StackStruct

/-- The structs that a struct owns directly. -/
def children (struct : StackStruct) : List StackStruct :=
  struct.slots.filterMap Slot.inner? ++ struct.displaced

mutual

/-- The identifiers of a struct and of all that it owns. -/
def ids : StackStruct → List NodeId
  | .node id _ slots displaced => id :: (idsInSlots slots ++ idsAmong displaced)

def idsInSlots : List Slot → List NodeId
  | [] => []
  | .plain _ :: rest => idsInSlots rest
  | .nested inner :: rest => inner.ids ++ idsInSlots rest

def idsAmong : List StackStruct → List NodeId
  | [] => []
  | struct :: rest => struct.ids ++ idsAmong rest

end

/-- No identifier occurs twice. -/
def Unique (identifiers : List NodeId) : Prop :=
  ∀ id, identifiers.count id ≤ 1

theorem Unique.of_le {small large : List NodeId} (unique : Unique large)
    (fewer : ∀ id, small.count id ≤ large.count id) : Unique small :=
  fun id => Nat.le_trans (fewer id) (unique id)

/-- Different identifiers together with different other ones. -/
theorem unique_of_count_le {ids all others : List NodeId} (unique : Unique ids)
    (uniqueOthers : Unique others) (apart : ∀ id ∈ ids, id ∉ others)
    (below : ∀ id, all.count id ≤ ids.count id + others.count id) : Unique all := by
  intro id
  have total := below id
  by_cases member : id ∈ ids
  · rw [List.count_eq_zero_of_not_mem (apart id member)] at total
    exact Nat.le_trans total (unique id)
  · rw [List.count_eq_zero_of_not_mem member] at total
    have := uniqueOthers id
    omega

theorem mem_of_count_le {small large : List NodeId} {id : NodeId}
    (fewer : small.count id ≤ large.count id) (member : id ∈ small) : id ∈ large :=
  List.count_pos_iff.mp (Nat.lt_of_lt_of_le (List.count_pos_iff.mpr member) fewer)

theorem mem_or_mem_of_count_le {ids all others : List NodeId} {id : NodeId}
    (below : all.count id ≤ ids.count id + others.count id) (member : id ∈ all) :
    id ∈ ids ∨ id ∈ others := by
  rw [← List.count_append] at below
  exact List.mem_append.mp (mem_of_count_le below member)

section Children

mutual

theorem induction_children {P : StackStruct → Prop}
    (node : ∀ struct, (∀ child ∈ struct.children, P child) → P struct) :
    (struct : StackStruct) → P struct
  | .node id type slots displaced => by
    apply node
    intro child member
    rcases List.mem_append.mp member with nested | displacedMember
    · exact induction_slots node slots child nested
    · exact induction_among node displaced child displacedMember

theorem induction_slots {P : StackStruct → Prop}
    (node : ∀ struct, (∀ child ∈ struct.children, P child) → P struct) :
    (slots : List Slot) → ∀ child ∈ slots.filterMap Slot.inner?, P child
  | [], _, member => by simp at member
  | .plain _ :: rest, child, member => induction_slots node rest child (by
      simpa [List.filterMap_cons, Slot.inner?] using member)
  | .nested inner :: rest, child, member => by
    simp only [List.filterMap_cons, Slot.inner?, List.mem_cons] at member
    rcases member with equal | later
    · rw [equal]
      exact induction_children node inner
    · exact induction_slots node rest child later

theorem induction_among {P : StackStruct → Prop}
    (node : ∀ struct, (∀ child ∈ struct.children, P child) → P struct) :
    (structs : List StackStruct) → ∀ child ∈ structs, P child
  | [], _, member => by simp at member
  | struct :: rest, child, member => by
    rcases List.mem_cons.mp member with equal | later
    · rw [equal]
      exact induction_children node struct
    · exact induction_among node rest child later

end

theorem findAmong?_eq (target : NodeId) (structs : List StackStruct) :
    findAmong? target structs = structs.findSome? (find? target) := by
  induction structs with
  | nil => rfl
  | cons struct rest ih =>
    cases here : struct.find? target <;> simp [findAmong?, ih, here]

theorem findInSlots?_eq (target : NodeId) (slots : List Slot) :
    findInSlots? target slots = (slots.filterMap Slot.inner?).findSome? (find? target) := by
  induction slots with
  | nil => rfl
  | cons slot rest ih =>
    cases slot with
    | plain value => simpa [findInSlots?, List.filterMap_cons, Slot.inner?] using ih
    | nested inner =>
      cases here : inner.find? target <;> simp [findInSlots?, Slot.inner?, ih, here]

theorem find?_eq (target : NodeId) (struct : StackStruct) :
    struct.find? target
      = if struct.id = target then some struct else struct.children.findSome? (find? target) := by
  cases struct with
  | node id type slots displaced =>
    simp [find?, findInSlots?_eq, findAmong?_eq, StackStruct.id, children, StackStruct.slots,
      StackStruct.displaced, List.findSome?_append]

theorem idsAmong_eq (structs : List StackStruct) : idsAmong structs = structs.flatMap ids := by
  induction structs with
  | nil => rfl
  | cons struct rest ih => simp [idsAmong, ih]

theorem idsInSlots_eq (slots : List Slot) :
    idsInSlots slots = (slots.filterMap Slot.inner?).flatMap ids := by
  induction slots with
  | nil => rfl
  | cons slot rest ih =>
    cases slot <;> simp [idsInSlots, List.filterMap_cons, Slot.inner?, ih]

theorem ids_eq (struct : StackStruct) :
    struct.ids = struct.id :: struct.children.flatMap ids := by
  cases struct with
  | node id type slots displaced =>
    simp [ids, idsInSlots_eq, idsAmong_eq, StackStruct.id, children, StackStruct.slots,
      StackStruct.displaced]

end Children

theorem id_mem_ids (struct : StackStruct) : struct.id ∈ struct.ids := by
  rw [ids_eq]
  exact List.mem_cons_self

theorem blank_children (id : NodeId) (type : StructId) (count : Nat) :
    (blank id type count).children = [] := by
  simp [blank, children, StackStruct.slots, StackStruct.displaced, Slot.inner?]

theorem blank_ids (id : NodeId) (type : StructId) (count : Nat) : (blank id type count).ids = [id] := by
  rw [ids_eq, blank_children]
  rfl

theorem mem_ids_of_child {struct child : StackStruct} {id : NodeId} (member : child ∈ struct.children)
    (inside : id ∈ child.ids) : id ∈ struct.ids := by
  rw [ids_eq]
  exact List.mem_cons_of_mem _ (List.mem_flatMap.mpr ⟨child, member, inside⟩)

@[simp] theorem find?_self (struct : StackStruct) : struct.find? struct.id = some struct := by
  simp [find?_eq]

theorem count_child_le {structs : List StackStruct} {child : StackStruct} (member : child ∈ structs)
    (id : NodeId) : child.ids.count id ≤ (structs.flatMap ids).count id := by
  induction structs with
  | nil => simp at member
  | cons struct rest ih =>
    simp only [List.flatMap_cons, List.count_append]
    rcases List.mem_cons.mp member with equal | later
    · rw [equal]; omega
    · have := ih later; omega

theorem count_children_le (struct : StackStruct) (id : NodeId) :
    (struct.children.flatMap ids).count id ≤ struct.ids.count id := by
  rw [ids_eq, List.count_cons]; omega

theorem find?_isSome (target : NodeId) (struct : StackStruct) :
    (struct.find? target).isSome ↔ target ∈ struct.ids := by
  induction struct using induction_children with
  | node struct ih =>
    rw [find?_eq, ids_eq]
    by_cases same : struct.id = target
    · simp [same]
    · simp only [same, ↓reduceIte, List.findSome?_isSome_iff, List.mem_cons, Ne.symm same,
        List.mem_flatMap, false_or]
      constructor
      · rintro ⟨child, member, found⟩
        exact ⟨child, member, (ih child member).mp found⟩
      · rintro ⟨child, member, inside⟩
        exact ⟨child, member, (ih child member).mpr inside⟩

theorem find?_eq_none {target : NodeId} {struct : StackStruct} (absent : target ∉ struct.ids) :
    struct.find? target = none :=
  Option.not_isSome_iff_eq_none.mp fun found => absent ((find?_isSome target struct).mp found)

/-- What is found has the identifier that was looked for, and its nodes are nodes of the whole. -/
theorem find?_spec {target : NodeId} {struct found : StackStruct}
    (here : struct.find? target = some found) :
    found.id = target ∧ ∀ id, found.ids.count id ≤ struct.ids.count id := by
  induction struct using induction_children with
  | node struct ih =>
    rw [find?_eq] at here
    split at here
    next same =>
      cases here
      exact ⟨same, fun _ => Nat.le_refl _⟩
    next =>
      obtain ⟨child, member, inChild⟩ := List.exists_of_findSome?_eq_some here
      obtain ⟨named, fewer⟩ := ih child member inChild
      refine ⟨named, fun id => ?_⟩
      calc found.ids.count id ≤ child.ids.count id := fewer id
        _ ≤ (struct.children.flatMap ids).count id := count_child_le member id
        _ ≤ struct.ids.count id := count_children_le struct id

theorem mem_ids_of_found {struct found : StackStruct} {target id : NodeId}
    (here : struct.find? target = some found) (member : id ∈ found.ids) : id ∈ struct.ids :=
  mem_of_count_le ((find?_spec here).2 id) member

/-- No struct is among those that one of its children owns. -/
theorem id_ne_of_mem_child {struct child : StackStruct} {target : NodeId}
    (unique : Unique struct.ids) (member : child ∈ struct.children) (inside : target ∈ child.ids) :
    struct.id ≠ target := by
  intro same
  have once := unique target
  have below := List.count_pos_iff.mpr inside
  have among := count_child_le member target
  rw [ids_eq, List.count_cons, same] at once
  simp only [BEq.rfl, ↓reduceIte] at once
  omega

theorem mem_children_of_slot {struct inner : StackStruct} {step : Nat}
    (isSlot : struct.slots[step]? = some (.nested inner)) : inner ∈ struct.children :=
  List.mem_append_left _ (List.mem_filterMap.mpr ⟨_, List.mem_of_getElem? isSlot, rfl⟩)

/-- Among structs without a common node, a node is found in the one that owns it. -/
theorem findSome?_owner {structs : List StackStruct} {owner : StackStruct} {target : NodeId}
    (single : (structs.flatMap ids).count target ≤ 1) (member : owner ∈ structs)
    (inside : target ∈ owner.ids) : structs.findSome? (find? target) = owner.find? target := by
  have present := (find?_isSome target owner).mpr inside
  induction structs with
  | nil => simp at member
  | cons struct rest ih =>
    simp only [List.flatMap_cons, List.count_append] at single
    rw [List.findSome?_cons]
    rcases List.mem_cons.mp member with equal | later
    · rw [← equal]
      cases found : owner.find? target with
      | none => simp [found] at present
      | some _ => rfl
    · have absent : target ∉ struct.ids := by
        intro also
        have first := List.count_pos_iff.mpr also
        have second := List.count_pos_iff.mpr inside
        have below := count_child_le later target
        omega
      rw [find?_eq_none absent]
      exact ih (by omega) later

/-- Looking a node up in a struct that was itself looked up finds the same as in the whole. -/
theorem find?_within {target other : NodeId} {struct found : StackStruct}
    (unique : Unique struct.ids) (here : struct.find? target = some found)
    (inside : other ∈ found.ids) : struct.find? other = found.find? other := by
  induction struct using induction_children with
  | node struct ih =>
    rw [find?_eq] at here
    split at here
    next => cases here; rfl
    next =>
      obtain ⟨child, member, inChild⟩ := List.exists_of_findSome?_eq_some here
      have uniqueChildren := unique.of_le (count_children_le struct)
      have owned := mem_ids_of_found inChild inside
      rw [find?_eq, if_neg (id_ne_of_mem_child unique member owned), findSome?_owner (uniqueChildren other) member owned]
      exact ih child member (uniqueChildren.of_le (count_child_le member)) inChild

/-- What a struct owns is found where the struct is. -/
theorem find?_child {target : NodeId} {struct found child : StackStruct} (unique : Unique struct.ids)
    (here : struct.find? target = some found) (member : child ∈ found.children) :
    struct.find? child.id = some child := by
  have uniqueHere := unique.of_le (find?_spec here).2
  have single := uniqueHere.of_le (count_children_le found)
  rw [find?_within unique here (mem_ids_of_child member child.id_mem_ids), find?_eq,
    if_neg (id_ne_of_mem_child uniqueHere member child.id_mem_ids),
    findSome?_owner (single _) member child.id_mem_ids, find?_self]

section Among

variable {target other : NodeId} {structs : List StackStruct} {found : StackStruct}

theorem findAmong?_isSome (target : NodeId) (structs : List StackStruct) :
    (findAmong? target structs).isSome ↔ target ∈ idsAmong structs := by
  simp [findAmong?_eq, idsAmong_eq, List.findSome?_isSome_iff, find?_isSome]

theorem findAmong?_eq_none (absent : target ∉ idsAmong structs) :
    findAmong? target structs = none :=
  Option.not_isSome_iff_eq_none.mp fun found => absent ((findAmong?_isSome target structs).mp found)

theorem findAmong?_spec (here : findAmong? target structs = some found) :
    found.id = target ∧ ∀ id, found.ids.count id ≤ (idsAmong structs).count id := by
  rw [findAmong?_eq] at here
  obtain ⟨owner, member, inOwner⟩ := List.exists_of_findSome?_eq_some here
  obtain ⟨named, fewer⟩ := find?_spec inOwner
  rw [idsAmong_eq]
  exact ⟨named, fun id => Nat.le_trans (fewer id) (count_child_le member id)⟩

theorem findAmong?_within (unique : Unique (idsAmong structs))
    (here : findAmong? target structs = some found) (inside : other ∈ found.ids) :
    findAmong? other structs = found.find? other := by
  rw [idsAmong_eq] at unique
  rw [findAmong?_eq] at here ⊢
  obtain ⟨owner, member, inOwner⟩ := List.exists_of_findSome?_eq_some here
  rw [findSome?_owner (unique other) member (mem_ids_of_found inOwner inside)]
  exact find?_within (unique.of_le (count_child_le member)) inOwner inside

theorem findAmong?_child (unique : Unique (idsAmong structs)) {child : StackStruct}
    (here : findAmong? target structs = some found) (member : child ∈ found.children) :
    findAmong? child.id structs = some child := by
  have uniqueHere := unique.of_le (findAmong?_spec here).2
  have inside := mem_ids_of_child member child.id_mem_ids
  rw [findAmong?_within unique here inside, find?_child uniqueHere (find?_self found) member]

end Among

end ScriptMachine.StackStruct
