import ScriptMachine.Proofs.StackStruct.Bytes
import ScriptMachine.Proofs.StackStruct.Worth

set_option autoImplicit false

/- Structs under any sequence of stores, copies and prunings refine immutable trees. A store may copy
a struct into itself or into one that it owns, and displaced structs come and go; none of this can be
told from the worths. -/
namespace ScriptMachine

open StackStruct (Unique idsAmong)

/-- Structs side by side, and the identifier of the next new node. -/
structure Forest where
  roots : List StackStruct
  next : NodeId

/-- Where a struct is: in which root, and at the end of which path. -/
structure Place where
  root : Nat
  path : List Nat

namespace Worth

/-- The struct at a place, among trees side by side. -/
def among? (worths : List Worth) (place : Place) : Option Worth :=
  worths[place.root]?.bind (at? place.path)

/-- Replaces one field of the struct at a place. -/
def replaceAmong (worths : List Worth) (place : Place) (field : Nat) (contents : FieldWorth) :
    List Worth :=
  worths.modify place.root (replace place.path field contents)

end Worth

namespace Forest

def worths (forest : Forest) : List Worth :=
  forest.roots.map StackStruct.worth

def at? (forest : Forest) (place : Place) : Option StackStruct :=
  forest.roots[place.root]?.bind (StackStruct.at? place.path)

/-- Stores into a slot of the struct at a place. -/
def store (forest : Forest) (place : Place) (slot : Nat) (contents : Slot) : Forest :=
  match forest.at? place with
  | some target =>
    { forest with
      roots := StackStruct.updateAmong target.id (·.store slot contents) forest.roots }
  | none => forest

/-- Stores a copy of a struct. -/
def nest (forest : Forest) (place : Place) (slot : Nat) (source : StackStruct) : Forest :=
  { forest with next := (source.clone forest.next).2 }.store place slot
    (.nested (source.clone forest.next).1)

/-- Puts a copy of a struct beside the others. -/
def clone (forest : Forest) (source : StackStruct) : Forest :=
  ⟨forest.roots ++ [(source.clone forest.next).1], (source.clone forest.next).2⟩

def prune (forest : Forest) (referenced : NodeId → Bool) : Forest :=
  { forest with roots := forest.roots.map fun root => (root.prune referenced).2 }

/-- Every node has an identifier of its own, and new nodes will have others. -/
structure Sound (forest : Forest) : Prop where
  unique : Unique (idsAmong forest.roots)
  numbered : ∀ id ∈ idsAmong forest.roots, id < forest.next

end Forest

/-- What can be done to structs. `nest` stores a copy of any struct, `copy` one of a struct that is
already there. -/
inductive Edit where
  | put (place : Place) (slot : Nat) (value : Value)
  | nest (place : Place) (slot : Nat) (source : StackStruct)
  | copy (place : Place) (slot : Nat) (origin : Place)
  | clone (origin : Place)
  | prune (referenced : NodeId → Bool)

namespace Edit

def perform (forest : Forest) : Edit → Forest
  | .put place slot value => forest.store place slot (.plain value)
  | .nest place slot source => forest.nest place slot source
  | .copy place slot origin => ((forest.at? origin).map (forest.nest place slot)).getD forest
  | .clone origin => ((forest.at? origin).map forest.clone).getD forest
  | .prune referenced => forest.prune referenced

/-- What an edit does to immutable trees: a copy is the tree of its source at that moment. -/
def mean (worths : List Worth) : Edit → List Worth
  | .put place slot value => Worth.replaceAmong worths place slot (.plain value)
  | .nest place slot source => Worth.replaceAmong worths place slot (.nested source.worth)
  | .copy place slot origin =>
    ((Worth.among? worths origin).map fun source =>
      Worth.replaceAmong worths place slot (.nested source)).getD worths
  | .clone origin => ((Worth.among? worths origin).map fun source => worths ++ [source]).getD worths
  | .prune _ => worths

/-- The root that an edit stores into. -/
def root? : Edit → Option Nat
  | .put place _ _ | .nest place _ _ | .copy place _ _ => some place.root
  | .clone _ | .prune _ => none

/-- An edit that stores a copy of a struct. -/
inductive Nests (forest : Forest) (place : Place) (slot : Nat) (source : StackStruct) : Edit → Prop
  | nest : Nests forest place slot source (.nest place slot source)
  | copy {origin : Place} : forest.at? origin = some source →
      Nests forest place slot source (.copy place slot origin)

end Edit

namespace Forest

/-- Structs that cannot be told from immutable trees, and what copies of them are like. -/
structure Refines (forest : Forest) (trees : List Worth) : Prop where
  worths : ∀ place, (forest.at? place).map StackStruct.worth = Worth.among? trees place
  texts : ∀ {place : Place} {struct : StackStruct}, forest.at? place = some struct →
    ∃ worth, Worth.among? trees place = some worth ∧ ∀ heap registry,
      let view := View.ofStructs heap registry forest.roots
      view.text (.stack struct.id) = worth.text view.structType view.partText
  /-- No struct owns itself, at any depth. -/
  acyclic : ∀ {place : Place} {struct : StackStruct}, forest.at? place = some struct →
    struct.id ∉ idsAmong struct.children
  /-- A copy looks like its source, shares no node with anything, owns one struct for each nested
  field, and changes no more unless something is stored into it. -/
  clones : ∀ {origin : Place} {source : StackStruct}, forest.at? origin = some source →
    ∃ copy, (Edit.perform forest (.clone origin)).at? ⟨forest.roots.length, []⟩ = some copy ∧
      copy.worth = source.worth ∧
      (∀ id ∈ copy.ids, id ∉ idsAmong forest.roots) ∧
      (∀ {path : List Nat} {inner : StackStruct}, copy.at? path = some inner →
        inner.childCount = (inner.slots.filterMap Slot.inner?).length) ∧
      ∀ later : List Edit, (∀ edit ∈ later, edit.root? ≠ some forest.roots.length) →
        ((later.foldl Edit.perform (Edit.perform forest (.clone origin))).at?
          ⟨forest.roots.length, []⟩).map StackStruct.worth = some source.worth
  /-- A stored copy is charged with a link and its own bytes. -/
  bytes : ∀ {edit : Edit} {place : Place} {slot : Nat} {source root target : StackStruct},
    edit.Nests forest place slot source → forest.roots[place.root]? = some root →
    root.at? place.path = some target → slot < target.slots.length →
    ∃ after, (edit.perform forest).roots[place.root]? = some after ∧
      after.bytes = root.bytes + 8 + (source.clone forest.next).1.bytes

section Lookup

variable {forest : Forest} {place : Place} {struct : StackStruct}

theorem exists_root (here : forest.at? place = some struct) :
    ∃ root, forest.roots[place.root]? = some root ∧ root.at? place.path = some struct :=
  Option.bind_eq_some_iff.mp here

theorem unique_root (sound : forest.Sound) {root : StackStruct} (member : root ∈ forest.roots) :
    Unique root.ids := by
  refine sound.unique.of_le fun id => ?_
  rw [StackStruct.idsAmong_eq]
  exact StackStruct.count_child_le member id

theorem worth_at? (forest : Forest) (place : Place) :
    (forest.at? place).map StackStruct.worth = Worth.among? forest.worths place := by
  rw [at?, Worth.among?, worths, List.getElem?_map]
  cases forest.roots[place.root]? with
  | none => rfl
  | some root => exact StackStruct.worth_at? place.path root

theorem mem_idsAmong_at? (here : forest.at? place = some struct) :
    struct.id ∈ idsAmong forest.roots := by
  obtain ⟨root, isRoot, inRoot⟩ := exists_root here
  rw [StackStruct.idsAmong_eq]
  exact List.mem_flatMap.mpr ⟨root, List.mem_of_getElem? isRoot,
    StackStruct.ids_at? inRoot _ struct.id_mem_ids⟩

/-- An identifier leads where the place does. -/
theorem findAmong?_at? (sound : forest.Sound) (here : forest.at? place = some struct) :
    StackStruct.findAmong? struct.id forest.roots = some struct := by
  obtain ⟨root, isRoot, inRoot⟩ := exists_root here
  have member := List.mem_of_getElem? isRoot
  have single : (forest.roots.flatMap StackStruct.ids).count struct.id ≤ 1 := by
    rw [← StackStruct.idsAmong_eq]
    exact sound.unique struct.id
  rw [StackStruct.findAmong?_eq, StackStruct.findSome?_owner single member
    (StackStruct.ids_at? inRoot _ struct.id_mem_ids)]
  exact StackStruct.find?_at? (unique_root sound member) inRoot

theorem not_mem_children (sound : forest.Sound) (here : forest.at? place = some struct) :
    struct.id ∉ idsAmong struct.children := by
  have fewer := (StackStruct.findAmong?_spec (findAmong?_at? sound here)).2 struct.id
  have once := Nat.le_trans fewer (sound.unique struct.id)
  rw [StackStruct.ids_eq, List.count_cons_self] at once
  rw [StackStruct.idsAmong_eq]
  exact List.count_eq_zero.mp (by omega)

end Lookup

section Stores

variable {forest : Forest} {place : Place} {slot : Nat}

/-- A store whose contents have new nodes keeps nodes apart. -/
theorem Sound.store (sound : forest.Sound) {contents : Slot} (unique : Unique contents.ids)
    (apart : ∀ id ∈ contents.ids, id ∉ idsAmong forest.roots)
    (numbered : ∀ id ∈ contents.ids, id < forest.next) : (forest.store place slot contents).Sound := by
  unfold Forest.store
  split
  · next target here =>
    have grows : ∀ id, (idsAmong (StackStruct.updateAmong target.id (·.store slot contents)
        forest.roots)).count id ≤ (idsAmong forest.roots).count id + contents.ids.count id := by
      intro id
      have below : (idsAmong (StackStruct.updateAmong target.id (·.store slot contents)
          forest.roots)).count id ≤ (idsAmong forest.roots).count id
            + (idsAmong forest.roots).count target.id * contents.ids.count id :=
        StackStruct.count_updateAmong_le
          (fun struct => StackStruct.count_store_le struct slot contents id) forest.roots
      have once := Nat.mul_le_mul_right (contents.ids.count id) (sound.unique target.id)
      omega
    have below := fun id => Nat.le_trans (grows id) (Nat.le_of_eq (Nat.add_comm _ _))
    refine ⟨StackStruct.unique_of_count_le unique sound.unique apart below, fun id member => ?_⟩
    rcases StackStruct.mem_or_mem_of_count_le (below id) member with new | old
    · exact numbered id new
    · exact sound.numbered id old
  · exact sound

theorem Sound.clone (sound : forest.Sound) (source : StackStruct) : (forest.clone source).Sound := by
  have advanced := StackStruct.clone_next_lt source forest.next
  have ids : idsAmong (forest.clone source).roots
      = idsAmong forest.roots ++ (source.clone forest.next).1.ids := by
    simp [Forest.clone, StackStruct.idsAmong_eq]
  refine ⟨StackStruct.unique_of_count_le sound.unique (StackStruct.clone_unique source forest.next)
    (fun id old new => ?_) (fun id => Nat.le_of_eq (by rw [ids, List.count_append])),
    fun id member => ?_⟩
  · exact absurd (sound.numbered id old) (Nat.not_lt.mpr (StackStruct.mem_clone_ids.mp new).1)
  · rw [ids] at member
    rcases List.mem_append.mp member with old | new
    · exact Nat.lt_trans (sound.numbered id old) advanced
    · exact (StackStruct.mem_clone_ids.mp new).2

/-- Identifiers may be left out. -/
theorem Sound.advanced (sound : forest.Sound) (source : StackStruct) :
    Sound { forest with next := (source.clone forest.next).2 } :=
  ⟨sound.unique, fun id member =>
    Nat.lt_trans (sound.numbered id member) (StackStruct.clone_next_lt source forest.next)⟩

theorem Sound.nest (sound : forest.Sound) (source : StackStruct) :
    (forest.nest place slot source).Sound := by
  have ids := Slot.ids_nested (source.clone forest.next).1
  refine (sound.advanced source).store ?_ ?_ ?_
  · rw [ids]
    exact StackStruct.clone_unique source forest.next
  · intro id new old
    rw [ids] at new
    exact absurd (sound.numbered id old) (Nat.not_lt.mpr (StackStruct.mem_clone_ids.mp new).1)
  · intro id new
    rw [ids] at new
    exact (StackStruct.mem_clone_ids.mp new).2

theorem Sound.prune (sound : forest.Sound) (referenced : NodeId → Bool) :
    (forest.prune referenced).Sound := by
  have fewer : ∀ (roots : List StackStruct) (id : NodeId),
      (idsAmong (roots.map fun root => (root.prune referenced).2)).count id
        ≤ (idsAmong roots).count id := by
    intro roots id
    induction roots with
    | nil => exact Nat.le_refl _
    | cons root rest ih =>
      have here := @StackStruct.count_prune_le referenced root id
      simp only [List.map_cons, idsAmong, List.count_append]
      omega
  refine ⟨sound.unique.of_le (fewer forest.roots), fun id member => sound.numbered id ?_⟩
  exact StackStruct.mem_of_count_le (fewer forest.roots id) member

/-- A store into one root leaves the others as they are. -/
theorem roots_store (sound : forest.Sound) {target root : StackStruct}
    (isRoot : forest.roots[place.root]? = some root) (here : root.at? place.path = some target)
    (contents : Slot) : (forest.store place slot contents).roots
      = forest.roots.modify place.root (StackStruct.update target.id (·.store slot contents)) := by
  have isTarget : forest.at? place = some target := Option.bind_eq_some_iff.mpr ⟨root, isRoot, here⟩
  have inside := StackStruct.ids_at? here _ target.id_mem_ids
  have single := sound.unique target.id
  rw [StackStruct.idsAmong_eq] at single
  simp only [Forest.store, isTarget, StackStruct.updateAmong_eq]
  generalize place.root = index at isRoot
  generalize forest.roots = roots at isRoot single
  have without : ∀ rest : List StackStruct, (rest.flatMap StackStruct.ids).count target.id = 0 →
      rest.map (StackStruct.update target.id (·.store slot contents)) = rest := by
    intro rest none
    refine (List.map_congr_left fun other member => ?_).trans (List.map_id rest)
    refine StackStruct.update_of_not_mem fun also => ?_
    exact List.count_eq_zero.mp none (List.mem_flatMap.mpr ⟨other, member, also⟩)
  have positive := List.count_pos_iff.mpr inside
  induction roots generalizing index with
  | nil => cases isRoot
  | cons first rest ih =>
    simp only [List.flatMap_cons, List.count_append] at single
    cases index with
    | zero =>
      cases isRoot
      rw [List.map_cons, without rest (by omega), List.modify_zero_cons]
    | succ index =>
      rw [List.getElem?_cons_succ] at isRoot
      have later := StackStruct.count_child_le (List.mem_of_getElem? isRoot) target.id
      have apart : target.id ∉ first.ids := List.count_eq_zero.mp (by omega)
      rw [List.map_cons, StackStruct.update_of_not_mem apart, ih index isRoot (by omega),
        List.modify_succ_cons]

/-- A store is a replacement in one of the trees. -/
theorem worths_store (sound : forest.Sound) (contents : Slot) :
    (forest.store place slot contents).worths
      = Worth.replaceAmong forest.worths place slot contents.worth := by
  have among := worth_at? forest place
  cases here : forest.at? place with
  | none =>
    have same : forest.store place slot contents = forest := by rw [Forest.store, here]
    rw [same, Worth.replaceAmong]
    rw [here, Option.map_none, Worth.among?] at among
    cases isRoot : forest.worths[place.root]? with
    | none => exact (List.modify_eq_self (List.getElem?_eq_none_iff.mp isRoot)).symm
    | some worth =>
      rw [isRoot] at among
      refine List.ext_getElem? fun index => ?_
      rw [List.getElem?_modify]
      by_cases isIndex : place.root = index
      · subst isIndex
        simp only [isRoot, ↓reduceIte, Option.map_eq_map, Option.map_some]
        rw [Worth.replace_of_absent among.symm]
      · simp [isIndex]
  | some target =>
    obtain ⟨root, isRoot, inRoot⟩ := exists_root here
    have unique := unique_root sound (List.mem_of_getElem? isRoot)
    rw [worths, roots_store sound isRoot inRoot, Worth.replaceAmong, worths]
    refine List.ext_getElem? fun index => ?_
    simp only [List.getElem?_map, List.getElem?_modify, Option.map_eq_map, Option.map_map]
    by_cases isIndex : place.root = index
    · subst isIndex
      simp only [isRoot, Option.map_some, Function.comp, ↓reduceIte]
      rw [StackStruct.worth_update unique inRoot]
    · simp only [isIndex, ↓reduceIte]
      rfl

theorem worths_nest (sound : forest.Sound) (source : StackStruct) :
    (forest.nest place slot source).worths
      = Worth.replaceAmong forest.worths place slot (.nested source.worth) := by
  rw [nest, worths_store (sound.advanced source), Slot.worth, StackStruct.worth_clone]
  rfl

theorem worths_clone (source : StackStruct) :
    (forest.clone source).worths = forest.worths ++ [source.worth] := by
  simp [worths, clone, StackStruct.worth_clone]

theorem worths_prune (referenced : NodeId → Bool) :
    (forest.prune referenced).worths = forest.worths := by
  simp [worths, prune, StackStruct.worth_prune]

end Stores

end Forest

section Sequences

variable {forest : Forest}

theorem Edit.sound (edit : Edit) (sound : forest.Sound) : (edit.perform forest).Sound := by
  cases edit with
  | put place slot value =>
    refine sound.store ?_ ?_ ?_ <;> simp [StackStruct.Unique]
  | nest place slot source => exact sound.nest source
  | copy place slot origin =>
    rw [perform]
    cases forest.at? origin with
    | none => exact sound
    | some source => exact sound.nest source
  | clone origin =>
    rw [perform]
    cases forest.at? origin with
    | none => exact sound
    | some source => exact sound.clone source
  | prune referenced => exact sound.prune referenced

/-- What an edit does to structs is what it means for their worths. -/
theorem Edit.worths (edit : Edit) (sound : forest.Sound) :
    (edit.perform forest).worths = edit.mean forest.worths := by
  cases edit with
  | put place slot value => exact Forest.worths_store sound _
  | nest place slot source => exact Forest.worths_nest sound source
  | copy place slot origin =>
    rw [perform, mean, ← Forest.worth_at?]
    cases forest.at? origin with
    | none => rfl
    | some source => exact Forest.worths_nest sound source
  | clone origin =>
    rw [perform, mean, ← Forest.worth_at?]
    cases forest.at? origin with
    | none => rfl
    | some source => exact Forest.worths_clone source
  | prune referenced => exact Forest.worths_prune referenced

/-- The same for any number of edits, one after the other. -/
theorem Forest.Sound.edits (sound : forest.Sound) (edits : List Edit) :
    (edits.foldl Edit.perform forest).Sound ∧
      (edits.foldl Edit.perform forest).worths = edits.foldl Edit.mean forest.worths := by
  induction edits generalizing forest with
  | nil => exact ⟨sound, rfl⟩
  | cons edit rest ih =>
    rw [List.foldl_cons, List.foldl_cons, ← edit.worths sound]
    exact ih (edit.sound sound)

/-- Trees that no edit stores into stay where they are. -/
theorem Edit.mean_apart {index : Nat} {worth : Worth} {worths : List Worth} {edit : Edit}
    (here : worths[index]? = some worth) (apart : edit.root? ≠ some index) :
    (edit.mean worths)[index]? = some worth := by
  have replaced : ∀ (place : Place) field contents, place.root ≠ index →
      (Worth.replaceAmong worths place field contents)[index]? = some worth := by
    intro place field contents other
    rw [Worth.replaceAmong, List.getElem?_modify, here]
    simp [other]
  cases edit with
  | put place slot value => exact replaced _ _ _ fun same => apart (congrArg some same)
  | nest place slot source => exact replaced _ _ _ fun same => apart (congrArg some same)
  | copy place slot origin =>
    rw [mean]
    cases Worth.among? worths origin with
    | none => exact here
    | some source => exact replaced _ _ _ fun same => apart (congrArg some same)
  | clone origin =>
    rw [mean]
    cases Worth.among? worths origin with
    | none => exact here
    | some source =>
      change (worths ++ [source])[index]? = some worth
      rw [List.getElem?_append_left (List.getElem?_eq_some_iff.mp here).1, here]
  | prune referenced => exact here

theorem Edit.mean_all_apart {index : Nat} {worth : Worth} {worths : List Worth} {edits : List Edit}
    (here : worths[index]? = some worth) (apart : ∀ edit ∈ edits, edit.root? ≠ some index) :
    (edits.foldl Edit.mean worths)[index]? = some worth := by
  induction edits generalizing worths with
  | nil => exact here
  | cons edit rest ih =>
    obtain ⟨first, others⟩ := List.forall_mem_cons.mp apart
    exact ih (Edit.mean_apart here first) others

end Sequences

namespace Forest

variable {forest : Forest}

/-- A struct that is found is written as its tree. -/
theorem Sound.text (sound : forest.Sound) {place : Place} {struct : StackStruct}
    (here : forest.at? place = some struct) (heap : Heap) (registry : Registry) :
    (View.ofStructs heap registry forest.roots).text (.stack struct.id)
      = struct.worth.text (View.ofStructs heap registry forest.roots).structType
        (View.ofStructs heap registry forest.roots).partText := by
  have found : (View.ofStructs heap registry forest.roots).node? struct.id = some struct :=
    findAmong?_at? sound here
  rw [View.text_stack found, StackStruct.text_worth]

/-- A copy at the moment it is made, and after edits elsewhere. -/
theorem Sound.clones (sound : forest.Sound) {origin : Place} {source : StackStruct}
    (here : forest.at? origin = some source) :
    ∃ copy, (Edit.perform forest (.clone origin)).at? ⟨forest.roots.length, []⟩ = some copy ∧
      copy.worth = source.worth ∧
      (∀ id ∈ copy.ids, id ∉ idsAmong forest.roots) ∧
      (∀ {path : List Nat} {inner : StackStruct}, copy.at? path = some inner →
        inner.childCount = (inner.slots.filterMap Slot.inner?).length) ∧
      ∀ later : List Edit, (∀ edit ∈ later, edit.root? ≠ some forest.roots.length) →
        ((later.foldl Edit.perform (Edit.perform forest (.clone origin))).at?
          ⟨forest.roots.length, []⟩).map StackStruct.worth = some source.worth := by
  have performed : Edit.perform forest (.clone origin) = forest.clone source := by
    rw [Edit.perform, here]
    rfl
  refine ⟨(source.clone forest.next).1, ?_, StackStruct.worth_clone source _, ?_, ?_, ?_⟩
  · rw [performed]
    simp [at?, Forest.clone, StackStruct.at?]
  · intro id new old
    exact absurd (sound.numbered id old) (Nat.not_lt.mpr (StackStruct.mem_clone_ids.mp new).1)
  · intro path inner inside
    rw [StackStruct.childCount, StackStruct.displaced_clone inside, List.length_nil, Nat.add_zero]
  · intro later apart
    have worths := ((Edit.clone origin).sound sound).edits later
    rw [worth_at?, worths.2, performed, worths_clone, Worth.among?]
    have last : (forest.worths ++ [source.worth])[forest.roots.length]? = some source.worth := by
      simp [Forest.worths]
    rw [Edit.mean_all_apart last apart]
    rfl

theorem Sound.bytes_nest (sound : forest.Sound) {place : Place} {slot : Nat}
    {source root target : StackStruct} (isRoot : forest.roots[place.root]? = some root)
    (inRoot : root.at? place.path = some target) (inside : slot < target.slots.length) :
    ∃ after, (forest.nest place slot source).roots[place.root]? = some after ∧
      after.bytes = root.bytes + 8 + (source.clone forest.next).1.bytes := by
  let change : StackStruct → StackStruct := (·.store slot (.nested (source.clone forest.next).1))
  have unique := unique_root sound (List.mem_of_getElem? isRoot)
  refine ⟨root.update target.id change, ?_, ?_⟩
  · rw [Forest.nest, roots_store (sound.advanced source) isRoot inRoot, List.getElem?_modify, isRoot]
    simp [change]
  · have changed : (root.update target.id change).bytes + target.bytes
        = root.bytes + (change target).bytes :=
      StackStruct.bytes_update unique (StackStruct.find?_at? unique inRoot)
    have stored : (change target).bytes = target.bytes + (8 + (source.clone forest.next).1.bytes) :=
      StackStruct.bytes_store target (.nested (source.clone forest.next).1) inside
    omega

/-- Whatever stores, copies and prunings are made, structs are what immutable trees would be. -/
theorem edits_refine_worths (sound : forest.Sound) (edits : List Edit) :
    (edits.foldl Edit.perform forest).Refines (edits.foldl Edit.mean forest.worths) := by
  obtain ⟨soundAfter, worths⟩ := sound.edits edits
  rw [← worths]
  generalize edits.foldl Edit.perform forest = after at soundAfter
  refine ⟨worth_at? after, fun {place struct} here => ?_, not_mem_children soundAfter,
    soundAfter.clones, fun {edit place slot source root target} nests isRoot inRoot inside => ?_⟩
  · refine ⟨struct.worth, ?_, soundAfter.text here⟩
    rw [← worth_at?, here]
    rfl
  · have performed : edit.perform after = after.nest place slot source := by
      cases nests with
      | nest => rfl
      | copy found =>
        rw [Edit.perform, found]
        rfl
    rw [performed]
    exact soundAfter.bytes_nest isRoot inRoot inside

/-- A struct of type 0 with another of type 1 in its first field. -/
def paired : Forest :=
  ⟨[.node 0 0 [.nested (.node 1 1 [.plain (.bool true)] []), .plain .nil] []], 2⟩

/-- The struct is copied into what it owns, and then into itself; then everything displaced goes. -/
def knotting : List Edit :=
  [.copy ⟨0, [0]⟩ 0 ⟨0, []⟩, .copy ⟨0, []⟩ 0 ⟨0, []⟩, .put ⟨0, [0, 0]⟩ 0 .nil,
    .prune fun _ => false]

theorem edits_refine_worths_knotting : paired.Sound ∧
    (knotting.foldl Edit.perform paired).Refines [.node 0 [.nested (.node 0 [.nested (.node 1
      [.plain .nil]), .plain .nil]), .plain .nil]] := by
  have sound : paired.Sound := by
    refine ⟨fun id => List.nodup_iff_count.mp (by decide) id, by decide⟩
  exact ⟨sound, edits_refine_worths sound knotting⟩

end Forest

end ScriptMachine
