import Mathlib.Data.List.Sort
import ScriptMachine.Proofs.StackStruct.Bytes
import ScriptMachine.Proofs.StackStruct.Contents
import ScriptMachine.Proofs.StackStruct.Plain
import ScriptMachine.Proofs.StackStruct.Worth

set_option autoImplicit false

/- Pruning drops the displaced structs that lead to no referenced one, and nothing else. A struct
that is still owned afterwards was pruned itself, is named by a current field of its owner, or is or
owns a referenced struct; it keeps its owner, its fields and its place among what its owner owns. -/
namespace ScriptMachine.StackStruct

variable {struct : StackStruct} {referenced : NodeId → Bool}

section Arrivals

/-- The identifiers of the structs that a struct owns directly, in the order in which it came to own
them: each is a new copy when it comes, and so has a larger identifier than those before. -/
def arrivals (struct : StackStruct) : List NodeId :=
  (struct.children.map StackStruct.id).insertionSort (· ≤ ·)

theorem mem_arrivals {id : NodeId} :
    id ∈ struct.arrivals ↔ ∃ child ∈ struct.children, child.id = id := by
  rw [arrivals, List.mem_insertionSort, List.mem_map]

theorem arrivals_sorted (struct : StackStruct) : struct.arrivals.Pairwise (· ≤ ·) :=
  List.pairwise_insertionSort _ _

theorem arrivals_perm (struct : StackStruct) :
    struct.arrivals.Perm (struct.children.map StackStruct.id) :=
  List.perm_insertionSort _ _

theorem arrivals_eq {identifiers : List NodeId} (sorted : identifiers.Pairwise (· ≤ ·))
    (perm : (struct.children.map StackStruct.id).Perm identifiers) :
    struct.arrivals = identifiers :=
  (struct.arrivals_perm.trans perm).eq_of_pairwise' struct.arrivals_sorted sorted

/-- Nothing comes or goes when a value is stored that is no struct. -/
theorem arrivals_store_plain (struct : StackStruct) (slot : Nat) (value : Value) :
    (struct.store slot (.plain value)).arrivals = struct.arrivals := by
  refine arrivals_eq struct.arrivals_sorted (List.Perm.trans ?_ struct.arrivals_perm.symm)
  by_cases inside : slot < struct.slots.length
  · have stored := children_store_perm struct (.plain value) inside
    rw [Slot.inner?, Option.toList_none, List.append_nil] at stored
    exact stored.map StackStruct.id
  · rw [store_outside struct _ inside]

/-- A struct that is stored comes last, and the one it displaces stays where it was. -/
theorem arrivals_store_nested {slot : Nat} {inner : StackStruct}
    (inside : slot < struct.slots.length) (newest : ∀ id ∈ struct.arrivals, id < inner.id) :
    (struct.store slot (.nested inner)).arrivals = struct.arrivals ++ [inner.id] := by
  refine arrivals_eq ?_ ?_
  · refine List.pairwise_append.mpr ⟨struct.arrivals_sorted, List.pairwise_singleton _ _, ?_⟩
    intro id earlier last isLast
    rw [List.mem_singleton.mp isLast]
    exact Nat.le_of_lt (newest id earlier)
  · have stored := (children_store_perm struct (.nested inner) inside).map StackStruct.id
    rw [List.map_append] at stored
    exact stored.trans (struct.arrivals_perm.symm.append_right [inner.id])

theorem map_id_sublist (structs : List StackStruct) :
    (structs.map StackStruct.id).Sublist (structs.flatMap ids) := by
  induction structs with
  | nil => exact List.Sublist.slnil
  | cons struct rest ih => exact (List.singleton_sublist.mpr struct.id_mem_ids).append ih

/-- A copy comes to own its structs in the order of its slots. -/
theorem arrivals_clone (struct : StackStruct) (fresh : NodeId) :
    (struct.clone fresh).1.arrivals = (struct.clone fresh).1.children.map StackStruct.id := by
  refine arrivals_eq ?_ (List.Perm.refl _)
  obtain ⟨count, -, numbered⟩ := clone_ids struct fresh
  have ascending : (struct.clone fresh).1.ids.Pairwise (· ≤ ·) := by
    rw [numbered]
    exact List.pairwise_le_range'
  rw [ids_eq] at ascending
  exact (List.pairwise_cons.mp ascending).2.sublist (map_id_sublist _)

end Arrivals

section Owners

variable {parent child : NodeId}

end Owners

section Kept

mutual

/-- Pruning again finds the same, and nothing to drop. -/
theorem prune_prune : (struct : StackStruct) →
    (struct.prune referenced).2.prune referenced = struct.prune referenced
  | .node id type slots displaced => by
    simp only [prune, pruneSlots_pruneSlots slots, pruneDisplaced_pruneDisplaced displaced]

theorem pruneSlots_pruneSlots : (slots : List Slot) →
    pruneSlots referenced (pruneSlots referenced slots).2 = pruneSlots referenced slots
  | [] => rfl
  | .plain _ :: rest => by simp only [pruneSlots, pruneSlots_pruneSlots rest]
  | .nested inner :: rest => by
    simp only [pruneSlots, prune_prune inner, pruneSlots_pruneSlots rest]

theorem pruneDisplaced_pruneDisplaced : (structs : List StackStruct) →
    pruneDisplaced referenced (pruneDisplaced referenced structs).2
      = pruneDisplaced referenced structs
  | [] => rfl
  | struct :: rest => by
    have later := pruneDisplaced_pruneDisplaced rest
    cases reached : (struct.prune referenced).1 with
    | true => simp only [pruneDisplaced, reached, ↓reduceIte, prune_prune struct, later]
    | false => simp only [pruneDisplaced, reached, Bool.false_or, Bool.false_eq_true, ↓reduceIte, later]

end

end Kept

section Built

/-- Structs that come about by storing values, and copies of structs, in any node that they own. A copy
takes its identifiers from `next` on. -/
inductive Built : NodeId → StackStruct → Prop
  | blank (id : NodeId) (type : StructId) (fieldCount : Nat) :
    Built (id + 1) (.blank id type fieldCount)
  | put {next : NodeId} {struct : StackStruct} (built : Built next struct) (target : NodeId)
    (slot : Nat) {value : Value} (isPlain : value.Plain) :
    Built next (struct.update target (·.store slot (.plain value)))
  | nest {next other origin : NodeId} {struct root source : StackStruct} (built : Built next struct)
    (target : NodeId) (slot : Nat) (elsewhere : Built other root)
    (here : root.find? origin = some source) :
    Built (source.clone next).2
      (struct.update target (·.store slot (.nested (source.clone next).1)))
  | copy {next other origin : NodeId} {root source : StackStruct} (elsewhere : Built other root)
    (here : root.find? origin = some source) : Built (source.clone next).2 (source.clone next).1
  | prune {next : NodeId} {struct : StackStruct} (built : Built next struct)
    (referenced : NodeId → Bool) : Built next (struct.prune referenced).2
  | later {next other : NodeId} {struct : StackStruct} (built : Built next struct)
    (after : next ≤ other) : Built other struct

namespace Built

variable {next : NodeId}

theorem plain (built : Built next struct) : struct.Plain := by
  induction built with
  | blank id type fieldCount => exact plain_blank id type fieldCount
  | @put _ _ _ _ slot value isPlain ih =>
    have stored : PlainSlot (.plain value) := isPlain
    exact ih.update (fun _ before => before.store slot stored) _
  | @nest next _ _ _ _ source _ _ slot _ here ih ihRoot =>
    have stored : PlainSlot (.nested (source.clone next).1) := (ihRoot.find? _ here).clone _ _
    exact ih.update (fun _ before => before.store slot stored) _
  | copy _ here ih => exact (ih.find? _ here).clone _ _
  | prune _ referenced ih => exact ih.prune
  | later _ _ ih => exact ih

/-- Every node has an identifier of its own, and none has been given out from `next` on. -/
theorem numbered (built : Built next struct) :
    Unique struct.ids ∧ ∀ id ∈ struct.ids, id < next := by
  induction built with
  | blank id type fieldCount =>
    rw [blank_ids]
    exact ⟨List.nodup_iff_count_le_one.mp (List.nodup_singleton id), by simp⟩
  | @put _ _ _ target slot value _ ih =>
    have fewer := count_update_store_le ih.1 target slot (.plain value)
    exact ⟨ih.1.of_le fewer, fun id member => ih.2 id (mem_of_count_le (fewer id) member)⟩
  | @nest next _ _ _ _ source _ target slot _ _ ih =>
    have grows := count_update_store_le ih.1 target slot (.nested (source.clone next).1)
    rw [Slot.ids_nested] at grows
    refine ⟨unique_of_count_le ih.1 (clone_unique source next) (fun id old new => ?_) grows,
      fun id member => ?_⟩
    · exact Nat.not_lt.mpr (mem_clone_ids.mp new).1 (ih.2 id old)
    · rcases mem_or_mem_of_count_le (grows id) member with old | new
      · exact Nat.lt_trans (ih.2 id old) (clone_next_lt source next)
      · exact (mem_clone_ids.mp new).2
  | copy _ _ _ =>
    exact ⟨clone_unique _ _, fun id member => (mem_clone_ids.mp member).2⟩
  | prune _ referenced ih =>
    have fewer := @count_prune_le referenced
    exact ⟨ih.1.of_le (fewer _), fun id member => ih.2 id (mem_of_count_le (fewer _ id) member)⟩
  | later _ after ih => exact ⟨ih.1, fun id member => Nat.lt_of_lt_of_le (ih.2 id member) after⟩

/-- A copy that is stored comes last among what its new owner owns. -/
theorem arrivals_nest (built : Built next struct) {target : NodeId} {owner : StackStruct}
    (here : struct.find? target = some owner) {slot : Nat} (inside : slot < owner.slots.length)
    (source : StackStruct) :
    ∃ after, (struct.update target (·.store slot (.nested (source.clone next).1))).find? target
      = some after ∧ after.arrivals = owner.arrivals ++ [next] := by
  obtain ⟨unique, below⟩ := built.numbered
  obtain ⟨isTarget, fewer⟩ := find?_spec here
  refine ⟨owner.store slot (.nested (source.clone next).1), ?_, ?_⟩
  · rw [find?_update unique (fun before => store_id before slot _)
      (fun _ _ _ other => absurd rfl other), here, Option.map_some, update_target isTarget]
  · rw [arrivals_store_nested inside, clone_id]
    intro id member
    obtain ⟨child, isChild, rfl⟩ := mem_arrivals.mp member
    rw [clone_id]
    exact below _ (mem_of_count_le (fewer _) (mem_ids_of_child isChild child.id_mem_ids))

end Built

end Built

section Pruned

variable {parent child : NodeId}

/-- A struct of type 1 that holds one of type 2. -/
def holder (id : NodeId) : StackStruct :=
  .node id 1 [.nested (.node (id + 1) 2 [.plain .nil] [])] []

/-- A struct after three stores into its only field, each of which displaced what was there. -/
def crowded : StackStruct :=
  .node 0 0 [.nested (holder 5)] [holder 1, holder 3]

theorem built_holder : Built 2 (holder 0) :=
  (Built.blank 0 1 1).nest 0 0 (Built.blank 0 2 1) (find?_self _)

theorem built_crowded : Built 7 crowded :=
  (((Built.blank 0 0 1).nest 0 0 built_holder (find?_self _)).nest 0 0 built_holder
    (find?_self _)).nest 0 0 built_holder (find?_self _)

end Pruned

end ScriptMachine.StackStruct
