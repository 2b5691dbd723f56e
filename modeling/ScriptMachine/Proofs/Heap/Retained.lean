import ScriptMachine.Proofs.Heap.Table
import ScriptMachine.Proofs.Invariant

set_option autoImplicit false

/- What a heap keeps while somebody else allocates in it. Collections in between start from some
roots and maybe from others, and new objects may be changed at will; whatever is reached from those
roots stays as it is. -/
namespace ScriptMachine.Heap

/-- Nothing that is reached from the roots is still to be allocated. -/
def Bounded (heap : Heap) (roots : List ObjectId) : Prop :=
  ∀ id, Reaches heap.objects roots id → id < heap.nextId

/-- What is reached from the roots is unchanged, and of what was there nothing has changed: it is
as it was, or gone. -/
structure Retains (roots : List ObjectId) (before after : Heap) : Prop where
  grown : before.nextId ≤ after.nextId
  kept : ∀ id, Reaches before.objects roots id → after.get? id = before.get? id
  old : ∀ {id : ObjectId} {object : Object}, id < before.nextId →
    after.get? id = some object → before.get? id = some object

variable {roots : List ObjectId} {before after : Heap}

theorem Retains.refl (roots : List ObjectId) (heap : Heap) : Retains roots heap heap :=
  ⟨Nat.le_refl _, fun _ _ => rfl, fun _ found => found⟩

theorem Retains.reaches (retains : Retains roots before after) {id : ObjectId} :
    Reaches after.objects roots id ↔ Reaches before.objects roots id :=
  ⟨.transfer_back retains.kept, .transfer retains.kept fun _ member => member⟩

theorem Retains.bounded (retains : Retains roots before after) (bounded : before.Bounded roots) :
    after.Bounded roots := fun id reached =>
  Nat.lt_of_lt_of_le (bounded id (retains.reaches.mp reached)) retains.grown

/-- A collection from more roots. -/
theorem Retains.prepared (retains : Retains roots before after) {more : Unit → List ObjectId}
    (among : ∀ id ∈ roots, id ∈ more ()) (bytes : UInt64) :
    Retains roots before (after.prepared more bytes) where
  grown := by
    rw [prepared_nextId]
    exact retains.grown
  kept id reached := by
    have still : Reaches after.objects (more ()) id := .transfer retains.kept among reached
    rw [get?_prepared_of_reaches still, retains.kept id reached]
  old below found := retains.old below (get?_of_prepared found)

theorem Retains.link (retains : Retains roots before after) (bounded : before.Bounded roots)
    (object : Object) : Retains roots before (after.link object) where
  grown := Nat.le_succ_of_le retains.grown
  kept id reached := by
    have below := bounded id reached
    have grown := retains.grown
    rw [get?_link, if_neg (by lia), retains.kept id reached]
  old {id other} below found := by
    have grown := retains.grown
    rw [get?_link, if_neg (by lia)] at found
    exact retains.old below found

/-- A change of a new object. -/
theorem Retains.set (retains : Retains roots before after) (bounded : before.Bounded roots)
    {id : ObjectId} (new : before.nextId ≤ id) (object : Object) :
    Retains roots before (after.set id object) where
  grown := retains.grown
  kept other reached := by
    have below := bounded other reached
    rw [get?_set_of_ne (by lia), retains.kept other reached]
  old {other found} below here := by
    rw [get?_set_of_ne (by lia)] at here
    exact retains.old below here

theorem Retains.of_same {other : Heap} (retains : Retains roots before after)
    (objects : other.objects = after.objects) (next : other.nextId = after.nextId) :
    Retains roots before other := by
  have same : ∀ id, other.get? id = after.get? id := fun id => by rw [get?, get?, objects]
  refine ⟨next ▸ retains.grown, fun id reached => ?_, fun below found => ?_⟩
  · rw [same, retains.kept id reached]
  · rw [same] at found
    exact retains.old below found

section Requests

variable {more : Unit → List ObjectId}

theorem Retains.allocate (retains : Retains roots before after) (bounded : before.Bounded roots)
    (among : ∀ id ∈ roots, id ∈ more ()) (object : Object) :
    Retains roots before (stateLeft (Heap.allocate more object after)) := by
  rw [allocate_eq]
  dsimp only
  split
  · exact retains.prepared among _
  · exact (retains.prepared among _).link bounded object

theorem Retains.intern (retains : Retains roots before after) (bounded : before.Bounded roots)
    (among : ∀ id ∈ roots, id ∈ more ()) (text : Text) :
    Retains roots before (stateLeft (Heap.intern more text after)) := by
  cases filed : after.interned[text]? with
  | some id =>
    rw [intern_of_filed _ filed]
    exact retains
  | none =>
    rw [intern_of_unfiled _ filed]
    dsimp only
    split
    · exact retains.prepared among _
    · exact ((retains.prepared among _).link bounded (.string text)).of_same rfl rfl

theorem Tidy.allocate (tidy : after.Tidy) {object : Object}
    (plain : ∀ text, object ≠ .string text) (more : Unit → List ObjectId) :
    (stateLeft (Heap.allocate more object after)).Tidy := by
  rw [allocate_eq]
  dsimp only
  split
  · exact tidy.prepared _ _
  · exact (tidy.prepared _ _).link plain

theorem Tidy.interning (tidy : after.Tidy) (more : Unit → List ObjectId) (text : Text) :
    (stateLeft (Heap.intern more text after)).Tidy := by
  cases filed : after.interned[text]? with
  | some id =>
    rw [intern_of_filed _ filed]
    exact tidy
  | none =>
    rw [intern_of_unfiled _ filed]
    dsimp only
    split
    · exact tidy.prepared _ _
    · exact (tidy.prepared _ _).intern (prepared_unfiled _ filed _)

end Requests

section Cells

/-- Every cell of a heap was in an earlier one, and was the same. -/
def CellsOf (before after : Heap) : Prop :=
  ∀ (id : ObjectId) (contents : Cell), after.get? id = some (.cell contents) →
    before.get? id = some (.cell contents)

theorem CellsOf.refl (heap : Heap) : CellsOf heap heap :=
  fun _ _ found => found

theorem CellsOf.set (cells : CellsOf before after) {id : ObjectId} {object : Object}
    (notCell : ∀ contents, object ≠ .cell contents) : CellsOf before (after.set id object) := by
  intro other contents found
  rw [get?_set] at found
  split at found
  · obtain ⟨_, _, same⟩ := Option.map_eq_some_iff.mp found
    exact absurd same (notCell contents)
  · exact cells _ _ found

variable {more : Unit → List ObjectId}

theorem CellsOf.allocate (cells : CellsOf before after) {object : Object}
    (notCell : ∀ contents, object ≠ .cell contents) :
    CellsOf before (stateLeft (Heap.allocate more object after)) := by
  intro id contents found
  rw [allocate_eq] at found
  dsimp only at found
  split at found
  · exact cells _ _ (get?_of_prepared found)
  · change (Heap.link _ object).get? id = _ at found
    rw [get?_link] at found
    split at found
    · exact absurd (Option.some.inj found) (notCell contents)
    · exact cells _ _ (get?_of_prepared found)

theorem CellsOf.intern (cells : CellsOf before after) (text : Text) :
    CellsOf before (stateLeft (Heap.intern more text after)) := by
  intro id contents found
  cases filed : after.interned[text]? with
  | some known =>
    rw [intern_of_filed _ filed] at found
    exact cells _ _ found
  | none =>
    rw [intern_of_unfiled _ filed] at found
    dsimp only at found
    split at found
    · exact cells _ _ (get?_of_prepared found)
    · change (Heap.file _ text).get? id = _ at found
      rw [get?_file] at found
      split at found
      · cases found
      · exact cells _ _ (get?_of_prepared found)

end Cells

section Collections

/-- Two heaps that are the same as far as the roots reach are the same after a collection. -/
theorem Retains.get?_collect (retains : Retains roots before after) (id : ObjectId) :
    (after.collect roots).get? id = (before.collect roots).get? id := by
  apply Option.ext
  intro object
  rw [Heap.get?_collect, Heap.get?_collect, retains.reaches]
  refine and_congr_left fun reached => ?_
  rw [retains.kept id reached]

theorem Retains.interned_collect (retains : Retains roots before after) (tidy : before.Tidy)
    (tidyAfter : after.Tidy) (text : Text) :
    (after.collect roots).interned[text]? = (before.collect roots).interned[text]? := by
  apply Option.ext
  intro id
  rw [(tidyAfter.collect roots).filed, (tidy.collect roots).filed, retains.get?_collect]

end Collections

end ScriptMachine.Heap
