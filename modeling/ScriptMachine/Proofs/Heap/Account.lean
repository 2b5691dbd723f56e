import Mathlib
import ScriptMachine.Proofs.Heap.Plain

set_option autoImplicit false

/- Byte counts against the objects they count. The count is a word, so it is exact only as long
as it has not wrapped; the most that was ever charged at once tells whether it has. -/
namespace ScriptMachine.Heap

/-- The objects of a heap with their identifiers, the newest first. -/
def listed (heap : Heap) : List (ObjectId × Object) :=
  heap.objects.toList.reverse

theorem mem_listed {heap : Heap} {id : ObjectId} {object : Object} :
    (id, object) ∈ heap.listed ↔ heap.get? id = some object := by
  rw [listed, List.mem_reverse, Std.TreeMap.mem_toList_iff_getElem?_eq_some]
  rfl

/-- The bytes that some objects are charged with. -/
def bytesOf (entries : List (ObjectId × Object)) : Nat :=
  (entries.map fun entry => entry.2.size).sum

@[simp] theorem bytesOf_nil : bytesOf [] = 0 := rfl

@[simp] theorem bytesOf_cons (entry : ObjectId × Object) (rest : List (ObjectId × Object)) :
    bytesOf (entry :: rest) = entry.2.size + bytesOf rest := by
  rw [bytesOf, List.map_cons, List.sum_cons, bytesOf]

@[simp] theorem bytesOf_reverse (entries : List (ObjectId × Object)) :
    bytesOf entries.reverse = bytesOf entries := by
  rw [bytesOf, List.map_reverse, List.sum_reverse, bytesOf]

/-- Splitting objects by a test splits their bytes. -/
theorem bytesOf_filter (test : ObjectId × Object → Bool) (entries : List (ObjectId × Object)) :
    bytesOf (entries.filter test) + bytesOf (entries.filter fun entry => !test entry)
      = bytesOf entries := by
  induction entries with
  | nil => rfl
  | cons entry rest ih =>
    rw [List.filter_cons, List.filter_cons, bytesOf_cons, ← ih]
    cases test entry <;> simp <;> omega

theorem totalSize_eq (objects : Std.TreeMap ObjectId Object) :
    totalSize objects = UInt64.ofNat (bytesOf objects.toList) := by
  have summed : ∀ (entries : List (ObjectId × Object)) (start : Nat),
      entries.foldl (fun sum entry => sum + entry.2.size.toUInt64) (UInt64.ofNat start)
        = UInt64.ofNat (start + bytesOf entries) := by
    intro entries
    induction entries with
    | nil => simp
    | cons entry rest ih =>
      intro start
      rw [List.foldl_cons, bytesOf_cons, ← Nat.add_assoc, ← ih, UInt64.ofNat_add]
  rw [totalSize, Std.TreeMap.foldl_eq_foldl_toList, ← Nat.zero_add (bytesOf _), ← summed]
  rfl

section Operations

variable {heap other : Heap} {object old : Object} {id : ObjectId} {external peak : Nat}

theorem bytesOf_link (absent : heap.get? heap.nextId = none) :
    bytesOf (heap.link object).listed = object.size + bytesOf heap.listed := by
  have all : heap.objects.toList.filter (fun entry => decide ¬(heap.nextId == entry.1) = true)
      = heap.objects.toList := by
    rw [List.filter_eq_self]
    rintro ⟨id, found⟩ member
    have present : heap.get? id = some found := Std.TreeMap.mem_toList_iff_getElem?_eq_some.mp member
    have apart : heap.nextId ≠ id := by
      rintro rfl
      rw [absent] at present
      cases present
    simpa using apart
  have inserted : (heap.link object).objects.toList.Perm
      ((heap.nextId, object) :: heap.objects.toList) := by
    rw [← all]
    exact Std.TreeMap.toList_insert_perm
  rw [listed, bytesOf_reverse, bytesOf, (inserted.map _).sum_eq, ← bytesOf, bytesOf_cons, listed,
    bytesOf_reverse]

/-- Only the sizes of the objects matter. -/
theorem bytesOf_congr
    (same : ∀ id, (other.get? id).map Object.size = (heap.get? id).map Object.size) :
    bytesOf other.listed = bytesOf heap.listed := by
  -- Both lists name each identifier once, so the pairs of identifier and size are the same.
  have distinct : ∀ heap : Heap,
      (heap.objects.toList.map fun entry => (entry.1, entry.2.size)).Nodup := by
    intro heap
    have keys := Std.TreeMap.nodup_keys (t := heap.objects)
    rw [← Std.TreeMap.map_fst_toList_eq_keys] at keys
    refine List.Nodup.of_map Prod.fst ?_
    rw [List.map_map]
    exact keys
  have member : ∀ (heap : Heap) (pair : ObjectId × Nat),
      pair ∈ heap.objects.toList.map (fun entry => (entry.1, entry.2.size)) ↔
        (heap.get? pair.1).map Object.size = some pair.2 := by
    intro heap pair
    rw [List.mem_map, Option.map_eq_some_iff]
    constructor
    · rintro ⟨entry, inside, rfl⟩
      exact ⟨entry.2, Std.TreeMap.mem_toList_iff_getElem?_eq_some.mp inside, rfl⟩
    · rintro ⟨object, present, size⟩
      refine ⟨(pair.1, object), Std.TreeMap.mem_toList_iff_getElem?_eq_some.mpr present, ?_⟩
      rw [size]
  have pairs : (other.objects.toList.map fun entry => (entry.1, entry.2.size)).Perm
      (heap.objects.toList.map fun entry => (entry.1, entry.2.size)) := by
    rw [List.perm_ext_iff_of_nodup (distinct other) (distinct heap)]
    intro pair
    rw [member, member, same]
  have sums := (pairs.map Prod.snd).sum_eq
  rw [List.map_map, List.map_map] at sums
  rw [listed, listed, bytesOf_reverse, bytesOf_reverse]
  exact sums

/-- The objects that a sweep drops. -/
def dropped (before after : Heap) : List (ObjectId × Object) :=
  before.listed.filter fun entry => !after.objects.contains entry.1

theorem listed_swept (heap : Heap) (marked : Std.TreeSet ObjectId) :
    (heap.swept marked).listed = heap.listed.filter fun entry => marked.contains entry.1 := by
  rw [listed, listed, List.filter_reverse]
  exact congrArg List.reverse Std.TreeMap.toList_filter

theorem dropped_swept (heap : Heap) (marked : Std.TreeSet ObjectId) :
    dropped heap (heap.swept marked)
      = heap.listed.filter fun entry => !marked.contains entry.1 := by
  refine List.filter_congr fun entry member => ?_
  have present := mem_listed.mp member
  have kept : (heap.swept marked).objects.contains entry.1 = marked.contains entry.1 := by
    rw [Bool.eq_iff_iff, Std.TreeMap.contains_iff_mem, Std.TreeSet.contains_iff_mem,
      Std.TreeMap.mem_iff_isSome_getElem?, Option.isSome_iff_exists]
    constructor
    · rintro ⟨object, found⟩
      exact (get?_swept.mp found).2
    · exact fun isMarked => ⟨entry.2, get?_swept.mpr ⟨present, isMarked⟩⟩
  rw [kept]

theorem bytesOf_swept (heap : Heap) (marked : Std.TreeSet ObjectId) :
    bytesOf (heap.swept marked).listed + bytesOf (dropped heap (heap.swept marked))
      = bytesOf heap.listed := by
  rw [listed_swept, dropped_swept]
  exact bytesOf_filter (fun entry => marked.contains entry.1) heap.listed

theorem lastFreed_swept (heap : Heap) (marked : Std.TreeSet ObjectId) :
    (heap.swept marked).stats.lastFreed
      = UInt64.ofNat (bytesOf (dropped heap (heap.swept marked))) := by
  rw [dropped_swept, listed, List.filter_reverse, bytesOf_reverse]
  change totalSize (heap.objects.filter fun id _ => !marked.contains id) = _
  rw [totalSize_eq, Std.TreeMap.toList_filter]

/-- The byte count counts the objects and what is reserved besides, as long as that never came
to more than a word holds. -/
structure Accounted (heap : Heap) (external peak : Nat) : Prop where
  charged : bytesOf heap.listed + external ≤ peak
  exact : peak < 2 ^ 64 → heap.bytes.toNat = bytesOf heap.listed + external

theorem accounted_empty (config : HeapConfig) : (empty config).Accounted 0 0 := by
  have none : (empty config).listed = [] := by
    rw [List.eq_nil_iff_forall_not_mem]
    rintro ⟨id, object⟩ member
    rw [mem_listed, get?_empty] at member
    cases member
  exact ⟨by simp [none], fun _ => by rw [none]; rfl⟩

theorem Accounted.swept (accounted : heap.Accounted external peak)
    (marked : Std.TreeSet ObjectId) : (heap.swept marked).Accounted external peak := by
  have split := bytesOf_swept heap marked
  have total := accounted.charged
  refine ⟨by omega, fun fits => ?_⟩
  have before := accounted.exact fits
  have freed : (UInt64.ofNat (bytesOf (dropped heap (heap.swept marked)))).toNat
      = bytesOf (dropped heap (heap.swept marked)) := by
    rw [UInt64.toNat_ofNat']
    omega
  have less : (heap.swept marked).bytes = heap.bytes - (heap.swept marked).stats.lastFreed := rfl
  rw [less, lastFreed_swept, UInt64.toNat_sub_of_le _ _ (by rw [UInt64.le_iff_toNat_le]; omega)]
  omega

theorem Accounted.prepared (accounted : heap.Accounted external peak)
    (roots : Unit → List ObjectId) (bytes : UInt64) :
    (heap.prepared roots bytes).Accounted external peak := by
  rcases prepared_cases heap roots bytes with same | collected
  · rwa [same]
  · rw [collected, collect_eq_swept]
    exact accounted.swept _

theorem Accounted.link (accounted : heap.Accounted external peak)
    (absent : heap.get? heap.nextId = none) :
    (heap.link object).Accounted external
      (max peak (bytesOf (heap.link object).listed + external)) := by
  refine ⟨Nat.le_max_right .., fun fits => ?_⟩
  have before := accounted.exact (by omega)
  have total : bytesOf (heap.link object).listed = object.size + bytesOf heap.listed :=
    bytesOf_link absent
  have grown : (heap.link object).bytes = heap.bytes + UInt64.ofNat object.size := rfl
  rw [grown, UInt64.toNat_add, UInt64.toNat_ofNat']
  omega

theorem Accounted.file (accounted : heap.Accounted external peak)
    (absent : heap.get? heap.nextId = none) (text : Text) :
    (heap.file text).Accounted external
      (max peak (bytesOf (heap.file text).listed + external)) := by
  have linked : (heap.link (.string text)).Accounted external _ := accounted.link absent
  exact ⟨linked.charged, linked.exact⟩

theorem bytesOf_set (size : ∀ old, heap.get? id = some old → object.size = old.size) :
    bytesOf (heap.set id object).listed = bytesOf heap.listed := by
  refine bytesOf_congr fun other => ?_
  rw [get?_set]
  split
  · next here =>
    subst here
    cases present : heap.get? id with
    | none => rfl
    | some old => simp [size old present]
  · rfl

theorem same_size (present : heap.get? id = some old) (size : object.size = old.size) :
    ∀ other, heap.get? id = some other → object.size = other.size := by
  intro other here
  cases present.symm.trans here
  exact size

theorem Accounted.set (accounted : heap.Accounted external peak)
    (present : heap.get? id = some old) (size : object.size = old.size) :
    (heap.set id object).Accounted external peak := by
  have same := bytesOf_set (same_size present size)
  refine ⟨by rw [same]; exact accounted.charged, fun fits => ?_⟩
  rw [same]
  exact accounted.exact fits

theorem Accounted.reserve (accounted : heap.Accounted external peak) (bytes : UInt64) :
    { heap with bytes := heap.bytes + bytes }.Accounted (external + bytes.toNat)
      (max peak (bytesOf heap.listed + external + bytes.toNat)) := by
  have same : bytesOf { heap with bytes := heap.bytes + bytes }.listed = bytesOf heap.listed := rfl
  refine ⟨by omega, fun fits => ?_⟩
  have before := accounted.exact (by omega)
  rw [same, UInt64.toNat_add]
  omega

theorem Accounted.release {bytes : UInt64} (accounted : heap.Accounted external peak)
    (reserved : bytes.toNat ≤ external) :
    (heap.release bytes).Accounted (external - bytes.toNat) peak := by
  have total := accounted.charged
  have same : bytesOf (heap.release bytes).listed = bytesOf heap.listed := rfl
  refine ⟨by omega, fun fits => ?_⟩
  have before := accounted.exact fits
  have enough : bytes ≤ heap.bytes := by
    rw [UInt64.le_iff_toNat_le]
    omega
  have left : (heap.release bytes).bytes = heap.bytes - bytes := by
    have least : min bytes heap.bytes = bytes := if_pos enough
    rw [Heap.release, least]
  rw [left, UInt64.toNat_sub_of_le _ _ enough, same]
  omega

end Operations

section Words

variable {heap other : Heap} {object old : Object} {id : ObjectId} {external : Nat}

/-- As far as a word can tell, the byte count counts the objects and what is reserved besides. It
stays so when the count wraps, unless more is given back than the word shows. -/
def Tallies (heap : Heap) (external : Nat) : Prop :=
  heap.bytes = UInt64.ofNat (bytesOf heap.listed + external)

theorem tallies_empty (config : HeapConfig) : (empty config).Tallies 0 := by
  have counted := (accounted_empty config).exact (by decide)
  rw [Tallies, ← counted, UInt64.ofNat_toNat]

theorem Tallies.toNat (tallies : heap.Tallies external)
    (fits : bytesOf heap.listed + external < 2 ^ 64) :
    heap.bytes.toNat = bytesOf heap.listed + external := by
  rw [tallies, UInt64.toNat_ofNat_of_lt' fits]

theorem Tallies.recount (tallies : heap.Tallies external) (objects : other.objects = heap.objects)
    (bytes : other.bytes = heap.bytes) : other.Tallies external := by
  rw [Tallies, listed, objects, bytes]
  exact tallies

theorem Tallies.swept (tallies : heap.Tallies external) (marked : Std.TreeSet ObjectId) :
    (heap.swept marked).Tallies external := by
  have less : (heap.swept marked).bytes = heap.bytes - (heap.swept marked).stats.lastFreed := rfl
  rw [Tallies, less, lastFreed_swept, tallies, ← bytesOf_swept heap marked, Nat.add_right_comm,
    UInt64.ofNat_add, UInt64.add_sub_cancel]

theorem Tallies.collect (tallies : heap.Tallies external) (roots : List ObjectId) :
    (heap.collect roots).Tallies external := by
  rw [collect_eq_swept]
  exact tallies.swept _

theorem Tallies.prepared (tallies : heap.Tallies external) (roots : Unit → List ObjectId)
    (bytes : UInt64) : (heap.prepared roots bytes).Tallies external := by
  rcases prepared_cases heap roots bytes with same | collected
  · rwa [same]
  · rw [collected]
    exact tallies.collect _

theorem Tallies.link (tallies : heap.Tallies external) (absent : heap.get? heap.nextId = none) :
    (heap.link object).Tallies external := by
  have grown : (heap.link object).bytes = heap.bytes + UInt64.ofNat object.size := rfl
  rw [Tallies, grown, tallies, bytesOf_link absent, ← UInt64.ofNat_add]
  congr 1
  omega

theorem Tallies.file (tallies : heap.Tallies external) (absent : heap.get? heap.nextId = none)
    (text : Text) : (heap.file text).Tallies external :=
  (tallies.link absent : (heap.link (.string text)).Tallies external).recount rfl rfl

theorem Tallies.set (tallies : heap.Tallies external)
    (size : ∀ old, heap.get? id = some old → object.size = old.size) :
    (heap.set id object).Tallies external := by
  rw [Tallies, bytesOf_set size]
  exact tallies

/-- An allocation counts what it adds, and one that is refused adds nothing. -/
theorem Tallies.allocate (tallies : heap.Tallies external) (tidy : heap.Tidy)
    (roots : Unit → List ObjectId) : (stateLeft (allocate roots object heap)).Tallies external := by
  have ready := tallies.prepared roots object.size.toUInt64
  have absent := (tidy.prepared roots object.size.toUInt64).absent
  rw [allocate_eq]
  dsimp only
  split
  · exact ready
  · exact ready.link absent

theorem Tallies.intern (tallies : heap.Tallies external) (tidy : heap.Tidy)
    (roots : Unit → List ObjectId) (text : Text) :
    (stateLeft (intern roots text heap)).Tallies external := by
  cases filed : heap.interned[text]? with
  | some id =>
    rw [intern_of_filed roots filed]
    exact tallies
  | none =>
    have ready := tallies.prepared roots (Object.string text).size.toUInt64
    have absent := (tidy.prepared roots (Object.string text).size.toUInt64).absent
    rw [intern_of_unfiled roots filed]
    dsimp only
    split
    · exact ready
    · exact ready.file absent text

theorem Tallies.reserve (tallies : heap.Tallies external) (bytes : Nat) :
    { heap with bytes := heap.bytes + UInt64.ofNat bytes }.Tallies (external + bytes) := by
  have same : bytesOf { heap with bytes := heap.bytes + UInt64.ofNat bytes }.listed
      = bytesOf heap.listed := rfl
  rw [Tallies, same, ← Nat.add_assoc, UInt64.ofNat_add, ← tallies]

/-- What was reserved can be given back, and nothing is cut off. -/
theorem Tallies.release_eq (tallies : heap.Tallies external)
    (fits : bytesOf heap.listed + external < 2 ^ 64) {bytes : Nat} (reserved : bytes ≤ external) :
    (heap.release (UInt64.ofNat bytes)).bytes = heap.bytes - UInt64.ofNat bytes := by
  have least : min (UInt64.ofNat bytes) heap.bytes = UInt64.ofNat bytes := by
    have below : bytes ≤ bytesOf heap.listed + external := by omega
    refine if_pos (UInt64.le_iff_toNat_le.mpr ?_)
    rw [tallies.toNat fits, UInt64.toNat_ofNat_of_lt' (Nat.lt_of_le_of_lt below fits)]
    exact below
  rw [release, least]

theorem Tallies.release (tallies : heap.Tallies external)
    (fits : bytesOf heap.listed + external < 2 ^ 64) {bytes : Nat} (reserved : bytes ≤ external) :
    (heap.release (UInt64.ofNat bytes)).Tallies (external - bytes) := by
  have same : bytesOf (heap.release (UInt64.ofNat bytes)).listed = bytesOf heap.listed := rfl
  have split : bytesOf heap.listed + external = bytesOf heap.listed + (external - bytes) + bytes := by
    omega
  rw [Tallies, tallies.release_eq fits reserved, same, tallies, split, UInt64.ofNat_add,
    UInt64.add_sub_cancel]

end Words

end ScriptMachine.Heap
