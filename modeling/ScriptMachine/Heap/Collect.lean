import Std.Data.TreeSet
import ScriptMachine.Heap
import ScriptMachine.StackStruct

set_option autoImplicit false

/- Collection. Sources of roots have objects marked, the marker follows references until no gray
object is left, and the sweep drops what is not marked. -/
namespace ScriptMachine

/-- What the marker of a heap is at: whether a collection is under way, which objects are marked,
and which of those have not been looked through yet. -/
structure Marker where
  collecting : Bool := false
  marked : Std.TreeSet ObjectId := {}
  gray : List ObjectId := []

/-- A heap with its marker, which is at rest between collections. -/
structure Collector where
  heap : Heap
  marker : Marker := {}

/-- What a source of roots can ask for when a collection wants its roots. -/
inductive RootRequest where
  | object (id : ObjectId)
  | struct (contents : StackStruct)
  | collect

namespace Heap

/-- Marks an object that is not marked yet, and remembers to look through it. -/
def mark (heap : Heap) (marker : Marker) (id : ObjectId) : Marker :=
  if heap.objects.contains id && !marker.marked.contains id then
    { marker with marked := marker.marked.insert id, gray := id :: marker.gray }
  else marker

def markAll (heap : Heap) (marker : Marker) (ids : List ObjectId) : Marker :=
  ids.foldl heap.mark marker

/-- How many objects are not marked. -/
def whiteCount (heap : Heap) (marker : Marker) : Nat :=
  heap.objects.keys.countP fun id => !marker.marked.contains id

theorem countP_lt {α : Type} {p q : α → Bool} {list : List α} {item : α} (member : item ∈ list)
    (fewer : ∀ other, q other = true → p other = true) (before : p item = true)
    (after : q item = false) : list.countP q < list.countP p := by
  induction list with
  | nil => cases member
  | cons first rest ih =>
    rw [List.countP_cons, List.countP_cons]
    have less : rest.countP q ≤ rest.countP p := List.countP_mono_left fun other _ => fewer other
    rcases List.mem_cons.mp member with rfl | later
    · simp only [before, after, Bool.false_eq_true, ↓reduceIte]
      omega
    · have strict := ih later
      have head := fewer first
      split <;> split <;> simp_all <;> omega

/-- A newly marked object is no longer white, but gray. -/
theorem whiteCount_mark (heap : Heap) (marker : Marker) (id : ObjectId) :
    heap.whiteCount (heap.mark marker id) + (heap.mark marker id).gray.length
      ≤ heap.whiteCount marker + marker.gray.length := by
  unfold mark
  split
  · next new =>
    simp only [Bool.and_eq_true, Bool.not_eq_true'] at new
    have fewer : heap.objects.keys.countP (fun other => !(marker.marked.insert id).contains other)
        < heap.objects.keys.countP fun other => !marker.marked.contains other := by
      have white : id ∈ heap.objects.keys := by
        rw [Std.TreeMap.mem_keys]
        exact Std.TreeMap.mem_iff_contains.mpr new.1
      refine countP_lt white ?_ ?_ ?_
      · intro other
        simp only [Std.TreeSet.contains_insert, Bool.not_eq_true', Bool.or_eq_false_iff]
        exact fun absent => absent.2
      · simp [new.2]
      · simp
    simp only [whiteCount, List.length_cons]
    omega
  · exact Nat.le_refl _

theorem whiteCount_markAll (heap : Heap) (marker : Marker) (ids : List ObjectId) :
    heap.whiteCount (heap.markAll marker ids) + (heap.markAll marker ids).gray.length
      ≤ heap.whiteCount marker + marker.gray.length := by
  induction ids generalizing marker with
  | nil => exact Nat.le_refl _
  | cons id rest ih => exact Nat.le_trans (ih (heap.mark marker id)) (whiteCount_mark heap marker id)

/-- The objects that the object with an identifier refers to. -/
def successors (heap : Heap) (id : ObjectId) : List ObjectId :=
  ((heap.get? id).map Object.references).getD []

/-- Looks through gray objects, and through those that become gray by it, until none is left. -/
def trace (heap : Heap) (marker : Marker) : Marker :=
  match _ : marker.gray with
  | [] => marker
  | id :: rest => heap.trace (heap.markAll { marker with gray := rest } (heap.successors id))
termination_by heap.whiteCount marker + marker.gray.length
decreasing_by
  have := whiteCount_markAll heap { marker with gray := rest } (heap.successors id)
  simp only [whiteCount, ‹marker.gray = _›, List.length_cons] at this ⊢
  omega

/-- The sum of the sizes of some objects. -/
def totalSize (objects : Std.TreeMap ObjectId Object) : UInt64 :=
  objects.foldl (fun sum _ object => sum + object.size.toUInt64) 0

/-- The integer part of a number as a 64-bit word. Negative numbers wrap; a number that is
too large gives zero, and one that is too small or not a number gives `2 ^ 63`. -/
def wordOfFloat (value : Float) : UInt64 :=
  if value < 9223372036854775808.0 then
    if 0.0 ≤ value then value.toUInt64
    else if -9223372036854775808.0 ≤ value then 0 - (-value).toUInt64
    else 9223372036854775808
  else if value < 18446744073709551616.0 then value.toUInt64
  else if value.isNaN then 9223372036854775808
  else 0

/-- The threshold after a collection that left `bytes`. -/
def thresholdAfter (config : HeapConfig) (bytes : UInt64) : UInt64 :=
  max config.minThreshold (wordOfFloat (bytes.toFloat * config.growthFactor))

/-- The log line of a collection. -/
def collectionLine (stats : HeapStats) : Text :=
  ascii "cycle " ++ Text.ofNat stats.cycles ++ ascii ": " ++ Text.ofNat stats.lastBefore.toNat
    ++ ascii " -> " ++ Text.ofNat stats.lastAfter.toNat ++ ascii " bytes (freed "
    ++ Text.ofNat stats.lastFreed.toNat ++ ascii ", " ++ Text.ofNat stats.liveObjects
    ++ ascii " objects live), next at " ++ Text.ofNat stats.lastThreshold.toNat

/-- Drops every object that is not marked, together with its intern entry. -/
def swept (heap : Heap) (marked : Std.TreeSet ObjectId) : Heap :=
  let objects := heap.objects.filter fun id _ => marked.contains id
  let freed := totalSize (heap.objects.filter fun id _ => !marked.contains id)
  let bytes := heap.bytes - freed
  let threshold := thresholdAfter heap.config bytes
  let stats : HeapStats :=
    { cycles := heap.stats.cycles + 1
      totalFreed := heap.stats.totalFreed + freed
      lastBefore := heap.bytes
      lastFreed := freed
      lastAfter := bytes
      lastThreshold := threshold
      liveObjects := objects.size }
  { heap with
    objects
    interned := heap.interned.filter fun _ id => marked.contains id
    bytes, threshold, stats
    log := if heap.config.logCollections then collectionLine stats :: heap.log else heap.log }

end Heap

namespace Collector

/-- Does what a source of roots asks for. `again` is the collection it may ask for. -/
def serve (again : Collector → Collector) (collector : Collector) : RootRequest → Collector
  | .object id => { collector with marker := collector.heap.mark collector.marker id }
  | .struct contents =>
    { collector with marker := collector.heap.markAll collector.marker contents.references }
  | .collect => again collector

/-- Drops what is not marked, and clears the marks of what stays. -/
def sweep (collector : Collector) : Collector :=
  let heap := collector.heap
  { heap := heap.swept collector.marker.marked
    marker := { collector.marker with
      collecting := false
      marked := collector.marker.marked.filter fun id => !heap.objects.contains id } }

/-- A collection in which sources that ask for another one get `again`. There are `sources` of
roots, and `pins` for objects that something under construction holds. -/
def pass (again : Collector → Collector) (sources : List (List RootRequest))
    (pins : List (Option ObjectId)) (collector : Collector) : Collector :=
  if collector.marker.collecting then collector
  else
    let begun := { collector with marker := { collector.marker with collecting := true } }
    let served := sources.flatten.foldl (serve again) begun
    let pinned := served.heap.markAll served.marker (pins.filterMap id)
    sweep { served with marker := served.heap.trace pinned }

/-- A collection. One that a source asks for meanwhile finds the collector at work, and so leaves
it as it is. -/
def collect (sources : List (List RootRequest)) (pins : List (Option ObjectId)) :
    Collector → Collector :=
  pass id sources pins

end Collector

namespace Heap

/-- Drops every object that the roots do not reach. -/
def collect (heap : Heap) (roots : List ObjectId) : Heap :=
  (Collector.collect [roots.map .object] [] { heap }).heap

end Heap

end ScriptMachine
