import ScriptMachine.Proofs.Heap.Usage

set_option autoImplicit false

/- When a heap refuses. A request is refused exactly if a collection would not leave room for it, and
then nothing but that collection has happened; a request that is granted adds what it asks for to
what was there or to what a collection left, and to nothing else. -/
namespace ScriptMachine.Heap

/-- What a heap can be asked for: an object, or bytes that are held outside the object table. -/
inductive Demand where
  | string (text : Text)
  | function
  | closure (prototype : ObjectId)
  | cell (slot : Nat)
  | record (type : StructId) (fieldCount : Nat)
  | native (native : Native)
  | room (bytes : UInt64)

namespace Demand

/-- How many upvalues a closure over a prototype has. -/
def upvalueCount (heap : Heap) (prototype : ObjectId) : Nat :=
  ((heap.prototype? prototype).map fun body => body.captures.size).getD 0

/-- The object that is asked for. -/
def object? (heap : Heap) : Demand → Option Object
  | .string text => some (.string text)
  | .function => some (.function {})
  | .closure prototype =>
    some (.closure prototype (Array.replicate (upvalueCount heap prototype) none))
  | .cell slot => some (.cell (.onStack slot))
  | .record type fieldCount => some (.record type (Array.replicate fieldCount .nil))
  | .native host => some (.native host)
  | .room _ => none

/-- The bytes that are needed. -/
def need (heap : Heap) : Demand → Nat
  | .room bytes => bytes.toNat
  | demand => ((demand.object? heap).map Object.size).getD 0

/-- The operation of the heap that a demand is made with. Its result is the new object, if one was
asked for. -/
def make (roots : Unit → List ObjectId) : Demand → Action (Option ObjectId)
  | .string text => some <$> intern roots text
  | .function => some <$> newFunction roots
  | .closure prototype => some <$> newClosure roots prototype
  | .cell slot => some <$> newCell roots slot
  | .record type fieldCount => some <$> newRecord roots type fieldCount
  | .native host => some <$> newNative roots host
  | .room bytes => do
    reserve roots bytes
    return none

/-- A string is only made when its text has not been interned. -/
def New (heap : Heap) : Demand → Prop
  | .string text => heap.interned[text]? = none
  | _ => True

/-- A heap with what was asked for. -/
def grant (heap : Heap) : Demand → Heap → Heap
  | .string text, ready => ready.file text
  | .room bytes, ready => { ready with bytes := ready.bytes + bytes }
  | demand, ready => ((demand.object? heap).map ready.link).getD ready

variable {heap : Heap} {roots : Unit → List ObjectId}

theorem map_some_eq (action : Action ObjectId) (heap : Heap) :
    (some <$> action) heap =
      match action heap with
      | .ok id after => .ok (some id) after
      | .error failure after => .error failure after := by
  simp only [Functor.map, EStateM.map]
  cases action heap <;> rfl

theorem map_allocate_eq (object : Object) (heap : Heap) :
    (some <$> allocate roots object) heap =
      let bytes := UInt64.ofNat object.size
      let ready := heap.prepared roots bytes
      if ready.overLimit bytes then .error ⟨bytes, ready.config.limit⟩ ready
      else .ok (some ready.nextId) (ready.link object) := by
  rw [map_some_eq, allocate_eq]
  dsimp only [Nat.toUInt64]
  by_cases full : (heap.prepared roots (UInt64.ofNat object.size)).overLimit
      (UInt64.ofNat object.size) = true
  · simp only [full, ↓reduceIte]
  · simp only [full, Bool.false_eq_true, ↓reduceIte]

/-- Every demand is decided in the heap that is prepared for it. -/
theorem make_eq {demand : Demand} (new : demand.New heap) :
    demand.make roots heap =
      let bytes := UInt64.ofNat (demand.need heap)
      let ready := heap.prepared roots bytes
      if ready.overLimit bytes then .error ⟨bytes, ready.config.limit⟩ ready
      else .ok ((demand.object? heap).map fun _ => ready.nextId) (demand.grant heap ready) := by
  cases demand with
  | string text =>
    rw [make, map_some_eq, intern_of_unfiled roots new]
    simp only [Nat.toUInt64, need, object?, Option.map_some, Option.getD_some, grant]
    by_cases full : (heap.prepared roots (UInt64.ofNat (Object.string text).size)).overLimit
        (UInt64.ofNat (Object.string text).size) = true
    · simp only [full, ↓reduceIte]
    · simp only [full, Bool.false_eq_true, ↓reduceIte]
  | closure prototype =>
    have same : make roots (.closure prototype) heap = (some <$> allocate roots (.closure prototype
        (Array.replicate (upvalueCount heap prototype) none))) heap := rfl
    rw [same, map_allocate_eq]
    rfl
  | function | cell _ | record _ _ | native _ =>
    simp only [make, newFunction, newCell, newRecord, newNative, map_allocate_eq]
    rfl
  | room bytes =>
    have whole : UInt64.ofNat ((Demand.room bytes).need heap) = bytes := UInt64.ofNat_toNat
    rw [whole]
    simp only [make, bind, EStateM.bind, reserve_eq, grant, object?]
    by_cases full : (heap.prepared roots bytes).overLimit bytes = true
    · simp only [full, ↓reduceIte]
    · simp only [full, Bool.false_eq_true, ↓reduceIte]
      rfl

/-- What was granted is there, under a new identifier or as bytes of its own, besides what was there
before. -/
structure Granted (heap ready after : Heap) (demand : Demand) (result : Option ObjectId) : Prop where
  objects : ∀ id object, (id, object) ∈ after.listed ↔
    (id, object) ∈ ready.listed ∨ result = some id ∧ demand.object? heap = some object
  isNew : ∀ id, result = some id → ∀ object, (id, object) ∉ heap.listed
  answers : result.isSome = (demand.object? heap).isSome
  bytes : after.bytes.toNat = ready.bytes.toNat + demand.need heap
  count : after.objectCount = ready.objectCount + result.toList.length
  interned : ∀ text id, after.interned[text]? = some id ↔ (id, .string text) ∈ after.listed
  same : after.stats = ready.stats ∧ after.threshold = ready.threshold ∧ after.log = ready.log

theorem toNat_need {demand : Demand} (fits : demand.need heap < 2 ^ 64) :
    (UInt64.ofNat (demand.need heap)).toNat = demand.need heap :=
  UInt64.toNat_ofNat_of_lt' fits

theorem toNat_add_need {ready : Heap} {demand : Demand}
    (fits : ready.bytes.toNat + demand.need heap < 2 ^ 64) :
    (ready.bytes + UInt64.ofNat (demand.need heap)).toNat
      = ready.bytes.toNat + demand.need heap := by
  rw [UInt64.toNat_add, toNat_need (by omega), Nat.mod_eq_of_lt fits]

theorem overLimit_iff {ready : Heap} {demand : Demand}
    (fits : ready.bytes.toNat + demand.need heap < 2 ^ 64) :
    ready.overLimit (UInt64.ofNat (demand.need heap)) = true ↔
      ready.config.limit ≠ 0 ∧
        ready.config.limit.toNat < ready.bytes.toNat + demand.need heap := by
  rw [overLimit, Bool.and_eq_true, bne_iff_ne, decide_eq_true_eq, gt_iff_lt, UInt64.lt_iff_toNat_lt,
    toNat_add_need fits]

/-- A grant is a link, with an entry in the table of interned strings for a string, or a charge. -/
theorem grant_cases (demand : Demand) (ready : Heap) :
    (∃ text, demand = .string text ∧ demand.grant heap ready = ready.file text) ∨
    (∃ object, demand.object? heap = some object ∧ (∀ text, object ≠ .string text) ∧
      demand.grant heap ready = ready.link object) ∨
    (∃ bytes, demand = .room bytes ∧
      demand.grant heap ready = { ready with bytes := ready.bytes + bytes }) := by
  cases demand with
  | string text => exact Or.inl ⟨text, rfl, rfl⟩
  | room bytes => exact Or.inr (Or.inr ⟨bytes, rfl, rfl⟩)
  | function | closure _ | cell _ | record _ _ | native _ =>
    exact Or.inr (Or.inl ⟨_, rfl, nofun, rfl⟩)

theorem need_of_object {demand : Demand} {object : Object}
    (asked : demand.object? heap = some object) : demand.need heap = object.size := by
  cases demand with
  | room bytes => cases asked
  | string _ | function | closure _ | cell _ | record _ _ | native _ =>
    rw [need, asked, Option.map_some, Option.getD_some]
    all_goals nofun

theorem objectCount_link {ready : Heap} (tidy : ready.Tidy) (object : Object) :
    (ready.link object).objectCount = ready.objectCount + 1 := by
  have absent : ¬ ready.objects.contains ready.nextId = true := by
    rw [Std.TreeMap.contains_eq_isSome_getElem?, Bool.not_eq_true, Option.isSome_eq_false_iff,
      Option.isNone_iff_eq_none]
    exact tidy.absent
  rw [objectCount, link, Std.TreeMap.size_insert, if_neg absent, objectCount]

/-- What a demand that is granted adds to the heap that was prepared for it. -/
theorem granted {demand : Demand} {ready : Heap} (tidy : heap.Tidy) (readied : ready.Tidy)
    (next : ready.nextId = heap.nextId) (new : demand.New ready)
    (fits : ready.bytes.toNat + demand.need heap < 2 ^ 64) :
    Granted heap ready (demand.grant heap ready) demand
      ((demand.object? heap).map fun _ => ready.nextId) := by
  have grown := toNat_add_need fits
  have absent : ∀ object, (ready.nextId, object) ∉ heap.listed := by
    intro object member
    exact Nat.lt_irrefl _ (next ▸ tidy.bounded (mem_listed.mp member))
  have linked : ∀ (object : Object) (id : ObjectId) (other : Object),
      (id, other) ∈ (ready.link object).listed ↔
        (id, other) ∈ ready.listed ∨ ready.nextId = id ∧ object = other := by
    intro object id other
    rw [mem_listed, mem_listed, get?_link]
    split
    · next same =>
      subst same
      simp [readied.absent]
    · next apart => simp [apart]
  rcases @grant_cases heap demand ready with ⟨text, rfl, granted⟩ |
    ⟨object, asked, unnamed, granted⟩ | ⟨bytes, rfl, granted⟩
  · rw [granted]
    refine ⟨fun id object => ?_, fun id isId object => ?_, rfl, grown, ?_, ?_, rfl, rfl, rfl⟩
    · rw [show (ready.file text).listed = (ready.link (.string text)).listed from rfl, linked]
      simp [object?]
    · cases isId
      exact absent object
    · exact objectCount_link readied (.string text)
    · intro other id
      rw [(readied.intern new).filed, mem_listed]
  · rw [granted, asked]
    refine ⟨fun id other => ?_, fun id isId object => ?_, ?_, ?_, ?_, ?_, rfl, rfl, rfl⟩
    · rw [linked, asked]
      simp
    · cases isId
      exact absent object
    · rw [asked]
      rfl
    · rw [need_of_object asked] at grown ⊢
      exact grown
    · exact objectCount_link readied object
    · intro text id
      rw [(readied.link unnamed).filed, mem_listed]
  · rw [granted]
    have whole : UInt64.ofNat ((Demand.room bytes).need heap) = bytes := UInt64.ofNat_toNat
    rw [whole] at grown
    refine ⟨fun id object => ?_, nofun, rfl, grown, rfl, ?_, rfl, rfl, rfl⟩
    · have same : { ready with bytes := ready.bytes + bytes }.listed = ready.listed := rfl
      rw [same]
      simp [object?]
    · intro text id
      rw [mem_listed]
      exact readied.filed

end Demand

end ScriptMachine.Heap

namespace ScriptMachine.Collector

open Heap (Demand)

variable {collector : Collector} {external peak : Nat}

/-- A collection with some sources and pins leaves the heap that a request with their roots leaves
when it collects. -/
theorem collect_roots (rest : collector.marker.AtRest) (sources : List (List RootRequest))
    (pins : List (Option ObjectId)) :
    collector.heap.collect (roots sources pins) = (collect sources pins collector).heap := by
  have same : ∀ id, (collector.heap.marksFrom {} (roots sources pins)).marked.contains id
      = (collector.heap.marksFrom collector.marker (roots sources pins)).marked.contains id := by
    intro id
    rw [Bool.eq_iff_iff, Std.TreeSet.contains_iff_mem, Std.TreeSet.contains_iff_mem,
      Heap.mem_marksFrom Marker.atRest_new, Heap.mem_marksFrom rest]
  rw [collect_heap rest, Heap.collect_eq_swept]
  simp only [Heap.swept, same]

/-- How a demand is met, as against a collection with the same sources and pins. -/
structure Meets (structs : NodeId → Option StackStruct) (sources : List (List RootRequest))
    (pins : List (Option ObjectId)) (collector : Collector) (demand : Demand) : Prop where
  /-- It is refused exactly if the collection would not leave enough room. -/
  refuses : (∃ failure after,
      demand.make (fun _ => roots sources pins) collector.heap = .error failure after) ↔
    collector.heap.config.limit ≠ 0 ∧ collector.heap.config.limit.toNat
      < (collect sources pins collector).heap.bytes.toNat + demand.need collector.heap
  /-- Then the collection is all that has happened. -/
  refused : ∀ {failure : Exhausted} {after : Heap},
    demand.make (fun _ => roots sources pins) collector.heap = .error failure after →
    after = (collect sources pins collector).heap ∧
      failure = ⟨UInt64.ofNat (demand.need collector.heap), collector.heap.config.limit⟩
  /-- Else what is reachable is still there, and what was asked for is the one thing added. -/
  granted : ∀ {result : Option ObjectId} {after : Heap},
    demand.make (fun _ => roots sources pins) collector.heap = .ok result after →
    (∀ id object, (id, object) ∈ collector.heap.listed →
      collector.heap.Reachable structs sources pins id → (id, object) ∈ after.listed) ∧
    ∃ ready, (ready = collector.heap ∨ ready = (collect sources pins collector).heap) ∧
      Demand.Granted collector.heap ready after demand result

section Requests

variable {structs : NodeId → Option StackStruct} {sources : List (List RootRequest)}
  {pins : List (Option ObjectId)} {demand : Demand}

/-- Before a request is decided nothing has happened, and there is room, or a collection has. -/
theorem prepared_of_collect (rest : collector.marker.AtRest) (bytes : UInt64) :
    collector.heap.prepared (fun _ => roots sources pins) bytes = collector.heap ∧
        ¬ collector.heap.overLimit bytes = true ∨
      collector.heap.prepared (fun _ => roots sources pins) bytes
        = (collect sources pins collector).heap := by
  unfold Heap.prepared
  split
  · exact Or.inr (collect_roots rest sources pins)
  · next calm =>
    refine Or.inl ⟨rfl, fun full => calm ?_⟩
    rw [Heap.wantsCollection, full]
    simp

/-- A collection gives bytes back, and so leaves room for what there was room for. -/
theorem bytes_collect_le (steady : Steady collector external peak) (fits : peak < 2 ^ 64) :
    (collect sources pins collector).heap.bytes.toNat ≤ collector.heap.bytes.toNat := by
  rw [collect_heap steady.rest]
  exact UInt64.le_iff_toNat_le.mp (Heap.bytes_swept_le steady.accounted fits _)

theorem config_collect (rest : collector.marker.AtRest) :
    (collect sources pins collector).heap.config = collector.heap.config := by
  rw [collect_heap rest]
  rfl

/-- The answer to a demand in the heap that was prepared for it. -/
def answer (heap ready : Heap) (demand : Demand) : EStateM.Result Exhausted Heap (Option ObjectId) :=
  let bytes := UInt64.ofNat (demand.need heap)
  if ready.overLimit bytes then .error ⟨bytes, ready.config.limit⟩ ready
  else .ok ((demand.object? heap).map fun _ => ready.nextId) (demand.grant heap ready)

/-- Where there is room at once, there would be room after a collection as well. -/
theorem meets_of_room
    (made : demand.make (fun _ => roots sources pins) collector.heap
      = answer collector.heap collector.heap demand)
    (room : ¬ collector.heap.overLimit (UInt64.ofNat (demand.need collector.heap)) = true)
    (less : (collect sources pins collector).heap.bytes.toNat ≤ collector.heap.bytes.toNat)
    (fits : collector.heap.bytes.toNat + demand.need collector.heap < 2 ^ 64)
    (granted : Demand.Granted collector.heap collector.heap
      (demand.grant collector.heap collector.heap) demand
      ((demand.object? collector.heap).map fun _ => collector.heap.nextId)) :
    Meets structs sources pins collector demand := by
  simp only [answer, room, Bool.false_eq_true, ↓reduceIte] at made
  rw [Demand.overLimit_iff fits] at room
  refine ⟨⟨?_, fun full => absurd ⟨full.1, by omega⟩ room⟩, fun failed => ?_, fun done => ?_⟩
  · rintro ⟨failure, after, failed⟩
    rw [made] at failed
    cases failed
  · rw [made] at failed
    cases failed
  · rw [made] at done
    cases done
    exact ⟨fun id object member _ => (granted.objects id object).mpr (Or.inl member), _, Or.inl rfl,
      granted⟩

/-- After a collection the limit decides. -/
theorem meets_of_collected (rest : collector.marker.AtRest)
    (made : demand.make (fun _ => roots sources pins) collector.heap
      = answer collector.heap (collect sources pins collector).heap demand)
    (collected : Collected structs sources pins external peak collector
      (collect sources pins collector))
    (fits : (collect sources pins collector).heap.bytes.toNat + demand.need collector.heap < 2 ^ 64)
    (granted : Demand.Granted collector.heap (collect sources pins collector).heap
      (demand.grant collector.heap (collect sources pins collector).heap) demand
      ((demand.object? collector.heap).map fun _ => (collect sources pins collector).heap.nextId)) :
    Meets structs sources pins collector demand := by
  have limit := Demand.overLimit_iff fits
  rw [config_collect rest] at limit
  by_cases full : (collect sources pins collector).heap.overLimit
      (UInt64.ofNat (demand.need collector.heap)) = true
  · simp only [answer, full, ↓reduceIte, config_collect rest] at made
    refine ⟨⟨fun _ => limit.mp full, fun _ => ⟨_, _, made⟩⟩, fun failed => ?_, fun done => ?_⟩
    · rw [made] at failed
      cases failed
      exact ⟨rfl, rfl⟩
    · rw [made] at done
      cases done
  · simp only [answer, full, Bool.false_eq_true, ↓reduceIte] at made
    refine ⟨⟨?_, fun isFull => absurd (limit.mpr isFull) full⟩, fun failed => ?_, fun done => ?_⟩
    · rintro ⟨failure, after, failed⟩
      rw [made] at failed
      cases failed
    · rw [made] at failed
      cases failed
    · rw [made] at done
      cases done
      refine ⟨fun id object member reachable => ?_, _, Or.inr rfl, granted⟩
      exact (granted.objects id object).mpr
        (Or.inl ((collected.kept id object).mpr ⟨member, reachable⟩))

end Requests

/-- A request is refused exactly if what a collection would leave, with the bytes requested, is more
than the limit. A refused request leaves the heap as that collection does; a granted one adds what was
asked for and takes away nothing that is reachable. -/
theorem refused_iff_full_after_collection (built : Built collector external peak)
    (structs : NodeId → Option StackStruct) (sources : List (List RootRequest))
    (pins : List (Option ObjectId)) {demand : Demand} (new : demand.New collector.heap)
    (fits : max peak (Heap.bytesOf collector.heap.listed + external + demand.need collector.heap)
      < 2 ^ 64) :
    Meets structs sources pins collector demand := by
  have steady := built.steady
  obtain ⟨few, counted⟩ := Nat.max_lt.mp fits
  rw [← steady.accounted.exact few] at counted
  have less : (collect sources pins collector).heap.bytes.toNat ≤ collector.heap.bytes.toNat :=
    bytes_collect_le steady few
  let bytes := UInt64.ofNat (demand.need collector.heap)
  have made : demand.make (fun _ => roots sources pins) collector.heap = answer collector.heap
      (collector.heap.prepared (fun _ => roots sources pins) bytes) demand := Demand.make_eq new
  have readied := steady.tidy.prepared (fun _ => roots sources pins) bytes
  have next := collector.heap.prepared_nextId (fun _ => roots sources pins) bytes
  have newly : demand.New (collector.heap.prepared (fun _ => roots sources pins) bytes) := by
    cases demand with
    | string text => exact Heap.prepared_unfiled _ new _
    | _ => trivial
  rcases @prepared_of_collect _ sources pins steady.rest bytes with ⟨same, room⟩ | same
  · rw [same] at made readied next newly
    exact meets_of_room made room less counted
      (Demand.granted steady.tidy readied next newly counted)
  · rw [same] at made readied next newly
    have counted := Nat.lt_of_le_of_lt (Nat.add_le_add_right less _) counted
    exact meets_of_collected steady.rest made (steady.collected structs sources pins) counted
      (Demand.granted steady.tidy readied next newly counted)

/-- A heap with room for one more cell at most, of which no source knows any. -/
def crowded : Collector where
  heap := stateLeft (Heap.newCell (fun _ => []) 0 (.empty { limit := 100 }))

theorem built_crowded : Built crowded 0 80 :=
  (Built.start { limit := 100 }).request (.cell 0) rfl

/-- While the cell is pinned there is no room for another; without the pin there is. -/
theorem refused_iff_full_after_collection_crowded :
    Meets (fun _ => none) [] [some 0] crowded (.cell 1) ∧ Meets (fun _ => none) [] [] crowded (.cell 1) :=
  have small : max 80 (Heap.bytesOf crowded.heap.listed + 0 + Demand.need crowded.heap (.cell 1))
      < 2 ^ 64 := by decide +kernel
  ⟨refused_iff_full_after_collection built_crowded _ [] [some 0] trivial small,
    refused_iff_full_after_collection built_crowded _ [] [] trivial small⟩

end ScriptMachine.Collector
