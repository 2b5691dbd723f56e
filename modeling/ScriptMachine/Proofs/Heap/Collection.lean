import ScriptMachine.Proofs.Heap.Account

set_option autoImplicit false

/- What a collection does to a heap that the heap's own operations have built: it keeps exactly
the objects that are reachable, in their order and as they were, and its figures add up. -/
namespace ScriptMachine

section Edges

/-- The objects in the current fields of a struct, nested structs included. -/
inductive StackStruct.Names : StackStruct → ObjectId → Prop where
  | field {struct : StackStruct} {id : ObjectId} :
      Slot.plain (.ref id) ∈ struct.slots → Names struct id
  | nested {struct inner : StackStruct} {id : ObjectId} :
      Slot.nested inner ∈ struct.slots → Names inner id → Names struct id

/-- The objects a value leads to: the one it names, or those in the fields of the struct it
names. `structs` has the structs that frames own. -/
inductive Value.LeadsTo (structs : NodeId → Option StackStruct) : Value → ObjectId → Prop where
  | object {id : ObjectId} : LeadsTo structs (.ref id) id
  | struct {node : NodeId} {contents : StackStruct} {id : ObjectId} :
      structs node = some contents → contents.Names id → LeadsTo structs (.stack node) id

/-- The objects an object leads to. -/
inductive Object.LeadsTo (structs : NodeId → Option StackStruct) : Object → ObjectId → Prop where
  | name {prototype : Prototype} {id : ObjectId} :
      prototype.name = some id → LeadsTo structs (.function prototype) id
  | constant {prototype : Prototype} {value : Value} {id : ObjectId} :
      value ∈ prototype.constants → value.LeadsTo structs id →
      LeadsTo structs (.function prototype) id
  | prototype {id : ObjectId} {upvalues : Array (Option ObjectId)} :
      LeadsTo structs (.closure id upvalues) id
  | upvalue {prototype id : ObjectId} {upvalues : Array (Option ObjectId)} :
      some id ∈ upvalues → LeadsTo structs (.closure prototype upvalues) id
  | closed {value : Value} {id : ObjectId} :
      value.LeadsTo structs id → LeadsTo structs (.cell (.closed value)) id
  | field {type : StructId} {fields : Array Value} {value : Value} {id : ObjectId} :
      value ∈ fields → value.LeadsTo structs id → LeadsTo structs (.record type fields) id

variable {structs : NodeId → Option StackStruct} {id : ObjectId}

mutual

theorem StackStruct.mem_references (struct : StackStruct) :
    id ∈ struct.references ↔ struct.Names id := by
  match struct with
  | .node _ _ slots displaced =>
    rw [StackStruct.references, mem_slotReferences slots]
    constructor
    · rintro (plain | ⟨inner, member, names⟩)
      · exact .field plain
      · exact .nested member names
    · intro names
      cases names with
      | field plain => exact Or.inl plain
      | nested member names => exact Or.inr ⟨_, member, names⟩

theorem StackStruct.mem_slotReferences (slots : List Slot) :
    id ∈ StackStruct.slotReferences slots ↔ Slot.plain (.ref id) ∈ slots ∨
      ∃ inner, Slot.nested inner ∈ slots ∧ inner.Names id := by
  match slots with
  | [] => simp [StackStruct.slotReferences]
  | .plain value :: rest =>
    have others := StackStruct.mem_slotReferences rest
    cases value <;> simp [StackStruct.slotReferences, others, or_assoc]
  | .nested inner :: rest =>
    have here := StackStruct.mem_references inner
    have others := StackStruct.mem_slotReferences rest
    simp only [StackStruct.slotReferences, List.mem_append, here, others]
    simp only [List.mem_cons, reduceCtorEq, false_or, Slot.nested.injEq,
      or_and_right, exists_or, exists_eq_left]
    tauto

end

/-- A value that names no struct leads to the one object it names. -/
theorem Value.leadsTo_iff {value : Value} (plain : value.Plain) :
    value.LeadsTo structs id ↔ value.object? = some id := by
  constructor
  · intro leads
    cases leads with
    | object => rfl
    | struct => cases plain
  · intro named
    cases value <;> cases named
    exact .object

/-- A plain object leads to what it refers to. -/
theorem Object.leadsTo_iff {object : Object} (plain : object.Plain) :
    object.LeadsTo structs id ↔ id ∈ object.references := by
  cases object with
  | string text => constructor <;> (intro leads; cases leads)
  | native native => constructor <;> (intro leads; cases leads)
  | function prototype =>
    rw [Object.references, Prototype.references, List.mem_append, Option.mem_toList,
      List.mem_filterMap]
    constructor
    · intro leads
      cases leads with
      | name named => exact Or.inl named
      | constant member leads =>
        exact Or.inr ⟨_, member.val, (Value.leadsTo_iff (plain _ member)).mp leads⟩
    · rintro (named | ⟨value, member, named⟩)
      · exact .name named
      · have inside : value ∈ prototype.constants := ⟨member⟩
        exact .constant inside ((Value.leadsTo_iff (plain _ inside)).mpr named)
  | closure prototype upvalues =>
    rw [Object.references, List.mem_cons, List.mem_filterMap]
    constructor
    · intro leads
      cases leads with
      | prototype => exact Or.inl rfl
      | upvalue member => exact Or.inr ⟨some id, member.val, rfl⟩
    · rintro (rfl | ⟨upvalue, member, rfl⟩)
      · exact .prototype
      · exact .upvalue ⟨member⟩
  | cell cell =>
    cases cell with
    | onStack slot => constructor <;> (intro leads; cases leads)
    | closed value =>
      rw [Object.references, Option.mem_toList]
      constructor
      · intro leads
        cases leads with
        | closed leads => exact (Value.leadsTo_iff plain).mp leads
      · exact fun named => .closed ((Value.leadsTo_iff plain).mpr named)
  | record type fields =>
    rw [Object.references, List.mem_filterMap]
    constructor
    · intro leads
      cases leads with
      | field member leads =>
        exact ⟨_, member.val, (Value.leadsTo_iff (plain _ member)).mp leads⟩
    · rintro ⟨value, member, named⟩
      have inside : value ∈ fields := ⟨member⟩
      exact .field inside ((Value.leadsTo_iff (plain _ inside)).mpr named)

end Edges

section Reachability

variable {structs : NodeId → Option StackStruct} {sources : List (List RootRequest)}
  {pins : List (Option ObjectId)} {heap : Heap} {id : ObjectId}

/-- The objects that are reachable when sources of roots have asked for theirs and something
under construction has pinned some. -/
inductive Heap.Reachable (structs : NodeId → Option StackStruct) (heap : Heap)
    (sources : List (List RootRequest)) (pins : List (Option ObjectId)) : ObjectId → Prop where
  | object {source : List RootRequest} {id : ObjectId} :
      source ∈ sources → .object id ∈ source → Reachable structs heap sources pins id
  | struct {source : List RootRequest} {contents : StackStruct} {id : ObjectId} :
      source ∈ sources → .struct contents ∈ source → contents.Names id →
      Reachable structs heap sources pins id
  | pinned {id : ObjectId} : some id ∈ pins → Reachable structs heap sources pins id
  | next {id other : ObjectId} {object : Object} :
      Reachable structs heap sources pins id → (id, object) ∈ heap.listed →
      object.LeadsTo structs other → Reachable structs heap sources pins other

theorem Collector.mem_roots :
    id ∈ Collector.roots sources pins ↔ some id ∈ pins ∨ ∃ source ∈ sources,
      .object id ∈ source ∨ ∃ contents, .struct contents ∈ source ∧ contents.Names id := by
  rw [Collector.roots, List.mem_append, List.mem_flatMap, List.mem_filterMap, or_comm]
  refine or_congr ⟨?_, fun member => ⟨some id, member, rfl⟩⟩ ⟨?_, ?_⟩
  · rintro ⟨pin, member, rfl⟩
    exact member
  · rintro ⟨request, member, asked⟩
    obtain ⟨source, known, inside⟩ := List.mem_flatten.mp member
    refine ⟨source, known, ?_⟩
    cases request with
    | object other =>
      rw [RootRequest.roots, List.mem_singleton] at asked
      exact Or.inl (asked ▸ inside)
    | struct contents => exact Or.inr ⟨contents, inside, contents.mem_references.mp asked⟩
    | collect => cases asked
  · rintro ⟨source, known, inside | ⟨contents, inside, names⟩⟩
    · exact ⟨_, List.mem_flatten.mpr ⟨source, known, inside⟩, List.mem_singleton.mpr rfl⟩
    · exact ⟨_, List.mem_flatten.mpr ⟨source, known, inside⟩, contents.mem_references.mpr names⟩

/-- In a plain heap, what references reach from the roots is what is reachable. -/
theorem Heap.reaches_iff (plain : heap.Plain) :
    Heap.Reaches heap.objects (Collector.roots sources pins) id ↔
      heap.Reachable structs sources pins id := by
  constructor
  · intro reached
    induction reached with
    | root member =>
      rcases Collector.mem_roots.mp member with pinned | ⟨source, known, asked | ⟨_, asked, names⟩⟩
      · exact .pinned pinned
      · exact .object known asked
      · exact .struct known asked names
    | next _ present member ih =>
      exact .next ih (Heap.mem_listed.mpr present)
        ((Object.leadsTo_iff (plain _ _ present)).mpr member)
  · intro reachable
    induction reachable with
    | object known asked => exact .root (Collector.mem_roots.mpr (Or.inr ⟨_, known, Or.inl asked⟩))
    | struct known asked names =>
      exact .root (Collector.mem_roots.mpr (Or.inr ⟨_, known, Or.inr ⟨_, asked, names⟩⟩))
    | pinned member => exact .root (Collector.mem_roots.mpr (Or.inl member))
    | next _ inside leads ih =>
      have present := Heap.mem_listed.mp inside
      exact .next ih present ((Object.leadsTo_iff (plain _ _ present)).mp leads)

end Reachability

section Requests

variable {heap after : Heap} {roots : Unit → List ObjectId} {action : Heap.Action ObjectId}

/-- The requests for an object. -/
inductive Heap.Request (roots : Unit → List ObjectId) : Heap.Action ObjectId → Prop where
  | string (text : Text) : Request roots (Heap.intern roots text)
  | function : Request roots (Heap.newFunction roots)
  | closure (prototype : ObjectId) : Request roots (Heap.newClosure roots prototype)
  | cell (slot : Nat) : Request roots (Heap.newCell roots slot)
  | record (type : StructId) (fieldCount : Nat) : Request roots (Heap.newRecord roots type fieldCount)
  | native (native : Native) : Request roots (Heap.newNative roots native)

/-- All that a request for an object can do: find a string that is there, be refused after a
collection or none, or add an object. -/
inductive Heap.Outcome (roots : Unit → List ObjectId) (heap : Heap) : Heap → Prop where
  | found : Outcome roots heap heap
  | refused (bytes : UInt64) : Outcome roots heap (heap.prepared roots bytes)
  | linked (bytes : UInt64) {object : Object} : object.Plain → (∀ text, object ≠ .string text) →
      Outcome roots heap ((heap.prepared roots bytes).link object)
  | filed (bytes : UInt64) {text : Text} : heap.interned[text]? = none →
      Outcome roots heap ((heap.prepared roots bytes).file text)

theorem Heap.allocate_outcome {object : Object} (plain : object.Plain)
    (unnamed : ∀ text, object ≠ .string text) :
    Heap.Outcome roots heap (stateLeft (Heap.allocate roots object heap)) := by
  rw [Heap.allocate_eq]
  dsimp only
  split
  · exact .refused _
  · exact .linked _ plain unnamed

theorem Heap.Request.outcome (request : Heap.Request roots action) (heap : Heap) :
    Heap.Outcome roots heap (stateLeft (action heap)) := by
  cases request with
  | string text =>
    cases filed : heap.interned[text]? with
    | some id =>
      rw [Heap.intern_of_filed roots filed]
      exact .found
    | none =>
      rw [Heap.intern_of_unfiled roots filed]
      dsimp only
      split
      · exact .refused _
      · exact .filed _ filed
  | function => exact Heap.allocate_outcome (fun value member => by simp at member) nofun
  | closure prototype => exact Heap.allocate_outcome trivial nofun
  | cell slot => exact Heap.allocate_outcome trivial nofun
  | record type fieldCount =>
    refine Heap.allocate_outcome (fun value member => ?_) nofun
    rw [(Array.mem_replicate.mp member).2]
    rfl
  | native native => exact Heap.allocate_outcome trivial nofun

end Requests

namespace Collector

/-- The collectors that the operations of a heap lead to, with the bytes that are reserved and
not given back, and the most bytes that were charged at once. What an object holds may be
replaced, as long as it stays of its kind and size and names no frame-owned struct. -/
inductive Built : Collector → Nat → Nat → Prop where
  | start (config : HeapConfig) : Built { heap := .empty config } 0 0
  | collect {collector : Collector} {external peak : Nat} (sources : List (List RootRequest))
      (pins : List (Option ObjectId)) :
      Built collector external peak → Built (collect sources pins collector) external peak
  | request {collector : Collector} {external peak : Nat} {roots : Unit → List ObjectId}
      {action : Heap.Action ObjectId} {heap : Heap} :
      Built collector external peak → Heap.Request roots action →
      stateLeft (action collector.heap) = heap →
      Built { collector with heap } external (max peak (Heap.bytesOf heap.listed + external))
  | reserve {collector : Collector} {external peak : Nat} {roots : Unit → List ObjectId}
      {bytes : UInt64} {heap : Heap} :
      Built collector external peak → Heap.reserve roots bytes collector.heap = .ok () heap →
      Built { collector with heap } (external + bytes.toNat)
        (max peak (Heap.bytesOf heap.listed + external + bytes.toNat))
  | refused {collector : Collector} {external peak : Nat} {roots : Unit → List ObjectId}
      {bytes : UInt64} {failure : Exhausted} {heap : Heap} :
      Built collector external peak → Heap.reserve roots bytes collector.heap = .error failure heap →
      Built { collector with heap } external peak
  | release {collector : Collector} {external peak : Nat} {bytes : UInt64} :
      Built collector external peak → bytes.toNat ≤ external →
      Built { collector with heap := collector.heap.release bytes } (external - bytes.toNat) peak
  | store {collector : Collector} {external peak : Nat} {id : ObjectId} {old new : Object} :
      Built collector external peak → collector.heap.get? id = some old →
      new.kindName = old.kindName → new.size = old.size → (∀ text, old ≠ .string text) →
      new.Plain → Built { collector with heap := collector.heap.set id new } external peak

/-- What holds of every collector between operations. -/
structure Steady (collector : Collector) (external peak : Nat) : Prop where
  tidy : collector.heap.Tidy
  rest : collector.marker.AtRest
  plain : collector.heap.Plain
  accounted : collector.heap.Accounted external peak

section Steady

variable {collector : Collector} {external peak : Nat} {sources : List (List RootRequest)}
  {pins : List (Option ObjectId)}

/-- A collection from rest leaves the heap that a collection from its roots leaves. -/
theorem collect_heap (rest : collector.marker.AtRest) :
    (collect sources pins collector).heap = collector.heap.swept
      (collector.heap.marksFrom collector.marker (roots sources pins)).marked := by
  rw [collect_eq rest.idle]
  rfl

/-- A collection ends at rest: the sweep passes every marked object and clears its mark. -/
theorem collect_rest (rest : collector.marker.AtRest) :
    (collect sources pins collector).marker.AtRest := by
  obtain ⟨marking, black, _⟩ := collector.heap.marking_marksFrom rest (roots sources pins)
  rw [collect_eq rest.idle]
  refine ⟨rfl, fun id marked => ?_, black⟩
  obtain ⟨isMarked, missing⟩ := Std.TreeSet.mem_filter.mp marked
  have present := marking.present isMarked
  simp [Std.TreeMap.contains_iff_mem.mpr present] at missing

theorem Steady.collect (steady : Steady collector external peak)
    (sources : List (List RootRequest)) (pins : List (Option ObjectId)) :
    Steady (collect sources pins collector) external peak where
  rest := collect_rest steady.rest
  tidy := by
    rw [collect_heap steady.rest]
    exact steady.tidy.swept _
  plain := by
    rw [collect_heap steady.rest]
    exact fun _ _ found => steady.plain _ _ (Heap.get?_swept.mp found).1
  accounted := by
    rw [collect_heap steady.rest]
    exact steady.accounted.swept _

/-- A request for an object keeps a collector steady, whatever comes of it. -/
theorem Steady.outcome (steady : Steady collector external peak)
    {roots : Unit → List ObjectId} {heap : Heap}
    (outcome : Heap.Outcome roots collector.heap heap) :
    Steady { collector with heap } external
      (max peak (Heap.bytesOf heap.listed + external)) := by
  have tidied := fun bytes => steady.tidy.prepared roots bytes
  have counted := fun bytes => steady.accounted.prepared roots bytes
  cases outcome with
  | found =>
    rw [Nat.max_eq_left steady.accounted.charged]
    exact steady
  | refused bytes =>
    rw [Nat.max_eq_left (counted bytes).charged]
    exact ⟨tidied bytes, steady.rest, steady.plain.prepared bytes, counted bytes⟩
  | linked bytes plain unnamed =>
    exact ⟨(tidied bytes).link unnamed, steady.rest, (steady.plain.prepared bytes).link plain,
      (counted bytes).link (tidied bytes).absent⟩
  | filed bytes unfiled =>
    exact ⟨(tidied bytes).intern (Heap.prepared_unfiled roots unfiled bytes), steady.rest,
      (steady.plain.prepared bytes).link trivial, (counted bytes).file (tidied bytes).absent _⟩

/-- Every collector that operations lead to is steady. -/
theorem Built.steady (built : Built collector external peak) : Steady collector external peak := by
  induction built with
  | start config =>
    exact ⟨.empty config, Marker.atRest_new, Heap.plain_empty config, Heap.accounted_empty config⟩
  | collect sources pins _ ih => exact ih.collect sources pins
  | request _ request ran ih => exact ih.outcome (ran ▸ request.outcome _)
  | @reserve collector external peak roots bytes heap _ ran ih =>
    rw [Heap.reserve_eq] at ran
    dsimp only at ran
    split at ran
    · cases ran
    · cases ran
      exact ⟨(ih.tidy.prepared roots bytes).of_same rfl rfl rfl, ih.rest,
        (ih.plain.prepared bytes).of_same rfl, (ih.accounted.prepared roots bytes).reserve bytes⟩
  | @refused collector external peak roots bytes failure heap _ ran ih =>
    rw [Heap.reserve_eq] at ran
    dsimp only at ran
    split at ran
    · cases ran
      exact ⟨ih.tidy.prepared roots bytes, ih.rest, ih.plain.prepared bytes,
        ih.accounted.prepared roots bytes⟩
    · cases ran
  | release _ reserved ih =>
    exact ⟨ih.tidy.of_same rfl rfl rfl, ih.rest, ih.plain.of_same rfl,
      ih.accounted.release reserved⟩
  | @store collector external peak id old new _ present kind size unnamed plain ih =>
    have renamed : ∀ text, new ≠ .string text := by
      rintro text rfl
      cases old <;> simp_all [Object.kindName, ascii]
    refine ⟨ih.tidy.set renamed fun text => ?_, ih.rest, ih.plain.set plain,
      ih.accounted.set present size⟩
    rw [present]
    exact fun same => unnamed text (Option.some.inj same)

end Steady

/-- What a collection makes of a collector. -/
structure Collected (structs : NodeId → Option StackStruct) (sources : List (List RootRequest))
    (pins : List (Option ObjectId)) (external peak : Nat) (before after : Collector) : Prop where
  /-- The survivors stand in the order they stood in. -/
  order : after.heap.listed.Sublist before.heap.listed
  /-- The survivors are the reachable objects, with their contents. -/
  kept : ∀ id object, (id, object) ∈ after.heap.listed ↔
    (id, object) ∈ before.heap.listed ∧ before.heap.Reachable structs sources pins id
  unmarked : ∀ id, id ∉ after.marker.marked
  black : after.marker.gray = []
  idle : after.marker.collecting = false
  interned : ∀ text id, after.heap.interned[text]? = some id ↔
    (id, .string text) ∈ after.heap.listed
  freed : after.heap.stats.lastFreed
    = UInt64.ofNat (Heap.bytesOf (Heap.dropped before.heap after.heap))
  figures : after.heap.stats.lastBefore = before.heap.bytes ∧
    after.heap.stats.lastAfter = after.heap.bytes
  balance : after.heap.stats.lastBefore
    = after.heap.stats.lastFreed + after.heap.stats.lastAfter
  /-- The figures are exact unless a count has wrapped. -/
  exact : peak < 2 ^ 64 →
    after.heap.stats.lastFreed.toNat = Heap.bytesOf (Heap.dropped before.heap after.heap) ∧
    after.heap.stats.lastAfter.toNat = Heap.bytesOf after.heap.listed + external ∧
    after.heap.stats.lastBefore.toNat
      = after.heap.stats.lastFreed.toNat + after.heap.stats.lastAfter.toNat
  total : after.heap.stats.totalFreed
    = before.heap.stats.totalFreed + after.heap.stats.lastFreed
  threshold : after.heap.threshold = max before.heap.config.minThreshold
    (Heap.wordOfFloat (after.heap.bytes.toFloat * before.heap.config.growthFactor))

section Collected

variable {collector : Collector} {external peak : Nat}

theorem Steady.collected (steady : Steady collector external peak)
    (structs : NodeId → Option StackStruct) (sources : List (List RootRequest))
    (pins : List (Option ObjectId)) :
    Collected structs sources pins external peak collector
      (Collector.collect sources pins collector) := by
  have after := steady.collect sources pins
  obtain ⟨marked, swept, mem_marked⟩ : ∃ marked,
      (Collector.collect sources pins collector).heap = collector.heap.swept marked ∧
      ∀ id, id ∈ marked ↔ (collector.heap.get? id).isSome ∧
        collector.heap.Reachable structs sources pins id := by
    refine ⟨_, collect_heap steady.rest, fun id => ?_⟩
    rw [Heap.mem_marksFrom steady.rest, Heap.reaches_iff steady.plain]
  have split := Heap.bytesOf_swept collector.heap marked
  refine
    { unmarked := after.rest.unmarked
      black := after.rest.black
      idle := after.rest.idle
      interned := fun text id => by rw [after.tidy.filed, Heap.mem_listed]
      order := ?_
      kept := ?_
      freed := by rw [swept, Heap.lastFreed_swept]
      figures := by rw [swept]; exact ⟨rfl, rfl⟩
      balance := ?_
      exact := ?_
      total := by rw [swept]; rfl
      threshold := by rw [swept]; rfl }
  · rw [swept, Heap.listed_swept]
    exact List.filter_sublist
  · intro id object
    rw [Heap.mem_listed, Heap.mem_listed, swept, Heap.get?_swept, mem_marked]
    refine and_congr_right fun present => ?_
    rw [present]
    exact and_iff_right rfl
  · rw [swept]
    change collector.heap.bytes
      = _ + (collector.heap.bytes - (collector.heap.swept marked).stats.lastFreed)
    rw [UInt64.add_comm, UInt64.sub_add_cancel]
  · intro fits
    have charged := steady.accounted.charged
    have before := steady.accounted.exact fits
    have left := after.accounted.exact fits
    have freed : (collector.heap.swept marked).stats.lastFreed.toNat
        = Heap.bytesOf (Heap.dropped collector.heap (collector.heap.swept marked)) := by
      rw [Heap.lastFreed_swept, UInt64.toNat_ofNat']
      omega
    rw [swept] at left ⊢
    refine ⟨freed, left, ?_⟩
    change collector.heap.bytes.toNat = _ + (collector.heap.swept marked).bytes.toNat
    omega

end Collected

section Reentrance

variable {collector : Collector} {external peak : Nat}

end Reentrance

/-- A new record with one field. -/
def fresh : Heap :=
  stateLeft (Heap.newRecord (fun _ => []) 0 1 (.empty {}))

end Collector

end ScriptMachine
