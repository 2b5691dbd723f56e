import ScriptMachine.Proofs.Heap.Collection

set_option autoImplicit false

/- Clients of a heap. Whatever they ask for, in whatever order and with whatever roots, the byte
count is that of the objects and of the bytes reserved besides, and it never passes the limit. -/
namespace ScriptMachine

namespace Heap

section Limit

variable {heap : Heap} {external peak : Nat}

/-- The byte count keeps to the limit, if there is one. -/
def Within (heap : Heap) : Prop :=
  heap.config.limit ≠ 0 → heap.bytes ≤ heap.config.limit

theorem within_empty (config : HeapConfig) : (empty config).Within :=
  fun _ => UInt64.zero_le

/-- Fewer bytes keep to the same limit. -/
theorem Within.fewer {other : Heap} (within : heap.Within) (config : other.config = heap.config)
    (bytes : other.bytes ≤ heap.bytes) : other.Within := by
  intro limited
  rw [config] at limited ⊢
  exact UInt64.le_trans bytes (within limited)

/-- A sweep gives bytes back, unless the count has wrapped. -/
theorem bytes_swept_le (accounted : heap.Accounted external peak) (fits : peak < 2 ^ 64)
    (marked : Std.TreeSet ObjectId) : (heap.swept marked).bytes ≤ heap.bytes := by
  have before := accounted.exact fits
  have after := (accounted.swept marked).exact fits
  have split := bytesOf_swept heap marked
  rw [UInt64.le_iff_toNat_le]
  omega

theorem Within.prepared (within : heap.Within) (accounted : heap.Accounted external peak)
    (fits : peak < 2 ^ 64) (roots : Unit → List ObjectId) (bytes : UInt64) :
    (heap.prepared roots bytes).Within := by
  rcases prepared_cases heap roots bytes with same | collected
  · rwa [same]
  · rw [collected, collect_eq_swept]
    exact within.fewer rfl (bytes_swept_le accounted fits _)

/-- A request that is granted leaves the count within the limit. -/
theorem within_of_room {bytes : UInt64} {other : Heap} (room : ¬ heap.overLimit bytes = true)
    (config : other.config = heap.config) (grown : other.bytes = heap.bytes + bytes) :
    other.Within := by
  intro limited
  rw [config] at limited ⊢
  rw [grown]
  simp only [overLimit, Bool.and_eq_true, bne_iff_ne, decide_eq_true_eq, not_and] at room
  exact UInt64.not_lt.mp (room limited)

end Limit

section Requests

variable {heap : Heap} {roots : Unit → List ObjectId} {external peak : Nat}

theorem Within.allocate (within : heap.Within) (accounted : heap.Accounted external peak)
    (fits : peak < 2 ^ 64) (object : Object) :
    (stateLeft (Heap.allocate roots object heap)).Within := by
  rw [allocate_eq]
  dsimp only
  split
  · exact within.prepared accounted fits roots _
  · next room => exact within_of_room room rfl rfl

/-- A request for an object leaves the count within the limit, whether it is granted or refused. -/
theorem Within.request (within : heap.Within) (accounted : heap.Accounted external peak)
    (fits : peak < 2 ^ 64) {action : Action ObjectId} (request : Request roots action) :
    (stateLeft (action heap)).Within := by
  cases request with
  | string text =>
    cases filed : heap.interned[text]? with
    | some id =>
      rw [intern_of_filed roots filed]
      exact within
    | none =>
      rw [intern_of_unfiled roots filed]
      dsimp only
      split
      · exact within.prepared accounted fits roots _
      · next room => exact within_of_room room rfl rfl
  | function => exact within.allocate accounted fits _
  | closure prototype => exact within.allocate accounted fits _
  | cell slot => exact within.allocate accounted fits _
  | record type fieldCount => exact within.allocate accounted fits _
  | native native => exact within.allocate accounted fits _

theorem Within.reserve (within : heap.Within) (accounted : heap.Accounted external peak)
    (fits : peak < 2 ^ 64) (bytes : UInt64) :
    (stateLeft (Heap.reserve roots bytes heap)).Within := by
  rw [reserve_eq]
  dsimp only
  split
  · exact within.prepared accounted fits roots _
  · next room => exact within_of_room room rfl rfl

theorem Within.release (within : heap.Within) (bytes : UInt64) : (heap.release bytes).Within := by
  refine within.fewer rfl ?_
  have least : min bytes heap.bytes ≤ heap.bytes := by
    rw [show min bytes heap.bytes = if bytes ≤ heap.bytes then bytes else heap.bytes from rfl]
    split
    · next less => exact less
    · exact UInt64.le_refl _
  exact UInt64.sub_le least

/-- The limit is set once and for all. -/
theorem config_request {action : Action ObjectId} (request : Request roots action) :
    (stateLeft (action heap)).config = heap.config := by
  have outcome := request.outcome heap
  generalize stateLeft (action heap) = after at outcome
  cases outcome with
  | found => rfl
  | refused bytes => exact prepared_config heap roots bytes
  | linked bytes => exact prepared_config heap roots bytes
  | filed bytes => exact prepared_config heap roots bytes

theorem config_reserve (bytes : UInt64) :
    (stateLeft (Heap.reserve roots bytes heap)).config = heap.config := by
  rw [reserve_eq]
  dsimp only
  split <;> exact prepared_config heap roots bytes

end Requests

end Heap

namespace Collector

/-- What a client of a heap can do. Besides asking for objects and room it pins objects that it is
at work on, last in first out, and replaces what an object holds. -/
inductive Operation where
  | intern (text : Text)
  | newFunction
  | newClosure (prototype : ObjectId)
  | newCell (slot : Nat)
  | newRecord (type : StructId) (fieldCount : Nat)
  | newNative (native : Native)
  | reserve (bytes : UInt64)
  | release (bytes : UInt64)
  | collect
  | pin (object : Option ObjectId)
  | unpin
  | store (id : ObjectId) (object : Object)

/-- A collector with its pins, and the bytes that are reserved and not given back. -/
structure Usage where
  collector : Collector
  pins : List (Option ObjectId) := []
  reserved : Nat := 0

namespace Usage

def heap (usage : Usage) : Heap :=
  usage.collector.heap

/-- All that is in use. -/
def total (usage : Usage) : Nat :=
  Heap.bytesOf usage.heap.listed + usage.reserved

def withHeap (usage : Usage) (heap : Heap) : Usage :=
  { usage with collector := { usage.collector with heap } }

/-- What a request for an object leaves, whether it is granted or refused. -/
def asked (usage : Usage) (action : Heap.Action ObjectId) : Usage :=
  usage.withHeap (stateLeft (action usage.heap))

/-- One operation, with the roots that the sources have at that moment. -/
def perform (usage : Usage) (sources : List (List RootRequest)) : Operation → Usage
  | .intern text => usage.asked (Heap.intern (fun _ => roots sources usage.pins) text)
  | .newFunction => usage.asked (Heap.newFunction fun _ => roots sources usage.pins)
  | .newClosure prototype =>
    usage.asked (Heap.newClosure (fun _ => roots sources usage.pins) prototype)
  | .newCell slot => usage.asked (Heap.newCell (fun _ => roots sources usage.pins) slot)
  | .newRecord type fieldCount =>
    usage.asked (Heap.newRecord (fun _ => roots sources usage.pins) type fieldCount)
  | .newNative native => usage.asked (Heap.newNative (fun _ => roots sources usage.pins) native)
  | .reserve bytes =>
    match Heap.reserve (fun _ => roots sources usage.pins) bytes usage.heap with
    | .ok _ heap => { usage.withHeap heap with reserved := usage.reserved + bytes.toNat }
    | .error _ heap => usage.withHeap heap
  | .release bytes =>
    { usage.withHeap (usage.heap.release bytes) with reserved := usage.reserved - bytes.toNat }
  | .collect => { usage with collector := Collector.collect sources usage.pins usage.collector }
  | .pin object => { usage with pins := object :: usage.pins }
  | .unpin => { usage with pins := usage.pins.tail }
  | .store id object => usage.withHeap (usage.heap.set id object)

/-- Nothing is given back that is not reserved, and what an object holds is replaced by something of
the same kind and size that names no frame-owned struct. -/
def Allows (usage : Usage) : Operation → Prop
  | .release bytes => bytes.toNat ≤ usage.reserved
  | .store id object => ∃ old, usage.heap.get? id = some old ∧ object.kindName = old.kindName ∧
      object.size = old.size ∧ (∀ text, old ≠ .string text) ∧ object.Plain
  | _ => True

/-- What any sequence of operations on a new heap comes to, while all that is in use can be counted
in a word. -/
inductive Arises (config : HeapConfig) : Usage → Prop where
  | start : Arises config { collector := { heap := .empty config } }
  | next {usage : Usage} (sources : List (List RootRequest)) (operation : Operation) :
      Arises config usage → usage.Allows operation →
      (usage.perform sources operation).total < 2 ^ 64 →
      Arises config (usage.perform sources operation)

/-- What holds between operations. -/
structure Balanced (config : HeapConfig) (usage : Usage) : Prop where
  built : ∃ peak, peak < 2 ^ 64 ∧ Built usage.collector usage.reserved peak
  config : usage.heap.config = config
  within : usage.heap.Within

section Steps

variable {config : HeapConfig} {usage : Usage}

theorem Balanced.asked (balanced : Balanced config usage) {roots : Unit → List ObjectId}
    {action : Heap.Action ObjectId} (request : Heap.Request roots action)
    (fits : (usage.asked action).total < 2 ^ 64) : Balanced config (usage.asked action) := by
  obtain ⟨peak, below, built⟩ := balanced.built
  refine ⟨⟨_, ?_, built.request request rfl⟩, ?_, ?_⟩
  · exact Nat.max_lt.mpr ⟨below, fits⟩
  · exact (Heap.config_request request).trans balanced.config
  · exact balanced.within.request built.steady.accounted below request

theorem Balanced.reserve (balanced : Balanced config usage) (sources : List (List RootRequest))
    (bytes : UInt64) (fits : (usage.perform sources (.reserve bytes)).total < 2 ^ 64) :
    Balanced config (usage.perform sources (.reserve bytes)) := by
  obtain ⟨peak, below, built⟩ := balanced.built
  have within : (stateLeft
      (Heap.reserve (fun _ => roots sources usage.pins) bytes usage.heap)).Within :=
    balanced.within.reserve built.steady.accounted below bytes
  have same : (stateLeft (Heap.reserve (fun _ => roots sources usage.pins) bytes usage.heap)).config
      = config := (Heap.config_reserve bytes).trans balanced.config
  unfold perform at fits ⊢
  dsimp only at fits ⊢
  cases ran : Heap.reserve (fun _ => roots sources usage.pins) bytes usage.heap with
  | ok _ heap =>
    rw [ran] at within same fits
    refine ⟨⟨_, ?_, built.reserve ran⟩, same, within⟩
    rw [Nat.add_assoc]
    exact Nat.max_lt.mpr ⟨below, fits⟩
  | error failure heap =>
    rw [ran] at within same
    exact ⟨⟨peak, below, built.refused ran⟩, same, within⟩

/-- Every operation that is allowed keeps the books balanced. -/
theorem Balanced.perform (balanced : Balanced config usage) (sources : List (List RootRequest))
    {operation : Operation} (allowed : usage.Allows operation)
    (fits : (usage.perform sources operation).total < 2 ^ 64) :
    Balanced config (usage.perform sources operation) := by
  obtain ⟨peak, below, built⟩ := balanced.built
  cases operation with
  | intern text => exact balanced.asked (.string text) fits
  | newFunction => exact balanced.asked .function fits
  | newClosure prototype => exact balanced.asked (.closure prototype) fits
  | newCell slot => exact balanced.asked (.cell slot) fits
  | newRecord type fieldCount => exact balanced.asked (.record type fieldCount) fits
  | newNative native => exact balanced.asked (.native native) fits
  | reserve bytes => exact balanced.reserve sources bytes fits
  | release bytes =>
    exact ⟨⟨peak, below, built.release allowed⟩, balanced.config, balanced.within.release bytes⟩
  | collect =>
    have swept := @collect_heap usage.collector sources usage.pins built.steady.rest
    refine ⟨⟨peak, below, built.collect sources usage.pins⟩, ?_, ?_⟩
    · exact (congrArg Heap.config swept).trans balanced.config
    · change (Collector.collect sources usage.pins usage.collector).heap.Within
      rw [swept]
      exact balanced.within.fewer rfl (Heap.bytes_swept_le built.steady.accounted below _)
  | pin object => exact ⟨⟨peak, below, built⟩, balanced.config, balanced.within⟩
  | unpin => exact ⟨⟨peak, below, built⟩, balanced.config, balanced.within⟩
  | store id object =>
    obtain ⟨old, present, kind, size, unnamed, plain⟩ := allowed
    exact ⟨⟨peak, below, built.store present kind size unnamed plain⟩, balanced.config,
      balanced.within⟩

theorem Arises.balanced (arises : Arises config usage) : Balanced config usage := by
  induction arises with
  | start => exact ⟨⟨0, by decide, .start config⟩, rfl, Heap.within_empty config⟩
  | next sources _ _ allowed fits ih => exact ih.perform sources allowed fits

end Steps

/-- The usage that operations on a new heap lead to when no source has roots. -/
def after (config : HeapConfig) (operations : List Operation) : Usage :=
  operations.foldl (fun usage operation => usage.perform [] operation)
    { collector := { heap := .empty config } }

end Usage

end Collector

end ScriptMachine
