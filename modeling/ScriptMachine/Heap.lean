import Std.Data.HashMap
import Std.Data.TreeMap
import ScriptMachine.Object

set_option autoImplicit false

/- The heap: its objects in the order of their identifiers, the table of interned strings, and
the byte counts that decide when to collect and when to refuse. Byte counts are 64-bit words
and wrap. -/
namespace ScriptMachine

/-- When to collect and how much to allow. A `limit` of zero means no limit. -/
structure HeapConfig where
  initialThreshold : UInt64 := 1048576
  minThreshold : UInt64 := 1048576
  growthFactor : Float := 2.0
  limit : UInt64 := 0
  stress : Bool := false
  logCollections : Bool := false
  deriving Inhabited

/-- What the collections so far did, and the last one in particular. -/
structure HeapStats where
  cycles : Nat := 0
  totalFreed : UInt64 := 0
  lastBefore : UInt64 := 0
  lastFreed : UInt64 := 0
  lastAfter : UInt64 := 0
  lastThreshold : UInt64 := 0
  liveObjects : Nat := 0
  deriving Inhabited

/-- A heap. `bytes` counts the objects and the bytes reserved outside the object table, and a
collection is due when it would pass `threshold`. `log` has one line for each collection, the
newest first, when collections are logged. -/
structure Heap where
  config : HeapConfig
  objects : Std.TreeMap ObjectId Object := {}
  nextId : ObjectId := 0
  interned : Std.HashMap Text ObjectId := {}
  bytes : UInt64 := 0
  threshold : UInt64
  stats : HeapStats := {}
  log : List Text := []

/-- A request that the heap limit does not allow. -/
structure Exhausted where
  requested : UInt64
  limit : UInt64
  deriving DecidableEq, Repr

def Exhausted.message (failure : Exhausted) : Text :=
  ascii "Heap exhausted: allocating " ++ Text.ofNat failure.requested.toNat
    ++ ascii " bytes would exceed the heap limit of " ++ Text.ofNat failure.limit.toNat
    ++ ascii " bytes."

namespace Heap

/-- An empty heap. -/
def empty (config : HeapConfig) : Heap :=
  { config, threshold := max 1 config.initialThreshold }

instance : Inhabited Heap := ⟨empty {}⟩

def get? (heap : Heap) (id : ObjectId) : Option Object :=
  heap.objects[id]?

def objectCount (heap : Heap) : Nat :=
  heap.objects.size

/-- Replaces an object by another of the same size. -/
def set (heap : Heap) (id : ObjectId) (object : Object) : Heap :=
  { heap with objects := heap.objects.modify id fun _ => object }

/-- Replaces a field of a struct instance. -/
def setField (heap : Heap) (id : ObjectId) (slot : Nat) (value : Value) : Heap :=
  match heap.get? id with
  | some (.record type fields) => heap.set id (.record type (fields.setIfInBounds slot value))
  | _ => heap

/-- Sets an upvalue of a closure. -/
def setUpvalue (heap : Heap) (id : ObjectId) (index : Nat) (cell : Option ObjectId) : Heap :=
  match heap.get? id with
  | some (.closure prototype upvalues) =>
    heap.set id (.closure prototype (upvalues.setIfInBounds index cell))
  | _ => heap

/-- The contents of a string object. -/
def string? (heap : Heap) (id : ObjectId) : Option Text :=
  match heap.get? id with
  | some (.string text) => some text
  | _ => none

def prototype? (heap : Heap) (id : ObjectId) : Option Prototype :=
  match heap.get? id with
  | some (.function prototype) => some prototype
  | _ => none

/-- The prototype of a closure object. -/
def closurePrototype? (heap : Heap) (id : ObjectId) : Option Prototype :=
  match heap.get? id with
  | some (.closure prototype _) => heap.prototype? prototype
  | _ => none

/-- The name a prototype goes by in listings, diagnostics and traces. -/
def displayName (heap : Heap) (prototype : Prototype) : Text :=
  match prototype.name with
  | none => ascii "script"
  | some name => (heap.string? name).getD []

end Heap

end ScriptMachine
