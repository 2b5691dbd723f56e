import ScriptMachine.Heap.Collect

set_option autoImplicit false

/- Allocation. Every request first makes room, which may collect, and fails without further
effect when the limit leaves no room. Roots are asked for only when a collection needs them. -/
namespace ScriptMachine.Heap

/-- Actions on a heap that can run out of room. A failed action keeps what its collection did. -/
abbrev Action := EStateM Exhausted Heap

/-- Whether `bytes` more would pass the limit. -/
def overLimit (heap : Heap) (bytes : UInt64) : Bool :=
  heap.config.limit != 0 && heap.bytes + bytes > heap.config.limit

/-- Whether a request for `bytes` collects first. -/
def wantsCollection (heap : Heap) (bytes : UInt64) : Bool :=
  heap.config.stress || heap.overLimit bytes || heap.bytes + bytes > heap.threshold

/-- The heap in which a request for `bytes` is decided. -/
def prepared (heap : Heap) (roots : Unit → List ObjectId) (bytes : UInt64) : Heap :=
  if heap.wantsCollection bytes then heap.collect (roots ()) else heap

/-- Collects when that is due, and refuses a request that the limit still does not allow. -/
def makeRoom (roots : Unit → List ObjectId) (bytes : UInt64) : Action Unit := fun heap =>
  let heap := heap.prepared roots bytes
  if heap.overLimit bytes then .error ⟨bytes, heap.config.limit⟩ heap else .ok () heap

/-- Adds an object under the next identifier. -/
def link (heap : Heap) (object : Object) : Heap :=
  { heap with
    objects := heap.objects.insert heap.nextId object
    nextId := heap.nextId + 1
    bytes := heap.bytes + object.size.toUInt64 }

/-- Allocates an object. Whatever it refers to is among the roots. -/
def allocate (roots : Unit → List ObjectId) (object : Object) : Action ObjectId := do
  makeRoom roots object.size.toUInt64
  modifyGet fun heap => (heap.nextId, heap.link object)

/-- The one string object with the given contents, allocated when there is none yet. -/
def intern (roots : Unit → List ObjectId) (text : Text) : Action ObjectId := do
  match (← get).interned[text]? with
  | some id => return id
  | none =>
    let id ← allocate roots (.string text)
    modify fun heap => { heap with interned := heap.interned.insert text id }
    return id

/-- Charges bytes that are held outside the object table. -/
def reserve (roots : Unit → List ObjectId) (bytes : UInt64) : Action Unit := do
  makeRoom roots bytes
  modify fun heap => { heap with bytes := heap.bytes + bytes }

/-- Gives back bytes charged by `reserve`; the count stops at zero. -/
def release (heap : Heap) (bytes : UInt64) : Heap :=
  { heap with bytes := heap.bytes - min bytes heap.bytes }

/-- Allocates an empty prototype, to be filled when its function has been compiled. -/
def newFunction (roots : Unit → List ObjectId) : Action ObjectId :=
  allocate roots (.function {})

/-- Allocates a closure over a prototype, with an unset upvalue for each capture. -/
def newClosure (roots : Unit → List ObjectId) (prototype : ObjectId) : Action ObjectId := do
  let captures := (((← get).prototype? prototype).map fun body => body.captures.size).getD 0
  allocate roots (.closure prototype (Array.replicate captures none))

/-- Allocates a cell for a stack slot. -/
def newCell (roots : Unit → List ObjectId) (slot : Nat) : Action ObjectId :=
  allocate roots (.cell (.onStack slot))

/-- Allocates a struct instance with nil in every field. -/
def newRecord (roots : Unit → List ObjectId) (type : StructId) (fieldCount : Nat) :
    Action ObjectId :=
  allocate roots (.record type (Array.replicate fieldCount .nil))

def newNative (roots : Unit → List ObjectId) (native : Native) : Action ObjectId :=
  allocate roots (.native native)

end ScriptMachine.Heap
