import ScriptMachine.Value

set_option autoImplicit false

/- Structs with value semantics. Such a struct is a tree: a slot holds a plain value or a
nested struct, and nested structs that a later store displaced stay with their owner until
they are pruned, because a value read earlier may still name them. Each node has its own
identifier, so a copy never shares a node with what it was copied from. -/
namespace ScriptMachine

mutual

inductive StackStruct where
  | node (id : NodeId) (type : StructId) (slots : List Slot) (displaced : List StackStruct)

inductive Slot where
  | plain (value : Value)
  | nested (inner : StackStruct)

end

instance : Inhabited StackStruct := ⟨.node 0 0 [] []⟩

instance : Inhabited Slot := ⟨.plain .nil⟩

namespace StackStruct

def id : StackStruct → NodeId
  | .node id _ _ _ => id

def type : StackStruct → StructId
  | .node _ type _ _ => type

def slots : StackStruct → List Slot
  | .node _ _ slots _ => slots

def displaced : StackStruct → List StackStruct
  | .node _ _ _ displaced => displaced

end StackStruct

/-- The value found by reading a slot. -/
def Slot.value : Slot → Value
  | .plain value => value
  | .nested inner => .stack inner.id

/-- The struct that storing into a slot displaces, if the slot holds one. -/
def Slot.inner? : Slot → Option StackStruct
  | .plain _ => none
  | .nested inner => some inner

namespace StackStruct

/-- A struct of the given type with nil in every slot. -/
def blank (id : NodeId) (type : StructId) (fieldCount : Nat) : StackStruct :=
  .node id type (List.replicate fieldCount (.plain .nil)) []

/-- The value in a slot, if there is such a slot. -/
def field? (struct : StackStruct) (slot : Nat) : Option Value :=
  struct.slots[slot]?.map Slot.value

/-- How many structs this one owns directly, displaced ones included. -/
def childCount (struct : StackStruct) : Nat :=
  (struct.slots.filterMap Slot.inner?).length + struct.displaced.length

/-- Replaces a slot's contents. A struct that was there is displaced, not dropped. -/
def store (struct : StackStruct) (slot : Nat) (contents : Slot) : StackStruct :=
  match struct with
  | .node id type slots displaced =>
    let old := (slots[slot]?.bind Slot.inner?).toList
    .node id type (slots.set slot contents) (displaced ++ old)

mutual

/-- The node with the given identifier among a struct and all that it owns. -/
def find? (target : NodeId) : StackStruct → Option StackStruct
  | .node id type slots displaced =>
    if id == target then some (.node id type slots displaced)
    else findInSlots? target slots <|> findAmong? target displaced

def findInSlots? (target : NodeId) : List Slot → Option StackStruct
  | [] => none
  | .plain _ :: rest => findInSlots? target rest
  | .nested inner :: rest => inner.find? target <|> findInSlots? target rest

/-- The node with the given identifier among several structs and all that they own. -/
def findAmong? (target : NodeId) : List StackStruct → Option StackStruct
  | [] => none
  | struct :: rest => struct.find? target <|> findAmong? target rest

end

mutual

/-- Changes the node with the given identifier, wherever it stands. -/
def update (target : NodeId) (change : StackStruct → StackStruct) : StackStruct → StackStruct
  | .node id type slots displaced =>
    if id == target then change (.node id type slots displaced)
    else .node id type (updateInSlots target change slots) (updateAmong target change displaced)

def updateInSlots (target : NodeId) (change : StackStruct → StackStruct) :
    List Slot → List Slot
  | [] => []
  | .plain value :: rest => .plain value :: updateInSlots target change rest
  | .nested inner :: rest =>
    .nested (inner.update target change) :: updateInSlots target change rest

def updateAmong (target : NodeId) (change : StackStruct → StackStruct) :
    List StackStruct → List StackStruct
  | [] => []
  | struct :: rest => struct.update target change :: updateAmong target change rest

end

mutual

/-- A deep copy of the current contents, made of nodes numbered from `fresh` on, and the
first number not used. Displaced structs are not copied. -/
def clone (fresh : NodeId) : StackStruct → StackStruct × NodeId
  | .node _ type slots _ =>
    let (slots, next) := cloneSlots (fresh + 1) slots
    (.node fresh type slots [], next)

def cloneSlots (fresh : NodeId) : List Slot → List Slot × NodeId
  | [] => ([], fresh)
  | .plain value :: rest =>
    let (rest, next) := cloneSlots fresh rest
    (.plain value :: rest, next)
  | .nested inner :: rest =>
    let (inner, middle) := inner.clone fresh
    let (rest, next) := cloneSlots middle rest
    (.nested inner :: rest, next)

end

mutual

/-- The bytes a struct and all that it owns are charged with. -/
def bytes : StackStruct → Nat
  | .node _ _ slots displaced =>
    56 + 16 * slots.length + slotBytes slots + bytesAmong displaced

/-- What the structs nested in slots add: a link each, and their own bytes. -/
def slotBytes : List Slot → Nat
  | [] => 0
  | .plain _ :: rest => slotBytes rest
  | .nested inner :: rest => 8 + inner.bytes + slotBytes rest

/-- What displaced structs add: a link each, and their own bytes. -/
def bytesAmong : List StackStruct → Nat
  | [] => 0
  | struct :: rest => 8 + struct.bytes + bytesAmong rest

end

mutual

/-- Drops the displaced structs that no referenced node keeps, at every depth, and tells
whether this struct or anything it owned is referenced. -/
def prune (referenced : NodeId → Bool) : StackStruct → Bool × StackStruct
  | .node id type slots displaced =>
    let (inSlots, slots) := pruneSlots referenced slots
    let (inDisplaced, displaced) := pruneDisplaced referenced displaced
    (referenced id || inSlots || inDisplaced, .node id type slots displaced)

def pruneSlots (referenced : NodeId → Bool) : List Slot → Bool × List Slot
  | [] => (false, [])
  | .plain value :: rest =>
    let (reached, rest) := pruneSlots referenced rest
    (reached, .plain value :: rest)
  | .nested inner :: rest =>
    let (here, inner) := inner.prune referenced
    let (reached, rest) := pruneSlots referenced rest
    (here || reached, .nested inner :: rest)

def pruneDisplaced (referenced : NodeId → Bool) : List StackStruct → Bool × List StackStruct
  | [] => (false, [])
  | struct :: rest =>
    let (here, struct) := struct.prune referenced
    let (reached, rest) := pruneDisplaced referenced rest
    (here || reached, if here then struct :: rest else rest)

end

mutual

/-- The heap objects that the current contents of a struct name. -/
def references : StackStruct → List ObjectId
  | .node _ _ slots _ => slotReferences slots

def slotReferences : List Slot → List ObjectId
  | [] => []
  | .plain (.ref object) :: rest => object :: slotReferences rest
  | .plain _ :: rest => slotReferences rest
  | .nested inner :: rest => inner.references ++ slotReferences rest

end

mutual

/-- Whether two structs are the same node or agree in type and in every slot. -/
def equal : StackStruct → StackStruct → Bool
  | .node id type slots _, other =>
    id == other.id || (type == other.type && equalSlots slots other.slots)

def equalSlots : List Slot → List Slot → Bool
  | [], [] => true
  | .plain a :: left, .plain b :: right => a.identical b && equalSlots left right
  | .nested a :: left, .nested b :: right => a.equal b && equalSlots left right
  | _, _ => false

end

end StackStruct

end ScriptMachine
