import ScriptMachine.Value

set_option autoImplicit false

/- Declared structs and traits. A struct's identifier is its position in the registry. -/
namespace ScriptMachine

/-- A method of a struct: the trait that asks for it, and a closure without upvalues. -/
structure Method where
  trait : Text
  closure : ObjectId
  deriving DecidableEq, Repr

/-- A struct type. `methods` merges the tables of all its impls. -/
structure StructType where
  name : Text
  fields : List Text
  methods : List (Text × Method) := []
  traits : List Text := []
  deriving DecidableEq, Repr, Inhabited

namespace StructType

/-- The slot of a field; of a name declared twice, the first. -/
def findField (type : StructType) (field : Text) : Option Nat :=
  type.fields.idxOf? field

def findMethod (type : StructType) (method : Text) : Option Method :=
  type.methods.lookup method

def implements (type : StructType) (trait : Text) : Bool :=
  type.traits.contains trait

def addTrait (type : StructType) (trait : Text) : StructType :=
  if type.implements trait then type else { type with traits := type.traits ++ [trait] }

/-- Files a method under its name, in place of one that already has the name, and counts its
trait as implemented. -/
def addMethod (type : StructType) (name : Text) (method : Method) : StructType :=
  let others := type.methods.filter fun entry => entry.1 != name
  { type.addTrait method.trait with methods := others ++ [(name, method)] }

end StructType

/-- A method that a trait asks for. -/
structure Signature where
  name : Text
  arity : Nat
  deriving DecidableEq, Repr

structure TraitType where
  name : Text
  methods : List Signature
  deriving DecidableEq, Repr, Inhabited

def TraitType.findMethod (trait : TraitType) (method : Text) : Option Signature :=
  trait.methods.find? fun signature => signature.name == method

structure Registry where
  structs : Array StructType := #[]
  traits : List TraitType := []
  deriving Inhabited

inductive RegistryError where
  | outOfOrder (struct : Text)
  | structTaken (struct : Text)
  | traitTaken (trait : Text)
  deriving DecidableEq, Repr

def RegistryError.message (error : RegistryError) : Text :=
  Text.beforeZero <| match error with
    | .outOfOrder struct => ascii "Struct '" ++ struct ++ ascii "' registered out of order"
    | .structTaken struct => ascii "Struct '" ++ struct ++ ascii "' is already registered"
    | .traitTaken trait => ascii "Trait '" ++ trait ++ ascii "' is already registered"

namespace Registry

/-- The identifier the next struct will get. -/
def nextId (registry : Registry) : StructId :=
  registry.structs.size

def struct? (registry : Registry) (id : StructId) : Option StructType :=
  registry.structs[id]?

def findStruct (registry : Registry) (name : Text) : Option StructId :=
  registry.structs.findIdx? fun type => type.name == name

def findTrait (registry : Registry) (name : Text) : Option TraitType :=
  registry.traits.find? fun trait => trait.name == name

/-- Registers a struct under the identifier it was declared with, which must be the next. -/
def addStruct (registry : Registry) (id : StructId) (type : StructType) :
    Except RegistryError Registry :=
  if id != registry.nextId then .error (.outOfOrder type.name)
  else if (registry.findStruct type.name).isSome then .error (.structTaken type.name)
  else .ok { registry with structs := registry.structs.push type }

def addTrait (registry : Registry) (trait : TraitType) : Except RegistryError Registry :=
  if (registry.findTrait trait.name).isSome then .error (.traitTaken trait.name)
  else .ok { registry with traits := registry.traits ++ [trait] }

/-- Counts a trait as implemented by a struct. -/
def implement (registry : Registry) (id : StructId) (trait : Text) : Registry :=
  { registry with structs := registry.structs.modify id fun type => type.addTrait trait }

def addMethod (registry : Registry) (id : StructId) (name : Text) (method : Method) :
    Registry :=
  { registry with structs := registry.structs.modify id fun type => type.addMethod name method }

/-- The objects that registered methods keep alive. -/
def roots (registry : Registry) : List ObjectId :=
  registry.structs.toList.flatMap fun type => type.methods.map fun entry => entry.2.closure

end Registry

end ScriptMachine
