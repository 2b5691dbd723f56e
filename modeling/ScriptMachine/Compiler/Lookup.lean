import ScriptMachine.Compiler.Scope

set_option autoImplicit false

/- Struct and trait declarations as the unit sees them: those of earlier units, then its own. -/
namespace ScriptMachine.Compiler

namespace State

def findStruct (state : State) (name : Text) : Option StructId :=
  state.registry.findStruct name <|>
    (state.staged.structs.findIdx? fun type => type.name == name).map
      (state.registry.nextId + ·)

def struct? (state : State) (id : StructId) : Option StructType :=
  state.registry.struct? id <|> state.staged.structs[id - state.registry.nextId]?

def findTrait (state : State) (name : Text) : Option TraitType :=
  state.registry.findTrait name <|>
    state.staged.traits.find? fun trait => trait.name == name

/-- Whether a struct implements a trait, in this unit or before. -/
def implements (state : State) (struct : StructId) (trait : Text) : Bool :=
  ((state.struct? struct).any fun type => type.implements trait)
    || state.staged.impls.contains (struct, trait)

/-- A struct's method of the given name, from this unit or before. -/
def findMethod (state : State) (struct : StructId) (name : Text) : Option Method :=
  ((state.struct? struct).bind fun type => type.findMethod name) <|>
    (state.staged.methods.find? fun staged => staged.struct == struct && staged.name == name).map
      StagedMethod.method

/-- How many parameters a method takes. -/
def methodArity (state : State) (method : Method) : Option Nat :=
  (state.heap.closurePrototype? method.closure).map Prototype.arity

/-- The registry with the unit's declarations in it. -/
def committed (state : State) : Except RegistryError Registry := do
  let registry ← state.staged.structs.foldlM
    (fun registry type => registry.addStruct registry.nextId type) state.registry
  let registry ← state.staged.traits.foldlM Registry.addTrait registry
  let registry := state.staged.impls.foldl
    (fun registry (struct, trait) => registry.implement struct trait) registry
  return state.staged.methods.foldl
    (fun registry staged => registry.addMethod staged.struct staged.name staged.method) registry

end State

/-- The name of a struct. -/
def structName (id : StructId) : Compile Text := do
  return (((← get).struct? id).map StructType.name).getD []

end ScriptMachine.Compiler
