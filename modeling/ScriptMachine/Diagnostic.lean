import ScriptMachine.Fault

set_option autoImplicit false

/- Diagnostics: what the compiler finds wrong with a unit, and where. -/
namespace ScriptMachine

inductive Problem where
  | malformed (complaint : Text)
  | expected (what : Text)
  | invalidAssignmentTarget
  | alreadyDeclared
  | tooManyLocals
  | tooManyConstants
  | tooManyUpvalues
  | ownInitializer
  | tooManyParameters
  | tooManyArguments
  | nestedStruct
  | nestedTrait
  | nestedImpl
  | structRedefined (struct : Text)
  | duplicateField (field struct : Text)
  | undefinedStruct (struct : Text)
  | traitRedefined (trait : Text)
  | duplicateMethod (method trait : Text)
  | undefinedTrait (trait : Text)
  | alreadyImplemented (trait struct : Text)
  | methodTwice (method : Text)
  | methodNotInTrait (method trait : Text)
  | methodArity (method : Text) (taken : Nat) (trait : Text) (declared : Nat)
  | ambiguousMethod (method struct first second : Text)
  | missingMethod (method trait struct : Text)
  | structInGlobal (name : Text)
  | topLevelReturn
  | returnedStruct (struct : Text)
  | selfOutsideMethod
  | unknownField (struct field : Text)
  | fieldTwice (field : Text)
  | wrongArity (wanted given : Nat)
  deriving DecidableEq, Repr

/-- A name between single quotes. -/
def nameQuoted (name : Text) : Text :=
  39 :: name ++ [39]

def Problem.message : Problem → Text
  | .malformed complaint => complaint
  | .expected what => ascii "Expect " ++ what ++ ascii "."
  | .invalidAssignmentTarget => ascii "Invalid assignment target."
  | .alreadyDeclared => ascii "Already a variable with this name in this scope."
  | .tooManyLocals => ascii "Too many local variables in function."
  | .tooManyConstants => ascii "Too many constants in one chunk."
  | .tooManyUpvalues => ascii "Too many closure variables in function."
  | .ownInitializer => ascii "Can't read local variable in its own initializer."
  | .tooManyParameters => ascii "Can't have more than 255 parameters."
  | .tooManyArguments => ascii "Can't have more than 255 arguments."
  | .nestedStruct => ascii "Struct declarations are only allowed at top level."
  | .nestedTrait => ascii "Trait declarations are only allowed at top level."
  | .nestedImpl => ascii "Impl blocks are only allowed at top level."
  | .structRedefined struct => ascii "Struct " ++ nameQuoted struct ++ ascii " is already defined."
  | .duplicateField field struct =>
    ascii "Duplicate field " ++ nameQuoted field ++ ascii " in struct " ++ nameQuoted struct
      ++ ascii "."
  | .undefinedStruct struct => ascii "Undefined struct " ++ nameQuoted struct ++ ascii "."
  | .traitRedefined trait => ascii "Trait " ++ nameQuoted trait ++ ascii " is already defined."
  | .duplicateMethod method trait =>
    ascii "Duplicate method " ++ nameQuoted method ++ ascii " in trait " ++ nameQuoted trait
      ++ ascii "."
  | .undefinedTrait trait => ascii "Undefined trait " ++ nameQuoted trait ++ ascii "."
  | .alreadyImplemented trait struct =>
    ascii "Trait " ++ nameQuoted trait ++ ascii " is already implemented for "
      ++ nameQuoted struct ++ ascii "."
  | .methodTwice method =>
    ascii "Method " ++ nameQuoted method ++ ascii " is defined twice in this impl."
  | .methodNotInTrait method trait =>
    ascii "Method " ++ nameQuoted method ++ ascii " is not declared in trait "
      ++ nameQuoted trait ++ ascii "."
  | .methodArity method taken trait declared =>
    ascii "Method " ++ nameQuoted method ++ ascii " takes " ++ Text.ofNat taken
      ++ ascii " parameters but trait " ++ nameQuoted trait ++ ascii " declares "
      ++ Text.ofNat declared ++ ascii "."
  | .ambiguousMethod method struct first second =>
    ascii "Ambiguous method " ++ nameQuoted method ++ ascii " on " ++ nameQuoted struct
      ++ ascii ": provided by traits " ++ nameQuoted first ++ ascii " and "
      ++ nameQuoted second ++ ascii "."
  | .missingMethod method trait struct =>
    ascii "Missing method " ++ nameQuoted method ++ ascii " required by trait "
      ++ nameQuoted trait ++ ascii " for " ++ nameQuoted struct ++ ascii "."
  | .structInGlobal name =>
    ascii "Cannot store a stack struct in global " ++ nameQuoted name
      ++ ascii "; allocate it with 'new'."
  | .topLevelReturn => ascii "Can't return from top-level code."
  | .returnedStruct struct =>
    ascii "Cannot return a stack struct; allocate it with 'new " ++ struct
      ++ ascii " \x7b...\x7d'."
  | .selfOutsideMethod => ascii "Can't use 'self' outside of a method."
  | .unknownField struct field =>
    ascii "Struct " ++ nameQuoted struct ++ ascii " has no field " ++ nameQuoted field
      ++ ascii "."
  | .fieldTwice field => ascii "Field " ++ nameQuoted field ++ ascii " is initialized twice."
  | .wrongArity wanted given => arityMessage wanted given

/-- A problem, the place it is reported at, and the function being compiled there. -/
structure Diagnostic where
  line : Nat
  column : Nat
  problem : Problem
  function : Text
  deriving DecidableEq, Repr

namespace Diagnostic

def render (diagnostic : Diagnostic) : Text :=
  Text.ofNat diagnostic.line ++ ascii ":" ++ Text.ofNat diagnostic.column ++ ascii ": error: "
    ++ diagnostic.problem.message ++ ascii " [function: " ++ diagnostic.function ++ ascii "]"

/-- All diagnostics of a unit as one message, one a line. -/
def renderAll (diagnostics : List Diagnostic) : Text :=
  (Text.lines (diagnostics.map render)).beforeZero

end Diagnostic

end ScriptMachine
