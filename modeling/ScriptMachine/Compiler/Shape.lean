import ScriptMachine.Value

set_option autoImplicit false

/- What the compiler knows about the value of an expression. It decides where a struct has to
be copied or moved to the heap, and which calls can be checked before they run. -/
namespace ScriptMachine.Compiler

/-- Where a struct that an expression yields may live. -/
inductive Placement where
  | none
  | stack
  | heap
  | unknown
  deriving DecidableEq, Repr

def Placement.mayBeStack : Placement → Bool
  | .stack | .unknown => true
  | .none | .heap => false

/-- Static knowledge of an expression. `fresh` marks a literal that no variable refers to yet,
so that storing it needs no copy; `arity` is that of the function it names, when known;
`holdsLiteral` says that some path may yield a stack literal built in the current frame. -/
structure Shape where
  placement : Placement := .none
  fresh : Bool := false
  struct : Option StructId := none
  arity : Option Nat := none
  holdsLiteral : Bool := false
  deriving DecidableEq, Repr, Inhabited

namespace Shape

/-- Storing a struct that something else may still refer to must copy it. -/
def needsCopy (shape : Shape) : Bool :=
  (shape.placement == .stack && !shape.fresh) || shape.placement == .unknown

/-- Whether the value may be a stack literal that must not outlive its frame. -/
def escapes (shape : Shape) : Bool :=
  shape.placement == .stack || shape.holdsLiteral

/-- What is known when either of two expressions gave the value. -/
def merge (a b : Shape) : Shape :=
  let holdsLiteral := a.holdsLiteral || b.holdsLiteral
  if a.placement == b.placement then
    { placement := a.placement
      fresh := a.fresh && b.fresh
      struct := if a.struct == b.struct then a.struct else none
      holdsLiteral }
  else if a.placement.mayBeStack || b.placement.mayBeStack then
    { placement := .unknown, holdsLiteral }
  else
    { placement := .heap, holdsLiteral }

/-- What is known of a value once a variable refers to it. -/
def stored (shape : Shape) : Shape :=
  { shape with fresh := false, arity := none }

/-- A value that may be anything, perhaps with a known struct type. -/
def unknownOf (struct : Option StructId) : Shape :=
  { placement := .unknown, struct }

def anything : Shape :=
  unknownOf none

end Shape

end ScriptMachine.Compiler
