import ScriptMachine.Text

set_option autoImplicit false

/- Values. Numbers, booleans and nil are held directly. Everything on the heap is named by the
identifier of its object, and a struct that lives in a call frame by the identifier of its
node; neither kind of identifier is ever used twice. -/
namespace ScriptMachine

abbrev ObjectId := Nat

abbrev NodeId := Nat

/-- Position of a struct type in its registry. -/
abbrev StructId := Nat

inductive Value where
  | nil
  | bool (value : Bool)
  | number (value : Float)
  | ref (object : ObjectId)
  | stack (node : NodeId)
  deriving Inhabited

namespace Value

/-- Nil and false are falsey; everything else, zero and the empty string included, is not. -/
def isFalsey : Value → Bool
  | .nil => true
  | .bool value => !value
  | _ => false

/-- The heap object a value names, if it names one. -/
def object? : Value → Option ObjectId
  | .ref object => some object
  | _ => none

/-- The frame-owned struct a value names, if it names one. -/
def node? : Value → Option NodeId
  | .stack node => some node
  | _ => none

/-- Equality of values that need no look-up: contents for primitives, identity for the rest.
A number that is not a number differs from itself. -/
def identical : Value → Value → Bool
  | .nil, .nil => true
  | .bool a, .bool b => a == b
  | .number a, .number b => a == b
  | .ref a, .ref b => a == b
  | .stack a, .stack b => a == b
  | _, _ => false

end Value

end ScriptMachine
