import ScriptMachine.Proofs.Syntax.Trees

set_option autoImplicit false

/- Programs as trees. Parentheses leave no trace in them, a variable without an initialiser has the
initialiser `nil`, and a `return` without a value returns `nil`. -/
namespace ScriptMachine.Source

open Syntax (Operator)

mutual

/-- An expression. The receiver of a method is the variable `self`; a literal lists its fields and
their values in the order in which they are written. -/
inductive Expression where
  | nil
  | bool (value : Bool)
  | number (numeral : Text)
  | string (contents : Text)
  | variable (name : Text)
  | not (operand : Expression)
  | negate (operand : Expression)
  | binary (operator : Operator) (left right : Expression)
  | and (left right : Expression)
  | or (left right : Expression)
  | assign (name : Text) (value : Expression)
  | call (callee : Expression) (arguments : List Expression)
  | property (target : Expression) (name : Text)
  | setProperty (target : Expression) (name : Text) (value : Expression)
  | invoke (target : Expression) (name : Text) (arguments : List Expression)
  | literal (onHeap : Bool) (struct : Text) (fields : List Text) (values : List Expression)
  | function (routine : Routine)

/-- A statement or a declaration. Where an `if` has no `else`, or a `for` no first clause, `skip`
stands in its place. -/
inductive Statement where
  | skip
  | expression (value : Expression)
  | print (value : Expression)
  | choose (condition : Expression) (yes no : Statement)
  | while (condition : Expression) (body : Statement)
  | for (first : Statement) (condition increment : Option Expression) (body : Statement)
  | return (value : Expression)
  | block (body : List Statement)
  | var (name : Text) (value : Expression)
  | fn (name : Text) (routine : Routine)
  | struct (name : Text) (fields : List Text)
  | trait (name : Text)
  | impl (trait struct : Text) (methods : List (Text × Routine))

/-- What a function does. -/
inductive Routine where
  | mk (parameters : List Text) (body : List Statement)

end

namespace Routine

def parameters : Routine → List Text
  | .mk parameters _ => parameters

def body : Routine → List Statement
  | .mk _ body => body

end Routine

end ScriptMachine.Source
