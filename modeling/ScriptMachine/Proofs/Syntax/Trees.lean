import ScriptMachine.Compiler.Expression
import ScriptMachine.Proofs.Token.Sequence

set_option autoImplicit false

/- Expressions as trees: how a tree is written, with parentheses where the precedence of operators
asks for them, and the code of a tree, operands first and from left to right. Neither looks at how
an expression is compiled. -/
namespace ScriptMachine.Syntax

open Compiler (Level)
open Token (Word)

inductive Operator where
  | equal | unequal | less | lessEqual | greater | greaterEqual | plus | minus | times | over

namespace Operator

def word : Operator → Word
  | .equal => (.equalEqual, ascii "==")
  | .unequal => (.bangEqual, ascii "!=")
  | .less => (.less, ascii "<")
  | .lessEqual => (.lessEqual, ascii "<=")
  | .greater => (.greater, ascii ">")
  | .greaterEqual => (.greaterEqual, ascii ">=")
  | .plus => (.plus, ascii "+")
  | .minus => (.minus, ascii "-")
  | .times => (.star, ascii "*")
  | .over => (.slash, ascii "/")

def level : Operator → Level
  | .equal | .unequal => .equality
  | .less | .lessEqual | .greater | .greaterEqual => .comparison
  | .plus | .minus => .term
  | .times | .over => .factor

/-- What is done with two operands. -/
def code : Operator → List Opcode
  | .equal => [.equal]
  | .unequal => [.equal, .not]
  | .less => [.less]
  | .lessEqual => [.greater, .not]
  | .greater => [.greater]
  | .greaterEqual => [.less, .not]
  | .plus => [.add]
  | .minus => [.subtract]
  | .times => [.multiply]
  | .over => [.divide]

end Operator

/-- An expression. A `group` is a pair of parentheses that stands for itself. -/
inductive Tree where
  | nil
  | bool (value : Bool)
  | number (numeral : Text)
  | string (contents : Text)
  | global (name : Text)
  | group (inner : Tree)
  | not (operand : Tree)
  | negate (operand : Tree)
  | binary (operator : Operator) (left right : Tree)
  | and (left right : Tree)
  | or (left right : Tree)
  | call (callee : Tree) (arguments : List Tree)
  | property (target : Tree) (name : Text)
  | invoke (target : Tree) (name : Text) (arguments : List Tree)

namespace Tree

/-- How tightly the outermost operator binds. -/
def level : Tree → Level
  | .or _ _ => .or
  | .and _ _ => .and
  | .binary operator _ _ => operator.level
  | .not _ | .negate _ => .unary
  | .call _ _ | .property _ _ | .invoke _ _ _ => .call
  | _ => .primary

/-- Whether arguments can stand right behind it and are those of a call. Behind a property they
would be those of a method call. -/
def callable : Tree → Bool
  | .property _ _ => false
  | tree => Level.call.rank ≤ tree.level.rank

def enclose (words : List Word) : List Word :=
  (.leftParen, ascii "(") :: words ++ [(.rightParen, ascii ")")]

/-- The words of a tree where operators have to bind as tightly as `level`. -/
def place (level : Level) (tree : Tree) (words : List Word) : List Word :=
  if level.rank ≤ tree.level.rank then words else enclose words

/-- The words of a tree in front of the arguments of a call. -/
def placeCallee (tree : Tree) (words : List Word) : List Word :=
  if tree.callable then words else enclose words

mutual

/-- How a tree is written. Operators of one level group to the left, `and` and `or` to the
right. -/
def write : Tree → List Word
  | .nil => [(.nilWord, ascii "nil")]
  | .bool true => [(.trueWord, ascii "true")]
  | .bool false => [(.falseWord, ascii "false")]
  | .number numeral => [(.number, numeral)]
  | .string contents => [(.string, contents)]
  | .global name => [(.identifier, name)]
  | .group inner => enclose inner.write
  | .not operand => (.bang, ascii "!") :: place .unary operand operand.write
  | .negate operand => (.minus, ascii "-") :: place .unary operand operand.write
  | .binary operator left right =>
    place operator.level left left.write ++ operator.word ::
      place operator.level.tighter right right.write
  | .and left right =>
    place Level.and.tighter left left.write ++ (.andWord, ascii "and") ::
      place .and right right.write
  | .or left right =>
    place Level.or.tighter left left.write ++ (.orWord, ascii "or") :: place .or right right.write
  | .call callee arguments =>
    placeCallee callee callee.write ++ enclose (writeAll arguments)
  | .property target name =>
    place .call target target.write ++ [(.dot, ascii "."), (.identifier, name)]
  | .invoke target name arguments =>
    place .call target target.write ++ (.dot, ascii ".") :: (.identifier, name) ::
      enclose (writeAll arguments)

/-- Arguments, with commas between them. -/
def writeAll : List Tree → List Word
  | [] => []
  | tree :: rest =>
    tree.write ++ if rest.isEmpty then [] else (.comma, ascii ",") :: writeAll rest

end

/-- What an instruction can name. -/
inductive Constant where
  | text (contents : Text)
  | number (value : Float)

def Constant.isText (contents : Text) : Constant → Bool
  | .text other => other == contents
  | .number _ => false

/-- Instructions, and the constants of the function that they are for. -/
structure Output where
  code : List Instruction
  pool : List Constant

/-- The place of a text among the constants, behind the last one if it is new. -/
def placeOf (contents : Text) (pool : List Constant) : Nat :=
  (pool.findIdx? (Constant.isText contents)).getD pool.length

/-- The constants with a text among them. -/
def withText (contents : Text) (pool : List Constant) : List Constant :=
  if pool.any (Constant.isText contents) then pool else pool ++ [.text contents]

/-- An instruction that names a text. -/
def naming (op : Opcode) (contents : Text) (pool : List Constant) : Instruction :=
  ⟨op, placeOf contents pool, 0⟩

mutual

/-- The code of a tree that is written from position `start` on, in a function with the constants
in `pool`. -/
def code : Tree → (start : Nat) → (pool : List Constant) → Output
  | .nil, _, pool => ⟨[⟨.nil, 0, 0⟩], pool⟩
  | .bool value, _, pool => ⟨[⟨if value then .true else .false, 0, 0⟩], pool⟩
  | .number numeral, _, pool =>
    ⟨[⟨.constant, pool.length, 0⟩], pool ++ [.number (Number.read numeral)]⟩
  | .string contents, _, pool => ⟨[naming .constant contents pool], withText contents pool⟩
  | .global name, _, pool => ⟨[naming .getGlobal name pool], withText name pool⟩
  | .group inner, start, pool => inner.code start pool
  | .not operand, start, pool =>
    let first := operand.code start pool
    ⟨first.code ++ [⟨.not, 0, 0⟩], first.pool⟩
  | .negate operand, start, pool =>
    let first := operand.code start pool
    ⟨first.code ++ [⟨.negate, 0, 0⟩], first.pool⟩
  | .binary operator left right, start, pool =>
    let first := left.code start pool
    let second := right.code (start + first.code.length) first.pool
    ⟨first.code ++ second.code ++ operator.code.map (⟨·, 0, 0⟩), second.pool⟩
  | .and left right, start, pool =>
    let first := left.code start pool
    let second := right.code (start + first.code.length + 2) first.pool
    let behind := start + first.code.length + 2 + second.code.length
    ⟨first.code ++ ⟨.jumpIfFalse, behind, 0⟩ :: ⟨.pop, 0, 0⟩ :: second.code, second.pool⟩
  | .or left right, start, pool =>
    let first := left.code start pool
    let second := right.code (start + first.code.length + 2) first.pool
    let behind := start + first.code.length + 2 + second.code.length
    ⟨first.code ++ ⟨.jumpIfTrue, behind, 0⟩ :: ⟨.pop, 0, 0⟩ :: second.code, second.pool⟩
  | .call callee arguments, start, pool =>
    let first := callee.code start pool
    let second := codeAll arguments (start + first.code.length) first.pool
    ⟨first.code ++ second.code ++ [⟨.call, arguments.length, 0⟩], second.pool⟩
  | .property target name, start, pool =>
    let first := target.code start pool
    ⟨first.code ++ [naming .getProperty name first.pool], withText name first.pool⟩
  | .invoke target name arguments, start, pool =>
    let first := target.code start pool
    let second := codeAll arguments (start + first.code.length) (withText name first.pool)
    ⟨first.code ++ second.code ++ [⟨.invoke, placeOf name first.pool, arguments.length⟩],
      second.pool⟩

/-- The code of arguments, one behind the other. -/
def codeAll : List Tree → (start : Nat) → (pool : List Constant) → Output
  | [], _, pool => ⟨[], pool⟩
  | tree :: rest, start, pool =>
    let first := tree.code start pool
    let second := codeAll rest (start + first.code.length) first.pool
    ⟨first.code ++ second.code, second.pool⟩

end

mutual

/-- The tree without the parentheses that stand for themselves. -/
def bare : Tree → Tree
  | .group inner => inner.bare
  | .not operand => .not operand.bare
  | .negate operand => .negate operand.bare
  | .binary operator left right => .binary operator left.bare right.bare
  | .and left right => .and left.bare right.bare
  | .or left right => .or left.bare right.bare
  | .call callee arguments => .call callee.bare (bareAll arguments)
  | .property target name => .property target.bare name
  | .invoke target name arguments => .invoke target.bare name (bareAll arguments)
  | tree => tree

def bareAll : List Tree → List Tree
  | [] => []
  | tree :: rest => tree.bare :: bareAll rest

end

mutual

/-- Names are not empty, and no call has too many arguments. -/
def Fits : Tree → Prop
  | .global name => name ≠ []
  | .group inner | .not inner | .negate inner => inner.Fits
  | .binary _ left right | .and left right | .or left right => left.Fits ∧ right.Fits
  | .call callee arguments => callee.Fits ∧ arguments.length ≤ 255 ∧ FitsAll arguments
  | .property target _ => target.Fits
  | .invoke target _ arguments => target.Fits ∧ arguments.length ≤ 255 ∧ FitsAll arguments
  | _ => True

def FitsAll : List Tree → Prop
  | [] => True
  | tree :: rest => tree.Fits ∧ FitsAll rest

end

/-- Induction over trees, arguments included. -/
@[elab_as_elim]
theorem induct {motive : Tree → Prop} (nil : motive .nil) (bool : ∀ value, motive (.bool value))
    (number : ∀ numeral, motive (.number numeral)) (string : ∀ contents, motive (.string contents))
    (global : ∀ name, motive (.global name)) (group : ∀ inner, motive inner → motive (.group inner))
    (not : ∀ operand, motive operand → motive (.not operand))
    (negate : ∀ operand, motive operand → motive (.negate operand))
    (binary : ∀ operator left right, motive left → motive right →
      motive (.binary operator left right))
    (and : ∀ left right, motive left → motive right → motive (.and left right))
    (or : ∀ left right, motive left → motive right → motive (.or left right))
    (call : ∀ callee arguments, motive callee → (∀ tree ∈ arguments, motive tree) →
      motive (.call callee arguments))
    (property : ∀ target name, motive target → motive (.property target name))
    (invoke : ∀ target name arguments, motive target → (∀ tree ∈ arguments, motive tree) →
      motive (.invoke target name arguments)) (tree : Tree) : motive tree :=
  @Tree.rec motive (fun trees => ∀ tree ∈ trees, motive tree) nil bool number string global group
    not
    negate binary and or call property invoke (fun _ member => absurd member List.not_mem_nil)
    (fun _ _ first rest => List.forall_mem_cons.mpr ⟨first, rest⟩) tree

end Tree

end ScriptMachine.Syntax
