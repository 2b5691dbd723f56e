import ScriptMachine.Compiler
import ScriptMachine.Proofs.Compiler.Steps
import ScriptMachine.Proofs.Syntax.Emission

set_option autoImplicit false

/- Precedence climbing over the words of a tree. An operand is read at the level of what stands
around it, and goes on with the operators behind it; so what is shown of a tree leaves open what the
expression goes on with. -/
namespace ScriptMachine.Compiler

open Syntax
open Syntax.Tree (Constant placeOf withText place placeCallee enclose writeAll codeAll)
open Token (Word word)

/-- The productions for what is nested at most `depth` levels deep. -/
def nested (depth : Nat) : Grammar :=
  ⟨depth, operandAt depth, statementAt depth, declarationAt depth⟩

/-- Neither the number of parameters nor the type is known. -/
structure Shape.Plain (shape : Shape) : Prop where
  arity : shape.arity = none
  struct : shape.struct = none

namespace Grammar

/-- An expression. The operators behind its first operand have a bound of their own. -/
def enter (grammar : Grammar) (level : Level) (bound : Nat) : Compile Shape := do
  advance
  match Opening.of? (← previous).kind with
  | none =>
    error (.expected (ascii "expression"))
    return {}
  | some opening =>
    let first ← grammar.opening (level.rank ≤ Level.assignment.rank) opening
    grammar.climb level bound first

/-- One argument, and whether another one follows. -/
def argument (grammar : Grammar) (count : Nat) : Compile (Nat × Bool) := do
  let _ ← grammar.expression
  if count == maxArguments then
    error .tooManyArguments
  return (count + 1, ← accept .comma)

/-- Behind operands with the given code, the expression goes on until `done`. -/
def Continues (grammar : Grammar) (limited : Prop) (registry : Registry) (level : Level)
    (least : Nat) (rest : List Token) (code : List Instruction) (pool : List Constant)
    (done : Shape → State → Prop) : Prop :=
  ∀ bound shape state, least ≤ bound → shape.Plain → Emits limited registry rest code pool state →
    Works limited (grammar.climb level bound shape) state done

/-- Where an expression begins with the tokens, it begins with the code of the tree. Behind them
stands nothing that binds as tightly as `edge`. -/
def Takes (grammar : Grammar) (level edge : Level) (callable : Bool) (tokens : List Token)
    (tree : Tree) : Prop :=
  ∀ ⦃limited : Prop⦄ ⦃registry : Registry⦄ ⦃least bound : Nat⦄ ⦃rest : List Token⦄
    ⦃code : List Instruction⦄ ⦃pool : List Constant⦄ ⦃done : Shape → State → Prop⦄ ⦃state : State⦄,
    Stops edge rest → (callable = false → Lacks .leftParen rest) →
    (tree.code code.length pool).pool.length ≤ maxConstants →
    grammar.Continues limited registry level least rest
      (code ++ (tree.code code.length pool).code) (tree.code code.length pool).pool done →
    least + tokens.length ≤ bound → Emits limited registry (tokens ++ rest) code pool state →
    Works limited (grammar.enter level bound) state done

end Grammar

section Emitting

variable {limited : Prop} {registry : Registry} {rest : List Token} {code : List Instruction}
  {pool : List Constant} {state : State} {grammar : Grammar} {level : Level}

/-- Nothing more belongs to the expression. -/
theorem continues_nothing (stops : Stops level rest) :
    grammar.Continues limited registry level 1 rest code pool fun shape last =>
      shape.Plain ∧ Emits limited registry rest code pool last := by
  intro bound shape state least plain emits
  obtain ⟨bound, rfl⟩ := Nat.exists_eq_add_one.mpr least
  rw [Grammar.climb_succ]
  refine works_ran (operation_quits shape (emits.pending ▸ stops)) ?_
  exact works_ran (emits.refusesIf stops.lacks_equal) (works_pure ⟨plain, emits⟩)

/-- The first operand, by its first token. -/
theorem works_enter {least bound : Nat} {token : Token} {tokens : List Token} {opening : Opening}
    {after : List Instruction} {more : List Constant} {done : Shape → State → Prop}
    (found : Opening.of? token.kind = some opening)
    (emits : Emits limited registry (token :: tokens) code pool state)
    (opens : ∀ middle, Emits limited registry tokens code pool middle →
      middle.cursor.previous = token →
      Works limited (grammar.opening (level.rank ≤ Level.assignment.rank) opening) middle
        fun shape last => shape.Plain ∧ Emits limited registry rest after more last)
    (continues : grammar.Continues limited registry level least rest after more done)
    (enough : least ≤ bound) : Works limited (grammar.enter level bound) state done := by
  refine works_bind (works_advance emits) fun _ first passed => works_ran rfl ?_
  rw [passed.2, found]
  refine works_bind (opens first passed.1 passed.2) fun shape second opened => ?_
  exact continues bound shape second enough opened.1 opened.2

end Emitting

/-- What stands behind a tree binds less tightly than this, or it would belong to the last
operand. -/
def edge : Tree → Level
  | .or _ _ => .or
  | .and _ _ => .and
  | .binary operator _ _ => operator.level.tighter
  | .not _ | .negate _ => .unary
  | _ => .primary

theorem operator_ranks (operator : Operator) : 4 ≤ operator.level.rank ∧
    operator.level.rank ≤ 7 ∧ operator.level.tighter.rank = operator.level.rank + 1 := by
  cases operator <;> decide

theorem level_le_edge (tree : Tree) : tree.level.rank ≤ (edge tree).rank := by
  cases tree with
  | binary operator =>
    have ranks := operator_ranks operator
    simp only [Tree.level, edge]
    omega
  | _ => simp [Tree.level, edge, Level.rank]

theorem assignment_le_level (tree : Tree) : Level.assignment.rank ≤ tree.level.rank := by
  cases tree with
  | binary operator => exact Nat.le_trans (by decide) (operator_ranks operator).1
  | _ => simp [Tree.level, Level.rank]

/-- The tokens of a tree are compiled to its code, wherever they may stand. -/
def Translates (tree : Tree) : Prop :=
  ∀ ⦃depth : Nat⦄ ⦃level : Level⦄ ⦃tokens : List Token⦄, tokens.map word = tree.write →
    level.rank ≤ tree.level.rank → tokens.length < depth →
    (nested depth).Takes level (edge tree) tree.callable tokens tree

section Operands

variable {limited : Prop} {registry : Registry} {depth : Nat} {level inner : Level} {tree : Tree}
  {tokens rest : List Token} {code : List Instruction} {pool : List Constant} {state : State}

/-- What is taken at the beginning of an expression can be all of it. -/
theorem works_whole {edge : Level} {callable : Bool}
    (takes : (nested depth).Takes level edge callable tokens tree)
    (stops : Stops level rest) (low : level.rank ≤ Level.call.rank)
    (sharp : level.rank ≤ edge.rank) (deep : tokens.length < depth)
    (room : (tree.code code.length pool).pool.length ≤ maxConstants)
    (emits : Emits limited registry (tokens ++ rest) code pool state) :
    Works limited (operandAt (depth + 1) level) state fun shape last => shape.Plain ∧
      Emits limited registry rest (code ++ (tree.code code.length pool).code)
        (tree.code code.length pool).pool last := by
  have noCall : Lacks .leftParen rest := by
    intro token next isParen
    have looser := (stops token next).2.2 .call .call (by rw [isParen]; rfl)
    exact absurd (Nat.lt_of_lt_of_le looser low) (Nat.lt_irrefl _)
  have whole : operandAt (depth + 1) level = (nested depth).enter level depth := by
    rw [operandAt]
    rfl
  rw [whole]
  exact takes (stops.tighter sharp) (fun _ => noCall) room (continues_nothing stops)
    (by omega) emits

theorem Translates.works (translates : Translates tree) (written : tokens.map word = tree.write)
    (tight : level.rank ≤ tree.level.rank) (low : level.rank ≤ Level.call.rank)
    (deep : tokens.length + 1 < depth) (stops : Stops level rest)
    (room : (tree.code code.length pool).pool.length ≤ maxConstants)
    (emits : Emits limited registry (tokens ++ rest) code pool state) :
    Works limited (operandAt depth level) state fun shape last => shape.Plain ∧
      Emits limited registry rest (code ++ (tree.code code.length pool).code)
        (tree.code code.length pool).pool last := by
  obtain ⟨depth, rfl⟩ : ∃ less, depth = less + 1 := ⟨depth - 1, by omega⟩
  exact works_whole (translates written tight (by omega)) stops low
    (Nat.le_trans tight (level_le_edge tree)) (by omega) room emits

/-- A tree in parentheses can stand anywhere. -/
theorem Translates.enclosed (translates : Translates tree)
    (written : tokens.map word = enclose tree.write)
    (deep : tokens.length < depth) : (nested depth).Takes level .primary true tokens tree := by
  simp only [enclose, List.cons_append, List.map_eq_cons_iff, List.map_eq_append_iff,
    List.map_eq_nil_iff] at written
  obtain ⟨left, _, rfl, isLeft, inside, _, rfl, written, right, _, rfl, isRight, rfl⟩ := written
  have isLeft : left.kind = .leftParen := congrArg Prod.fst isLeft
  have isRight : right.kind = .rightParen := congrArg Prod.fst isRight
  simp only [List.length_cons, List.length_append, List.length_nil] at deep
  intro limited registry least bound rest code pool done state _ _ room continues enough emits
  simp only [List.cons_append, List.append_assoc, List.nil_append] at emits
  refine works_enter (by rw [isLeft]; rfl) emits (fun middle emits _ => ?_) continues (by omega)
  refine works_bind (translates.works written (assignment_le_level tree) (by decide) (by omega)
    (stops_cons (by rw [isRight]; rfl)) room emits) fun shape first found => ?_
  obtain ⟨plain, emits⟩ := found
  refine works_bind (works_expect emits isRight) fun _ last found => ?_
  exact works_pure ⟨plain, found.2⟩

/-- A tree that stands where operators bind as tightly as `inner`. -/
theorem Translates.placed {edge : Level} (translates : Translates tree)
    (written : tokens.map word = place inner tree tree.write) (below : level.rank ≤ inner.rank)
    (sharp : inner.rank ≤ tree.level.rank → edge.rank ≤ (Compiler.edge tree).rank)
    (high : edge.rank ≤ Level.primary.rank) (deep : tokens.length < depth) :
    (nested depth).Takes level edge false tokens tree := by
  intro limited registry least bound rest code pool done state stops noCall
  unfold place at written
  split at written
  · next tight =>
    exact translates written (Nat.le_trans below tight) deep (stops.tighter (sharp tight))
      fun _ => noCall rfl
  · exact translates.enclosed written deep (stops.tighter high) fun absurdity => by cases absurdity

theorem Translates.operand (translates : Translates tree)
    (written : tokens.map word = place level tree tree.write)
    (low : level.rank ≤ Level.call.rank) (deep : tokens.length + 1 < depth)
    (stops : Stops level rest) (room : (tree.code code.length pool).pool.length ≤ maxConstants)
    (emits : Emits limited registry (tokens ++ rest) code pool state) :
    Works limited (operandAt depth level) state fun shape last => shape.Plain ∧
      Emits limited registry rest (code ++ (tree.code code.length pool).code)
        (tree.code code.length pool).pool last := by
  obtain ⟨depth, rfl⟩ : ∃ less, depth = less + 1 := ⟨depth - 1, by omega⟩
  have takes : (nested depth).Takes level level false tokens tree :=
    translates.placed written (Nat.le_refl _) (fun tight => Nat.le_trans tight (level_le_edge tree))
      (Nat.le_trans low (by decide)) (by omega)
  exact works_whole takes stops low (Nat.le_refl _) (by omega) room emits

end Operands

section Trees

variable {limited : Prop} {registry : Registry} {depth : Nat} {level : Level}
  {tokens rest : List Token} {code : List Instruction} {pool : List Constant} {state : State}

/-- An operand in front of an operator. -/
theorem Translates.before {left : Tree} {inner strength : Level} {joint : Word}
    (translates : Translates left)
    (below : strength.rank ≤ inner.rank)
    (sharp : inner.rank ≤ left.level.rank → strength.rank < (edge left).rank)
    (other : joint.1 ≠ .leftParen) (low : strength.rank < Level.primary.rank)
    (words : tokens.map word = place inner left left.write) (loose : level.rank ≤ strength.rank)
    (deep : tokens.length < depth) : ∃ edge callable,
      (nested depth).Takes level edge callable tokens left ∧ strength.rank < edge.rank ∧
        (callable = false → joint.1 ≠ .leftParen) := by
  by_cases tight : inner.rank ≤ left.level.rank
  · exact ⟨edge left, false, translates.placed words (Nat.le_trans loose below)
      (fun _ => Nat.le_refl _) (by cases edge left <;> decide) deep, sharp tight, fun _ => other⟩
  · exact ⟨.primary, false, translates.placed words (Nat.le_trans loose below)
      (fun isTight => absurd isTight tight) (Nat.le_refl _) deep, low, fun _ => other⟩

end Trees

end ScriptMachine.Compiler
