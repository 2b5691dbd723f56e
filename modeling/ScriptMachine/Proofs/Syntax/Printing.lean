import ScriptMachine.Proofs.Compiler.Retaining
import ScriptMachine.Proofs.Syntax.Climbing
import ScriptMachine.Proofs.Syntax.Language

set_option autoImplicit false

/- A unit that prints the value of one expression. -/
namespace ScriptMachine.Compiler

open Syntax
open Syntax.Tree (Constant)
open Token (Word word)

section Statement

variable {limited : Prop} {registry : Registry} {depth : Nat} {tree : Tree} {token : Token}
  {tokens rest : List Token} {code : List Instruction} {pool : List Constant} {state : State}

end Statement

section Unit

variable {limited : Prop} {registry : Registry} {tree : Tree} {tokens : List Token}
  {code : List Instruction} {pool : List Constant} {state : State}

theorem Denotes.set {heap : Heap} {id : ObjectId} {body : Prototype} {object : Object}
    {value : Value}
    {constant : Constant} (script : heap.get? id = some (.function body))
    (denotes : Denotes heap value constant) : Denotes (heap.set id object) value constant := by
  cases value with
  | ref other =>
    cases constant with
    | number _ => exact denotes
    | text contents =>
      have present : heap.get? other = some (.string contents) := denotes
      have apart : id ≠ other := by
        rintro rfl
        rw [script] at present
        cases present
      exact (Heap.get?_set_of_ne apart).trans present
  | number _ => cases constant <;> exact denotes
  | nil | bool _ | stack _ => cases denotes

/-- A unit that has been read to its end becomes a script. -/
theorem Emits.finish (emits : Emits limited registry [] code pool state) :
    ∃ after script body, Compiler.finish state = (after, .ok ⟨script, registry⟩) ∧
      after.prototype? script = some body ∧ body.code.toList = code ∧
      List.Forall₂ (Denotes after) body.constants.toList pool := by
  have committed : state.committed = .ok registry := by
    rw [State.committed, emits.staged, emits.registered]
    rfl
  refine ⟨state.heap.set state.draft.id (.function state.draft.body), state.draft.id,
    state.draft.body, ?_, ?_, emits.code, emits.pool.imp fun _ _ => Denotes.set emits.script⟩
  · rw [Compiler.finish, emits.ready.quiet, committed]
    rfl
  · rw [Heap.prototype?, Heap.get?_set_self emits.script]

end Unit

end ScriptMachine.Compiler
