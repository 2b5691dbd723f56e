import Mathlib.Data.List.Forall2
import ScriptMachine.Proofs.Heap.Table
import ScriptMachine.Proofs.Syntax.AcceptExpressions
import ScriptMachine.Proofs.Syntax.Trees

set_option autoImplicit false

/- What a compilation writes while it reads: the instructions so far, and the constants as texts and
numbers. All rules here say that an action does end, unless the heap has a limit and is full. -/
namespace ScriptMachine.Compiler

open Syntax
open Syntax.Tree (Constant placeOf withText)

/-- The action ends with `done`, or else the heap is full, which takes a limit. -/
def Works {α : Type} (limited : Prop) (action : Compile α) (state : State)
    (done : α → State → Prop) : Prop :=
  (∃ result last, action state = .ok result last ∧ done result last) ∨
    limited ∧ ∃ failure last, action state = .error (.exhausted failure) last

section Rules

variable {limited : Prop} {α β : Type} {state : State}

theorem works_ok {action : Compile α} {value : α} {last : State} {done : α → State → Prop}
    (ran : action state = .ok value last) (holds : done value last) :
    Works limited action state done :=
  Or.inl ⟨value, last, ran, holds⟩

theorem works_pure {value : α} {done : α → State → Prop} (holds : done value state) :
    Works limited (pure value) state done :=
  works_ok rfl holds

theorem works_ran {first : Compile β} {rest : β → Compile α} {done : α → State → Prop} {value : β}
    {middle : State} (ran : first state = .ok value middle)
    (next : Works limited (rest value) middle done) : Works limited (first >>= rest) state done :=
      by
  simp only [Works, bind, EStateM.bind, ran]
  exact next

theorem works_bind {first : Compile β} {rest : β → Compile α} {between : β → State → Prop}
    {done : α → State → Prop} (begins : Works limited first state between)
    (continues : ∀ value middle, between value middle → Works limited (rest value) middle done) :
    Works limited (first >>= rest) state done := by
  rcases begins with ⟨value, middle, ran, holds⟩ | ⟨isLimited, failure, last, stopped⟩
  · exact works_ran ran (continues value middle holds)
  · refine Or.inr ⟨isLimited, failure, last, ?_⟩
    simp only [bind, EStateM.bind, stopped]

theorem Works.mono {action : Compile α} {done weaker : α → State → Prop}
    (works : Works limited action state done)
    (implies : ∀ result last, done result last → weaker result last) :
    Works limited action state weaker := by
  rcases works with ⟨result, last, ran, holds⟩ | stopped
  · exact Or.inl ⟨result, last, ran, implies result last holds⟩
  · exact Or.inr stopped

end Rules

/-- The constant that a value in the pool of a prototype stands for. -/
def Denotes (heap : Heap) : Value → Constant → Prop
  | .ref id, .text contents => heap.get? id = some (.string contents)
  | .number value, .number other => value = other
  | _, _ => False

/-- A unit whose script so far has the given code and constants, with tokens still to be read. The
script has no variables of its own. -/
structure Emits (limited : Prop) (registry : Registry) (rest : List Token) (code : List Instruction)
    (pool : List Constant) (state : State) : Prop where
  ready : Ready state
  pending : state.pending = rest
  legible : ∀ token ∈ rest, token.kind ≠ .malformed
  code : state.draft.body.code.toList = code
  pool : List.Forall₂ (Denotes state.heap) state.draft.body.constants.toList pool
  tidy : state.heap.Tidy
  script : state.heap.get? state.draft.id = some (.function {})
  limit : state.heap.config.limit ≠ 0 → limited
  locals : state.draft.locals.map Variable.name = [[]]
  enclosing : state.enclosing = []
  globals : ∀ name : Text, state.globals[name]? = none
  staged : state.staged = {}
  registered : state.registry = registry

section Writing

variable {limited : Prop} {registry : Registry} {rest : List Token} {code : List Instruction}
  {pool : List Constant} {state : State}

end Writing

section Reading

variable {limited : Prop} {registry : Registry} {token : Token} {rest : List Token}
  {code : List Instruction} {pool : List Constant} {kind : TokenKind} {state : State}

theorem works_step (emits : Emits limited registry (token :: rest) code pool state) :
    Works limited step state fun _ last =>
      Emits limited registry rest code pool last ∧ last.cursor.previous = token := by
  obtain ⟨pending, previous⟩ := emits.ready.ends.passes emits.pending
  have legible : ∀ token ∈ rest, token.kind ≠ .malformed := fun token member =>
    emits.legible token (List.mem_cons_of_mem _ member)
  have settled : (state.cursor.moved.here.kind == .malformed) = false := by
    rw [beq_eq_false_iff_ne]
    cases waiting : state.cursor.moved.pending with
    | nil =>
      rw [Cursor.here_of_nothing waiting]
      decide
    | cons next more =>
      rw [(Cursor.here_of_pending waiting).1]
      exact legible next (by rw [← pending, waiting]; exact List.mem_cons_self)
  have ran : step state = .ok () { state with cursor := state.cursor.moved } := by
    change (if (state.cursor.moved.here.kind == .malformed) = true then _ else _ : Compile Unit) _
      = _
    rw [settled]
    rfl
  exact works_ok ran ⟨⟨⟨emits.ready.quiet, emits.ready.calm, emits.ready.ends.moved⟩, pending,
    legible,
    emits.code, emits.pool, emits.tidy, emits.script, emits.limit, emits.locals, emits.enclosing,
    emits.globals, emits.staged, emits.registered⟩, previous⟩

theorem works_advance (emits : Emits limited registry (token :: rest) code pool state) :
    Works limited advance state fun _ last =>
      Emits limited registry rest code pool last ∧ last.cursor.previous = token := by
  refine works_ran atEnd_eq ?_
  rw [emits.pending]
  exact works_step emits

theorem Emits.check (emits : Emits limited registry (token :: rest) code pool state) :
    Compiler.check kind state = .ok (token.kind == kind) state := by
  rw [check_eq, emits.pending]
  rfl

theorem works_expect {what : String}
    (emits : Emits limited registry (token :: rest) code pool state)
    (same : token.kind = kind) : Works limited (expect kind what) state fun found last =>
      found = token ∧ Emits limited registry rest code pool last := by
  refine works_ran emits.check ?_
  rw [same, beq_self_eq_true]
  exact works_bind (works_step emits) fun _ last stepped =>
    works_ran rfl (works_pure ⟨stepped.2, stepped.1⟩)

theorem Emits.refuses (emits : Emits limited registry rest code pool state)
    (lacks : Lacks kind rest) :
    accept kind state = .ok false state :=
  accept_refuses (emits.pending ▸ lacks)

theorem Emits.refusesIf {allowed : Bool} (emits : Emits limited registry rest code pool state)
    (lacks : Lacks kind rest) : acceptIf allowed kind state = .ok false state := by
  cases allowed
  · rfl
  · exact emits.refuses lacks

end Reading

end ScriptMachine.Compiler
