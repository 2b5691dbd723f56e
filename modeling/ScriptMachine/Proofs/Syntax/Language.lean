import ScriptMachine.Proofs.Compiler.Units
import ScriptMachine.Proofs.Syntax.AcceptDeclarations
import ScriptMachine.Proofs.Syntax.ReadDeclarations

set_option autoImplicit false

/- The language of the compiler is that of the grammar, as far as the order of the tokens goes. -/
namespace ScriptMachine

/-- The message of a problem with the meaning of tokens. -/
theorem Problem.meaning_message {problem : Problem} (meaning : problem.isSyntax = false) :
    ¬ ascii "Expect " <+: problem.message ∧
      problem.message ≠ ascii "Invalid assignment target." := by
  -- the first byte tells most of the messages apart
  have apart : ∀ {first : UInt8} {rest : Text}, problem.message = first :: rest → first ≠ 69 →
      first ≠ 73 → ¬ ascii "Expect " <+: problem.message ∧
        problem.message ≠ ascii "Invalid assignment target." := by
    intro first rest message noE noI
    rw [message]
    refine ⟨fun ⟨tail, same⟩ => noE ?_, fun same => noI ?_⟩
    · exact (List.cons.inj same).1.symm
    · exact (List.cons.inj same).1
  cases problem
  case malformed | expected | invalidAssignmentTarget => cases meaning
  case nestedImpl => exact ⟨by decide, by decide⟩
  case wrongArity wanted given =>
    refine ⟨fun ⟨tail, same⟩ => ?_, fun same => ?_⟩
    · have seventh : some (32 : UInt8) = some 101 := congrArg (fun text => text[6]?) same
      exact absurd seventh (by decide)
    · have first : some (69 : UInt8) = some 73 := congrArg List.head? same
      exact absurd first (by decide)
  all_goals exact apart rfl (by decide) (by decide)

namespace Compiler

open Syntax

section Beginning

variable {heap : Heap} {registry : Registry} {outside : List ObjectId} {tokens : List Token}
  {id : ObjectId}

/-- The tokens of a unit: those before the first `finish`. -/
def unitTokens (tokens : List Token) : List Token :=
  tokens.takeWhile fun token => token.kind != .finish

theorem Cursor.pending_start (tokens : List Token) :
    (Cursor.start tokens).pending = unitTokens tokens := by
  have closes : (closed tokens).takeWhile (fun token => token.kind != .finish)
      = unitTokens tokens := by
    unfold Cursor.closed unitTokens
    split
    · next empty =>
      rw [List.getLast?_eq_none_iff.mp empty]
      rfl
    · split
      · rfl
      · rw [List.takeWhile_append]
        split
        · next whole =>
          rw [List.takeWhile_cons_of_neg (by simp), List.append_nil]
          exact (List.takeWhile_prefix _).eq_of_length whole |>.symm
        · rfl
  rw [← closes, Cursor.start]
  split
  · next here ahead whole => rw [whole, Cursor.pending]
  · next whole =>
    rw [whole]
    rfl

/-- Nothing has been complained about at the beginning. -/
theorem ready_begun : Ready (.begun heap registry outside tokens id) :=
  ⟨rfl, rfl, Cursor.ends_start tokens⟩

theorem pending_begun :
    (State.begun heap registry outside tokens id).pending = unitTokens tokens :=
  Cursor.pending_start tokens

theorem known_begun : (State.begun heap registry outside tokens id).known =
    fun name => (registry.findStruct name).isSome = true := by
  funext name
  cases found : registry.findStruct name <;>
    simp [State.known, State.findStruct, State.begun, found]

end Beginning

section Language

variable {heap : Heap} {registry : Registry} {outside : List ObjectId} {tokens : List Token}

/-- A unit that compiles or is complained about has been run through to its end. -/
theorem unit_of_result {result : Except Failure Compiled}
    (ran : (compile heap registry outside tokens).2 = result)
    (settled : (∃ compiled, result = .ok compiled) ∨ ∃ found, result = .error (.diagnostics found)) :
    ∃ start id state, unit (depthFor tokens.length) (.begun start registry outside tokens id)
      = .ok () state ∧ (finish state).2 = result := by
  unfold compile at ran
  split at ran
  · subst ran
    simp at settled
  next id start _ =>
  dsimp only at ran
  split at ran
  · next state isRun => exact ⟨start, id, state, isRun, ran⟩
  · subst ran
    simp at settled
  · subst ran
    simp at settled

/-- There is a script only where nothing has been complained about. -/
theorem quiet_of_finish {state : State} {compiled : Compiled}
    (finished : (finish state).2 = .ok compiled) : state.diagnostics[0]? = none := by
  unfold finish at finished
  split at finished
  · next quiet => simp [Array.isEmpty_iff.mp quiet]
  · cases finished

theorem diagnostics_of_finish {state : State} {found : List Diagnostic}
    (finished : (finish state).2 = .error (.diagnostics found)) :
    state.diagnostics.toList = found := by
  unfold finish at finished
  split at finished
  · split at finished <;> cases finished
  · cases finished
    rfl

/-- What the compiler accepts is a program of the grammar, and of a program it does not complain
about the order of the tokens first. -/
theorem compile_language (heap : Heap) (registry : Registry) (outside : List ObjectId)
    (tokens : List Token) :
    let known : Text → Prop := fun name => (registry.findStruct name).isSome
    (∀ compiled, (compile heap registry outside tokens).2 = .ok compiled →
      (∀ token ∈ unitTokens tokens, token.kind ≠ .malformed) ∧ Program known (unitTokens tokens)) ∧
    (Program known (unitTokens tokens) → ∀ first rest,
      (compile heap registry outside tokens).2 = .error (.diagnostics (first :: rest)) →
      ¬ ascii "Expect " <+: first.problem.message ∧
        first.problem.message ≠ ascii "Invalid assignment target.") := by
  intro known
  refine ⟨fun compiled ran => ?_, fun program first rest ran => ?_⟩
  · obtain ⟨start, id, state, isRun, finished⟩ :=
      unit_of_result ran (Or.inl ⟨compiled, rfl⟩)
    rcases reads_unit (depthFor tokens.length) ready_begun () state isRun with ⟨-, program⟩ | excused
    · rw [known_begun, pending_begun] at program
      exact ⟨program.legible, program⟩
    · obtain ⟨first, isFirst, -⟩ := excused
      rw [quiet_of_finish finished] at isFirst
      cases isFirst
  · obtain ⟨start, id, state, isRun, finished⟩ :=
      unit_of_result ran (Or.inr ⟨first :: rest, rfl⟩)
    have isFirst : state.diagnostics[0]? = some first := by
      rw [← Array.getElem?_toList, diagnostics_of_finish finished]
      rfl
    have awaits : Awaits known (unitTokens tokens) (.begun start registry outside tokens id) :=
      ⟨pending_begun, known_begun, program.legible⟩
    rcases accepts_unit (depthFor tokens.length) ready_begun awaits program () state isRun with
      ⟨ready, -⟩ | excused
    · rw [show state.diagnostics = #[] from ready.quiet] at isFirst
      cases isFirst
    · obtain ⟨other, isOther, meaning⟩ := excused
      obtain rfl := Option.some.inj (isFirst.symm.trans isOther)
      exact first.problem.meaning_message (meaning trivial)

/-- The tokens of a unit that returns, which no unit may. -/
def returning : List Token :=
  [⟨.returnWord, ascii "return", 1, 1⟩, ⟨.semicolon, ascii ";", 1, 7⟩]

theorem returning_refused : (match (compile (.empty {}) {} [] returning).2 with
    | .error (.diagnostics (_ :: _)) => true
    | _ => false) = true := by
  decide +kernel

theorem compile_language_cases :
    (∃ compiled, (compile (.empty {}) {} [] printingNil).2 = .ok compiled ∧
      Program (fun name => (({} : Registry).findStruct name).isSome) printingNil) ∧
    Program (fun name => (({} : Registry).findStruct name).isSome) returning ∧
    ∃ first rest, (compile (.empty {}) {} [] returning).2 = .error (.diagnostics (first :: rest)) ∧
      ¬ ascii "Expect " <+: first.problem.message := by
  have returns : Program (fun name => (({} : Registry).findStruct name).isSome) returning := by
    rw [← List.append_nil returning]
    refine .declaration (.symbol (.oneOf (List.mem_of_getElem? (i := 3) rfl) (.symbol (.oneOf
      (List.mem_of_getElem? (i := 2) rfl) (.symbol (.oneOf (List.mem_of_getElem? (i := 4) rfl)
        (.symbol ?_))))))) .nothing
    rw [production]
    simp only [derives_row_cons, derives_row_nil, derives_word, derives_optional]
    exact ⟨[_], [_], rfl, ⟨_, rfl, rfl⟩, [], [_], rfl, Or.inl rfl, [_], [], rfl, ⟨_, rfl, rfl⟩, rfl⟩
  refine ⟨?_, returns, ?_⟩
  · have compiles : (compile (.empty {}) {} [] printingNil).2.isOk = true := by decide +kernel
    cases ran : (compile (.empty {}) {} [] printingNil).2 with
    | error failure =>
      rw [ran] at compiles
      cases compiles
    | ok compiled =>
      exact ⟨compiled, rfl, ((compile_language (.empty {}) {} [] printingNil).1 compiled ran).2⟩
  · have complains := returning_refused
    split at complains
    · next first rest ran =>
      exact ⟨first, rest, ran, ((compile_language (.empty {}) {} [] returning).2 returns first rest ran).1⟩
    · cases complains

end Language

end Compiler

end ScriptMachine
