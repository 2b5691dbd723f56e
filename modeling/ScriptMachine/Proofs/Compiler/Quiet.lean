import ScriptMachine.Proofs.Compiler.Change

set_option autoImplicit false

/- Compiling without a diagnostic. A diagnostic is never taken back, so what ends quietly has been
quiet all along, and in a quiet run no report is ever made. -/
namespace ScriptMachine.Compiler

def Quiet (state : State) : Prop :=
  state.diagnostics = #[]

/-- The tokens from the current one on end with one of kind `finish`. -/
def Cursor.Ends (cursor : Cursor) : Prop :=
  ∃ between last, cursor.here :: cursor.ahead = between ++ [last] ∧ last.kind = .finish

theorem Cursor.Ends.moved {cursor : Cursor} (ends : cursor.Ends) : cursor.moved.Ends := by
  unfold Cursor.moved
  split
  · exact ends
  · next here ahead split =>
    obtain ⟨between, last, whole, isFinish⟩ := ends
    rw [split] at whole
    cases between with
    | nil => cases whole
    | cons first between => exact ⟨between, last, (List.cons.inj whole).2, isFinish⟩

theorem Cursor.Ends.settled {cursor : Cursor} (ends : cursor.Ends) : cursor.settled.Ends := by
  unfold Cursor.settled
  split
  · exact ends
  · next here ahead split =>
    obtain ⟨between, last, whole, isFinish⟩ := ends
    have kept : [last].dropWhile (fun token => token.kind == .malformed) = [last] := by
      simp [isFinish]
    rw [whole, List.dropWhile_append, kept] at split
    split at split
    · exact ⟨[], last, split.symm, isFinish⟩
    · exact ⟨_, last, split.symm, isFinish⟩

/-- Every identifier among the tokens has a text. The scanner makes no others. -/
def Cursor.Worded (cursor : Cursor) : Prop :=
  ∀ token ∈ cursor.passed ++ cursor.here :: cursor.ahead, token.kind = .identifier → token.text ≠ []

theorem Cursor.worded_moved (cursor : Cursor) : cursor.moved.Worded ↔ cursor.Worded := by
  unfold Cursor.moved Cursor.Worded
  split
  · rfl
  · next here ahead rest =>
    rw [rest]
    have same : ∀ token, token ∈ (cursor.here :: cursor.passed) ++ here :: ahead ↔
        token ∈ cursor.passed ++ cursor.here :: here :: ahead := by
      intro token
      simp only [List.mem_append, List.mem_cons, or_assoc, or_left_comm]
    simp only [same]

theorem Cursor.worded_settled (cursor : Cursor) : cursor.settled.Worded ↔ cursor.Worded := by
  unfold Cursor.settled Cursor.Worded
  split
  · rfl
  · next here ahead rest =>
    have kept : ∀ token ∈ cursor.here :: cursor.ahead, token.kind = .identifier →
        token ∈ here :: ahead := by
      intro token member isWord
      rw [← List.takeWhile_append_dropWhile (p := fun token : Token => token.kind == .malformed)
        (l := cursor.here :: cursor.ahead), rest] at member
      rcases List.mem_append.mp member with dropped | there
      · have malformed := List.all_eq_true.mp List.all_takeWhile token dropped
        rw [isWord] at malformed
        cases malformed
      · exact there
    have among : ∀ token ∈ here :: ahead, token ∈ cursor.here :: cursor.ahead := by
      intro token member
      rw [← rest] at member
      exact (List.dropWhile_suffix _).subset member
    simp only [List.mem_append]
    constructor
    · intro worded token member isWord
      exact worded token (member.imp_right fun there => kept token there isWord) isWord
    · intro worded token member isWord
      exact worded token (member.imp_right (among token)) isWord

theorem Cursor.worded_previous {cursor : Cursor} (worded : cursor.Worded)
    (isWord : cursor.previous.kind = .identifier) : cursor.previous.text ≠ [] := by
  refine worded _ ?_ isWord
  unfold Cursor.previous
  cases cursor.passed with
  | nil => simp
  | cons last rest => simp

/-- Reports are held back only behind one that was made, and there are tokens to the end. -/
def Calm (state : State) : Prop :=
  (state.panicking = true → ¬ Quiet state) ∧ state.cursor.Ends

section Changes

variable {before after : State}

theorem Change.quiet (change : Change before after) (quiet : Quiet after) : Quiet before := by
  cases change with
  | report diagnostic => simp [Quiet] at quiet
  | _ => exact quiet

theorem Change.staysCalm (change : Change before after) (calm : Calm before) : Calm after := by
  cases change with
  | report diagnostic =>
    refine ⟨fun _ quiet => ?_, calm.2⟩
    simp [Quiet] at quiet
  | calm => exact ⟨fun panicking => (by cases panicking), calm.2⟩
  | move => exact ⟨calm.1, calm.2.moved⟩
  | settle => exact ⟨calm.1, calm.2.settled⟩
  | _ => exact calm

theorem quiet_of_changes (changes : Changes before after) (quiet : Quiet after) : Quiet before := by
  induction changes with
  | refl => exact quiet
  | tail _ last ih => exact ih (last.quiet quiet)

theorem calm_of_changes (changes : Changes before after) (calm : Calm before) : Calm after := by
  induction changes with
  | refl => exact calm
  | tail _ last ih => exact last.staysCalm ih

end Changes

section Rules

variable {α β σ : Type} {state : State}

/-- When the action ends quietly, started in `state`, it ends with `done`. -/
def Does (action : Compile α) (state : State) (done : α → State → Prop) : Prop :=
  ∀ result last, action state = .ok result last → Quiet last → done result last

theorem changes_of_ran {action : Compile α} {result : α} {last : State}
    [keeps : Keeps (Changes state) action] (ran : action state = .ok result last) :
    Changes state last := by
  have left := keeps.left .refl
  rwa [ran] at left

theorem Does.mono {action : Compile α} {done weaker : α → State → Prop} (does : Does action state done)
    (implies : ∀ result last, done result last → weaker result last) : Does action state weaker :=
  fun result last ran quiet => implies result last (does result last ran quiet)

theorem Does.and {action : Compile α} {one two : α → State → Prop} (first : Does action state one)
    (second : Does action state two) :
    Does action state fun result last => one result last ∧ two result last :=
  fun result last ran quiet => ⟨first result last ran quiet, second result last ran quiet⟩

theorem does_pure {value : α} {done : α → State → Prop} (holds : done value state) :
    Does (pure value) state done := by
  intro result last ran _
  cases ran
  exact holds

theorem does_throw {stop : Stop} {done : α → State → Prop} : Does (throw stop) state done := by
  intro result last ran
  cases ran

/-- The rest of a sequence has to take back no diagnostic, so its beginning is quiet as well. -/
theorem does_bind {first : Compile β} {rest : β → Compile α} {done : α → State → Prop}
    [keeps : ∀ value origin, Keeps (Changes origin) (rest value)]
    (begins : Does first state fun value middle => Does (rest value) middle done) :
    Does (first >>= rest) state done := by
  intro result last ran quiet
  simp only [bind, EStateM.bind] at ran
  cases begun : first state with
  | error stop middle =>
    rw [begun] at ran
    cases ran
  | ok value middle =>
    rw [begun] at ran
    have between : Quiet middle := quiet_of_changes (changes_of_ran ran) quiet
    exact begins value middle begun between result last ran quiet

/-- A sequence whose rest is too involved for an instance to be found. -/
theorem does_andThen {first : Compile β} {rest : β → Compile α} {done : α → State → Prop}
    (keeps : ∀ value origin, Keeps (Changes origin) (rest value))
    (begins : Does first state fun value middle => Does (rest value) middle done) :
    Does (first >>= rest) state done :=
  does_bind begins

/-- A sequence through a known condition. -/
theorem does_seq {first : Compile β} {rest : β → Compile α} {done : α → State → Prop}
    [keeps : ∀ value origin, Keeps (Changes origin) (rest value)] (between : β → State → Prop)
    (begins : Does first state between)
    (continues : ∀ value middle, between value middle → Does (rest value) middle done) :
    Does (first >>= rest) state done :=
  does_bind (begins.mono continues)

theorem does_get {done : State → State → Prop} (holds : done state state) :
    Does get state done := by
  intro result last ran _
  cases ran
  exact holds

/-- What is known to run needs no such care. -/
theorem does_ran {first : Compile β} {rest : β → Compile α} {done : α → State → Prop} {value : β}
    {middle : State} (ran : first state = .ok value middle)
    (next : Does (rest value) middle done) : Does (first >>= rest) state done := by
  intro result last whole quiet
  simp only [bind, EStateM.bind, ran] at whole
  exact next result last whole quiet

theorem does_modify {change : State → State} {done : Unit → State → Prop}
    (holds : done () (change state)) : Does (modify change) state done := by
  intro result last ran _
  cases ran
  exact holds

theorem does_ite {test : Prop} [Decidable test] {yes no : Compile α} {done : α → State → Prop}
    (whenTrue : test → Does yes state done) (whenFalse : ¬ test → Does no state done) :
    Does (if test then yes else no) state done := by
  split
  · next holds => exact whenTrue holds
  · next fails => exact whenFalse fails

/-- A loop keeps its invariant until it has done what it is for. -/
theorem does_iterate (inv : σ → State → Prop) {done : σ → State → Prop}
    {body : σ → Compile (σ × Bool)}
    [keeps : ∀ value origin, Keeps (Changes origin) (body value)]
    (each : ∀ value state, inv value state → Does (body value) state fun result last =>
      if result.2 = true then inv result.1 last else done result.1 last)
    (bound : Nat) (value : σ) (starts : inv value state) :
    Does (iterate bound value body) state done := by
  induction bound generalizing value state with
  | zero => exact does_throw
  | succ bound ih =>
    rw [iterate]
    refine does_bind ((each value state starts).mono fun result middle holds => ?_)
    obtain ⟨next, more⟩ := result
    cases more with
    | true => exact ih next holds
    | false => exact does_pure holds

/-- A loop over a list that is not left early. -/
theorem does_forIn {inv : List α → State → Prop} {body : α → PUnit → Compile (ForInStep PUnit)}
    [keeps : ∀ item origin, Keeps (Changes origin) (body item PUnit.unit)]
    (each : ∀ item rest state, inv (item :: rest) state →
      Does (body item PUnit.unit) state fun step last =>
        step = .yield PUnit.unit ∧ inv rest last)
    (list : List α) (starts : inv list state) :
    Does (forIn list PUnit.unit body : Compile PUnit) state fun _ => inv [] := by
  induction list generalizing state with
  | nil =>
    rw [List.forIn_nil]
    exact does_pure starts
  | cons item rest ih =>
    rw [List.forIn_cons]
    refine @does_bind _ _ _ _ _ _ (fun step origin => ?_) ?_
    · cases step <;> infer_instance
    · refine (each item rest state starts).mono fun step middle holds => ?_
      obtain ⟨rfl, holds⟩ := holds
      exact ih holds

/-- An action for every item of a list. -/
theorem does_for {inv : List α → State → Prop} {body : α → Compile Unit}
    [keeps : ∀ item origin, Keeps (Changes origin) (body item)]
    (each : ∀ item rest state, inv (item :: rest) state → Does (body item) state fun _ => inv rest)
    (list : List α) (starts : inv list state) :
    Does (forIn list PUnit.unit fun item _ => do
      body item
      pure (ForInStep.yield PUnit.unit) : Compile PUnit) state fun _ => inv [] := by
  refine does_forIn (fun item rest state holds => ?_) list starts
  exact does_bind ((each item rest state holds).mono fun _ _ holds => does_pure ⟨rfl, holds⟩)

theorem does_errorAt {token : Token} {problem : Problem} {done : Unit → State → Prop}
    (calm : Calm state) : Does (errorAt token problem) state done := by
  intro result last ran quiet
  cases ran
  dsimp only at quiet
  by_cases panicking : state.panicking = true
  · rw [if_pos panicking] at quiet
    exact absurd quiet (calm.1 panicking)
  · rw [if_neg panicking] at quiet
    simp [Quiet] at quiet

/-- Moving past a token that is not the last makes it the previous one. -/
theorem does_advance {done : Unit → State → Prop} (calm : Calm state)
    (inside : state.cursor.here.kind ≠ .finish)
    (next : ∀ last, last.cursor.previous = state.cursor.here → done () last) :
    Does advance state done := by
  have passed : state.cursor.moved.passed.head? = some state.cursor.here := by
    obtain ⟨between, last, whole, isFinish⟩ := calm.2
    unfold Cursor.moved
    split
    · next empty =>
      -- the last token is of kind finish
      rw [empty] at whole
      cases between with
      | nil =>
        cases whole
        exact absurd isFinish inside
      | cons first between => simp at whole
    · rfl
  have moved : Calm { state with cursor := state.cursor.moved } := ⟨calm.1, calm.2.moved⟩
  have settles : ∀ origin, Keeps (Changes origin)
      (modify fun state => { state with cursor := state.cursor.settled } : Compile Unit) :=
    fun _ => keeps_change fun _ => .settle
  unfold advance
  refine does_ran rfl (does_ite (fun _ => ?_) fun ends => ?_)
  · unfold step
    refine does_ran rfl ?_
    unfold settle
    refine does_ran rfl (does_ite (fun _ => does_bind (does_errorAt moved)) fun _ => ?_)
    refine does_pure (next _ ?_)
    change state.cursor.moved.passed.head?.getD _ = _
    rw [passed, Option.getD_some]
  · exact absurd (by simpa using ends) inside

theorem does_here {done : Token → State → Prop} (holds : done state.cursor.here state) :
    Does here state done :=
  does_bind (does_get (does_pure holds))

theorem does_previous {done : Token → State → Prop} (holds : done state.cursor.previous state) :
    Does previous state done :=
  does_bind (does_get (does_pure holds))

theorem does_draft {done : Draft → State → Prop} (holds : done state.draft state) :
    Does draft state done :=
  does_bind (does_get (does_pure holds))

theorem does_atTopLevel {done : Bool → State → Prop} (holds : done state.draft.atTopLevel state) :
    Does atTopLevel state done :=
  does_bind (does_draft (does_pure holds))

theorem does_position {done : Nat → State → Prop}
    (holds : done state.draft.body.code.size state) : Does position state done :=
  does_bind (does_get (does_pure holds))

/-- Reports are not made in a quiet run, wherever they stand. -/
theorem does_error {problem : Problem} {done : Unit → State → Prop} (calm : Calm state) :
    Does (error problem) state done :=
  does_bind (does_previous (does_errorAt calm))

theorem does_errorHere {problem : Problem} {done : Unit → State → Prop} (calm : Calm state) :
    Does (errorHere problem) state done :=
  does_bind (does_here (does_errorAt calm))

end Rules

end ScriptMachine.Compiler
