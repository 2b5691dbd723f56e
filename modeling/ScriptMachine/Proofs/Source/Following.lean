import ScriptMachine.Proofs.Compiler.Units
import ScriptMachine.Proofs.Source.Reading
import ScriptMachine.Proofs.Syntax.ReadDeclarations

set_option autoImplicit false
set_option synthInstance.maxSize 20000

/- A compilation and a reading of the same tokens, side by side. What is compiled without a complaint
is read, up to the same token. -/
namespace ScriptMachine.Compiler

open Source (Reading)

variable {α β γ δ σ τ : Type} {state : State}

/-- A quiet compilation ends where the reading does. -/
def Follows (action : Compile α) (reading : Reading β) (state : State)
    (done : α → β → State → Prop) : Prop :=
  Does action state fun result last =>
    ∃ read, reading state.pending = some (read, last.pending) ∧ done result read last

theorem Reading.bind_run {reading : Reading β} {behind : β → Reading δ} {tokens rest : List Token}
    {read : β} (ran : reading tokens = some (read, rest)) :
    (reading >>= behind) tokens = behind read rest := by
  simp only [bind, StateT.bind, ran, Option.bind_some]

section Rules

/-- What has been read so far is the beginning of a longer reading. -/
theorem Follows.behind {action : Compile γ} {reading : Reading β} {rest : β → Reading δ} {later : State}
    {done : γ → δ → State → Prop} {read : β} (ran : reading state.pending = some (read, later.pending))
    (follows : Follows action (rest read) later done) :
    Does action later fun result last => ∃ whole,
      (reading >>= rest) state.pending = some (whole, last.pending) ∧ done result whole last := by
  rw [Reading.bind_run ran]
  exact follows

theorem Follows.mono {action : Compile α} {reading : Reading β} {done weaker : α → β → State → Prop}
    (follows : Follows action reading state done)
    (implies : ∀ result read last, done result read last → weaker result read last) :
    Follows action reading state weaker :=
  Does.mono follows fun result last ⟨read, ran, holds⟩ => ⟨read, ran, implies result read last holds⟩

theorem follows_pure {value : α} {read : β} {done : α → β → State → Prop}
    (holds : done value read state) : Follows (pure value) (pure read) state done :=
  does_pure ⟨read, rfl, holds⟩

/-- Both go on. -/
theorem follows_bind {first : Compile α} {rest : α → Compile γ} {reading : Reading β}
    {behind : β → Reading δ} {done : γ → δ → State → Prop}
    [keeps : ∀ value origin, Keeps (Changes origin) (rest value)]
    (begins : Follows first reading state fun value read middle =>
      Follows (rest value) (behind read) middle done) :
    Follows (first >>= rest) (reading >>= behind) state done := by
  refine does_bind (Does.mono begins ?_)
  rintro value middle ⟨read, ran, follows⟩
  exact follows.behind ran

/-- A sequence whose rest is too involved for an instance to be found. -/
theorem follows_andThen {first : Compile α} {rest : α → Compile γ} {reading : Reading β}
    {behind : β → Reading δ} {done : γ → δ → State → Prop}
    (keeps : ∀ value origin, Keeps (Changes origin) (rest value))
    (begins : Follows first reading state fun value read middle =>
      Follows (rest value) (behind read) middle done) :
    Follows (first >>= rest) (reading >>= behind) state done :=
  follows_bind begins

/-- A sequence through a known condition. -/
theorem follows_seq {first : Compile α} {rest : α → Compile γ} {reading : Reading β}
    {behind : β → Reading δ} {done : γ → δ → State → Prop}
    [keeps : ∀ value origin, Keeps (Changes origin) (rest value)]
    (between : α → β → State → Prop) (begins : Follows first reading state between)
    (continues : ∀ value read middle, between value read middle →
      Follows (rest value) (behind read) middle done) :
    Follows (first >>= rest) (reading >>= behind) state done :=
  follows_bind (begins.mono continues)

/-- Only the compilation goes on, and known to run. -/
theorem follows_ran {first : Compile α} {rest : α → Compile γ} {reading : Reading δ}
    {done : γ → δ → State → Prop} {value : α} {middle : State}
    (ran : first state = .ok value middle) (pending : middle.pending = state.pending)
    (next : Follows (rest value) reading middle done) : Follows (first >>= rest) reading state done := by
  refine does_ran ran ?_
  unfold Follows at next
  rwa [pending] at next

/-- Only the reading goes on. -/
theorem follows_read {action : Compile γ} {reading : Reading β} {behind : β → Reading δ}
    {done : γ → δ → State → Prop} {read : β}
    (ran : reading state.pending = some (read, state.pending))
    (next : Follows action (behind read) state done) :
    Follows action (reading >>= behind) state done := by
  unfold Follows at next ⊢
  rwa [Reading.bind_run ran]

theorem follows_ite {test other : Prop} [Decidable test] [Decidable other] {yes no : Compile α}
    {readYes readNo : Reading β} {done : α → β → State → Prop} (same : test ↔ other)
    (whenTrue : test → Follows yes readYes state done)
    (whenFalse : ¬ test → Follows no readNo state done) :
    Follows (if test then yes else no) (if other then readYes else readNo) state done := by
  by_cases holds : test
  · rw [if_pos holds, if_pos (same.mp holds)]
    exact whenTrue holds
  · rw [if_neg holds, if_neg (holds ∘ same.mpr)]
    exact whenFalse holds

/-- A condition that only the compilation looks at. -/
theorem follows_test {test : Prop} [Decidable test] {yes no : Compile α} {reading : Reading β}
    {done : α → β → State → Prop} (whenTrue : test → Follows yes reading state done)
    (whenFalse : ¬ test → Follows no reading state done) :
    Follows (if test then yes else no) reading state done :=
  does_ite whenTrue whenFalse

/-- Both run through their loops together. -/
theorem follows_iterate (inv : σ → τ → State → Prop) {done : σ → τ → State → Prop}
    {body : σ → Compile (σ × Bool)} {reads : τ → Reading (τ × Bool)}
    [keeps : ∀ value origin, Keeps (Changes origin) (body value)]
    (each : ∀ value read state, inv value read state →
      Follows (body value) (reads read) state fun result other last =>
        other.2 = result.2 ∧ if result.2 = true then inv result.1 other.1 last
          else done result.1 other.1 last)
    (bound : Nat) (value : σ) (read : τ) (starts : inv value read state) :
    Follows (iterate bound value body) (Reading.iterate bound read reads) state done := by
  induction bound generalizing value read state with
  | zero => exact does_throw
  | succ bound ih =>
    rw [iterate, Reading.iterate]
    refine follows_bind ((each value read state starts).mono ?_)
    rintro ⟨next, more⟩ ⟨other, again⟩ middle ⟨same, holds⟩
    obtain rfl : again = more := same
    cases again with
    | true => exact ih next other holds
    | false => exact follows_pure holds

/-- A complaint is never made. -/
theorem follows_errorAt {token : Token} {problem : Problem} {rest : Unit → Compile α}
    {reading : Reading β} {done : α → β → State → Prop}
    [keeps : ∀ value origin, Keeps (Changes origin) (rest value)] (calm : Calm state) :
    Follows (errorAt token problem >>= rest) reading state done :=
  does_bind (does_errorAt calm)

theorem follows_error {problem : Problem} {rest : Unit → Compile α} {reading : Reading β}
    {done : α → β → State → Prop}
    [keeps : ∀ value origin, Keeps (Changes origin) (rest value)] (calm : Calm state) :
    Follows (error problem >>= rest) reading state done :=
  does_bind (does_error calm)

theorem follows_errorHere {problem : Problem} {rest : Unit → Compile α} {reading : Reading β}
    {done : α → β → State → Prop}
    [keeps : ∀ value origin, Keeps (Changes origin) (rest value)] (calm : Calm state) :
    Follows (errorHere problem >>= rest) reading state done :=
  does_bind (does_errorHere calm)

end Rules

section Parsing

/-- A quiet compilation has not been excused. -/
theorem does_of_parses {action : Compile α} {done : α → State → Prop}
    [keeps : Keeps (Changes state) action] (calm : Calm state)
    (parses : Ready state → Parses False action state done) : Does action state done := by
  intro result last ran quiet
  have before : Quiet state := quiet_of_changes (changes_of_ran ran) quiet
  have ready : Ready state := by
    refine ⟨before, ?_, calm.2⟩
    cases panicking : state.panicking with
    | false => rfl
    | true => exact absurd before (calm.1 panicking)
  rcases parses ready result last ran with ⟨-, holds⟩ | ⟨first, isFirst, -⟩
  · exact holds
  · have empty : last.diagnostics = #[] := quiet
    rw [empty] at isFirst
    cases isFirst

theorem does_changes {action : Compile α} [keeps : Keeps (Changes state) action] :
    Does action state fun _ last => Changes state last :=
  fun _ _ ran _ => changes_of_ran ran

/-- The tokens have been left alone. -/
structure Remains (before after : State) : Prop extends Rests before after where
  changes : Changes before after

theorem does_remains {action : Compile α} [rests : Keeps (Unmoved False state) action]
    [keeps : Keeps (Changes state) action] (calm : Calm state) :
    Does action state fun _ last => Remains state last :=
  ((does_of_parses calm parses_still).and does_changes).mono fun _ _ ⟨rests, changes⟩ =>
    ⟨rests, changes⟩

/-- Only the compilation goes on, and leaves the tokens alone. -/
theorem follows_silent {first : Compile α} {rest : α → Compile γ} {reading : Reading δ}
    {done : γ → δ → State → Prop} [keeps : ∀ value origin, Keeps (Changes origin) (rest value)]
    (begins : Does first state fun value middle => middle.pending = state.pending ∧
      Follows (rest value) reading middle done) :
    Follows (first >>= rest) reading state done := by
  refine does_bind (begins.mono ?_)
  rintro value middle ⟨pending, follows⟩
  unfold Follows at follows
  rwa [pending] at follows

/-- A compilation that leaves the tokens alone. -/
theorem follows_still {first : Compile α} {rest : α → Compile γ} {reading : Reading δ}
    {done : γ → δ → State → Prop} [rests : Keeps (Unmoved False state) first]
    [keeps : Keeps (Changes state) first]
    [follows : ∀ value origin, Keeps (Changes origin) (rest value)] (calm : Calm state)
    (begins : Does first state fun value middle => Remains state middle →
      Follows (rest value) reading middle done) :
    Follows (first >>= rest) reading state done := by
  refine follows_silent ((begins.and (does_remains calm)).mono ?_)
  exact fun value middle ⟨next, remains⟩ => ⟨remains.pending, next remains⟩

/-- A compilation that leaves the tokens alone, before a rest that is too involved for an instance to
be found. -/
theorem follows_stillThen {first : Compile α} {rest : α → Compile γ} {reading : Reading δ}
    {done : γ → δ → State → Prop} [rests : Keeps (Unmoved False state) first]
    [keeps : Keeps (Changes state) first]
    (follows : ∀ value origin, Keeps (Changes origin) (rest value)) (calm : Calm state)
    (begins : Does first state fun value middle => Remains state middle →
      Follows (rest value) reading middle done) :
    Follows (first >>= rest) reading state done :=
  follows_still calm begins

/-- The end of a production, where nothing more is read. -/
theorem follows_last {action : Compile α} {read : β} {done : α → β → State → Prop}
    [rests : Keeps (Unmoved False state) action] [keeps : Keeps (Changes state) action]
    (calm : Calm state)
    (ends : Does action state fun result last => Remains state last → done result read last) :
    Follows action (pure read) state done := by
  refine (ends.and (does_remains calm)).mono ?_
  rintro result last ⟨holds, remains⟩
  exact ⟨read, by rw [remains.pending]; rfl, holds remains⟩

/-- A token has been passed, and nothing else has changed. -/
structure Passed (token : Token) (before after : State) : Prop extends Passes token before after where
  idle : Idle before after
  adds : Adds 0 before after []
  changes : Changes before after

theorem does_passes {action : Compile α} {done : α → State → Prop}
    [idles : Keeps (Idle state) action] [keeps : Keeps (Changes state) action]
    (orderly : Orderly state) (parses : Ready state → Parses False action state done) :
    Does action state fun value last => done value last ∧ Idle state last ∧ Adds 0 state last [] ∧
      Changes state last := by
  have idle : Does action state fun _ last => Idle state last ∧ Adds 0 state last [] :=
    does_still orderly fun _ _ idle adds => ⟨idle, adds⟩
  refine (((does_of_parses orderly.calm parses).and idle).and does_changes).mono ?_
  exact fun _ _ ⟨⟨holds, idle, adds⟩, changes⟩ => ⟨holds, idle, adds, changes⟩

variable {rest : Bool → Compile α} {behind : Bool → Reading β} {done : α → β → State → Prop}

theorem follows_check {kind : TokenKind}
    (next : Follows (rest (state.pending.head?.any fun token => token.kind == kind))
      (behind (state.pending.head?.any fun token => token.kind == kind)) state done) :
    Follows (check kind >>= rest) (Reading.check kind >>= behind) state done :=
  follows_ran check_eq rfl (follows_read rfl next)

theorem follows_atEnd
    (next : Follows (rest state.pending.isEmpty) (behind state.pending.isEmpty) state done) :
    Follows (atEnd >>= rest) (Reading.atEnd >>= behind) state done :=
  follows_ran atEnd_eq rfl (follows_read rfl next)

theorem Passes.takes {token : Token} {later : State} (passes : Passes token state later) :
    Reading.pass state.pending = some (token, later.pending) := by
  rw [passes.pending]
  rfl

theorem Reading.accept_takes {kind : TokenKind} {token : Token} {later : State}
    (passes : Passes token state later) (same : token.kind = kind) :
    Reading.accept kind state.pending = some (true, later.pending) := by
  unfold Reading.accept
  rw [Reading.bind_run (rfl : Reading.check kind state.pending = _), passes.pending]
  simp only [List.head?_cons, Option.any_some, same, beq_self_eq_true, if_true]
  rfl

theorem Reading.accept_refuses {kind : TokenKind} {tokens : List Token}
    (other : ∀ token ∈ tokens.head?, token.kind ≠ kind) :
    Reading.accept kind tokens = some (false, tokens) := by
  have refused : (tokens.head?.any fun token => token.kind == kind) = false := by
    cases next : tokens.head? with
    | none => rfl
    | some token => simpa using other token next
  unfold Reading.accept
  rw [Reading.bind_run (rfl : Reading.check kind tokens = _), refused]
  rfl

/-- A token that may be there. -/
theorem follows_accept {kind : TokenKind}
    [keeps : ∀ value origin, Keeps (Changes origin) (rest value)] (orderly : Orderly state)
    (yes : ∀ token later, token.kind = kind → Passed token state later →
      Follows (rest true) (behind true) later done)
    (no : (∀ token ∈ state.pending.head?, token.kind ≠ kind) →
      Follows (rest false) (behind false) state done) :
    Follows (accept kind >>= rest) (Reading.accept kind >>= behind) state done := by
  rcases head_cases kind state.pending with ⟨token, others, waiting, same⟩ | other
  · refine does_bind ((does_passes orderly fun ready =>
      parses_accept ready waiting False.elim same).mono ?_)
    rintro _ later ⟨⟨rfl, -, passes⟩, idle, adds, changes⟩
    exact (yes token later same ⟨passes, idle, adds, changes⟩).behind (Reading.accept_takes passes same)
  · exact follows_ran (accept_refuses other) rfl
      (follows_read (Reading.accept_refuses other) (no other))

theorem follows_acceptIf {allowed : Bool} {kind : TokenKind}
    [keeps : ∀ value origin, Keeps (Changes origin) (rest value)] (orderly : Orderly state)
    (yes : ∀ token later, allowed = true → token.kind = kind → Passed token state later →
      Follows (rest true) (behind true) later done)
    (no : Follows (rest false) (behind false) state done) :
    Follows (acceptIf allowed kind >>= rest) (Reading.acceptIf allowed kind >>= behind) state
      done := by
  cases allowed with
  | false => exact follows_ran rfl rfl (follows_read rfl no)
  | true => exact follows_accept orderly (fun token later => yes token later rfl) fun _ => no

/-- The token that comes next, whatever it is. -/
theorem follows_pass {token : Token} {others : List Token} (orderly : Orderly state)
    (waiting : state.pending = token :: others) :
    Follows advance Reading.pass state fun _ read last => read = token ∧ Passed token state last := by
  refine (does_passes orderly fun ready => parses_advance ready waiting False.elim).mono ?_
  rintro _ later ⟨⟨-, passes⟩, idle, adds, changes⟩
  exact ⟨token, passes.takes, rfl, passes, idle, adds, changes⟩

/-- A token that is asked for. -/
theorem follows_word {kind : TokenKind} {what : String} (orderly : Orderly state) :
    Follows (expect kind what) (Reading.expect kind) state fun token read last =>
      read = token ∧ token.kind = kind ∧ Passed token state last := by
  refine (does_passes orderly reads_expect).mono ?_
  rintro token later ⟨⟨same, passes⟩, idle, adds, changes⟩
  refine ⟨token, ?_, rfl, same, passes, idle, adds, changes⟩
  unfold Reading.expect
  rw [Reading.bind_run (rfl : Reading.check kind state.pending = _), passes.pending]
  simp only [List.head?_cons, Option.any_some, same, beq_self_eq_true, if_true]
  rfl

theorem follows_expect {kind : TokenKind} {what : String} {rest : Token → Compile α}
    {behind : Token → Reading β}
    [keeps : ∀ value origin, Keeps (Changes origin) (rest value)] (orderly : Orderly state)
    (next : ∀ token later, token.kind = kind → Passed token state later →
      Follows (rest token) (behind token) later done) :
    Follows (expect kind what >>= rest) (Reading.expect kind >>= behind) state done := by
  refine follows_bind ((follows_word orderly).mono ?_)
  rintro token _ later ⟨rfl, same, passed⟩
  exact next _ later same passed

end Parsing

end ScriptMachine.Compiler
