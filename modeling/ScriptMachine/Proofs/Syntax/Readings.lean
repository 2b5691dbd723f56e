import ScriptMachine.Proofs.Syntax.Parsing

set_option autoImplicit false
set_option synthInstance.maxSize 20000

/- What a compilation has read when nothing has been complained about: each production reads tokens
that its rule derives. -/
namespace ScriptMachine.Compiler

open Syntax Syntax.Rule

/-- Between two states, tokens have been read that the rule derives. -/
structure Reads (rule : Rule) (before after : State) : Prop where
  derives : ∃ used, Derives before.known rule used ∧ before.pending = used ++ after.pending ∧
    after.cursor.previous = used.getLast?.getD before.cursor.previous
  stays : Stays before after

section Reading

variable {α : Type} {rule other : Rule} {rules : List Rule} {origin state later : State}

theorem Reads.nothing (state : State) : Reads (.row []) state state :=
  ⟨⟨[], .none, rfl, rfl⟩, .refl state⟩

theorem Reads.rests (reads : Reads rule origin state) (rests : Rests state later) :
    Reads rule origin later := by
  obtain ⟨used, derives, pending, previous⟩ := reads.derives
  refine ⟨⟨used, derives, ?_, ?_⟩, reads.stays.trans rests.toStays⟩
  · rw [rests.pending, pending]
  · rwa [rests.cursor]

theorem Reads.after (reads : Reads rule state later) (rests : Rests origin state) :
    Reads rule origin later := by
  obtain ⟨used, derives, pending, previous⟩ := reads.derives
  refine ⟨⟨used, rests.known ▸ derives, ?_, ?_⟩, rests.toStays.trans reads.stays⟩
  · rw [← rests.pending, pending]
  · rw [previous, rests.cursor]

theorem Reads.imp (reads : Reads rule origin state)
    (implies : ∀ used, Derives origin.known rule used → Derives origin.known other used) :
    Reads other origin state := by
  obtain ⟨used, derives, pending⟩ := reads.derives
  exact ⟨⟨used, implies used derives, pending⟩, reads.stays⟩

theorem Reads.named (reads : Reads rule origin state) (symbol : Symbol)
    (means : production symbol = rule) : Reads (.symbol symbol) origin state :=
  reads.imp fun _ derives => .symbol (means ▸ derives)

theorem Reads.oneOf (reads : Reads rule origin state) (member : rule ∈ rules) :
    Reads (.oneOf rules) origin state :=
  reads.imp fun _ => .oneOf member

theorem Reads.meaning {symbol : Symbol} (reads : Reads (.symbol symbol) origin state) :
    Reads (production symbol) origin state :=
  reads.imp fun _ => derives_symbol.mp

theorem Reads.alternative (reads : Reads rule origin state) (symbol : Symbol)
    (means : production symbol = .oneOf rules) (member : rule ∈ rules) :
    Reads (.symbol symbol) origin state :=
  (reads.oneOf member).named symbol means

theorem Reads.present (reads : Reads rule origin state) : Reads (optional rule) origin state :=
  reads.oneOf (by simp)

theorem Reads.absent (rule : Rule) (state : State) : Reads (optional rule) state state :=
  (Reads.nothing state).oneOf (by simp)

theorem Reads.never (state : State) : Reads (.many rule) state state :=
  ⟨⟨[], .stop, rfl, rfl⟩, .refl state⟩

/-- Two readings, one behind the other. -/
theorem Reads.join {whole : Rule} (front : Reads rule origin state) (behind : Reads other state later)
    (joins : ∀ early late, Derives origin.known rule early → Derives origin.known other late →
      Derives origin.known whole (early ++ late)) : Reads whole origin later := by
  obtain ⟨early, derives, pending, previous⟩ := front.derives
  obtain ⟨late, derivesLate, pendingLate, previousLate⟩ := behind.derives
  rw [front.stays.known] at derivesLate
  refine ⟨⟨early ++ late, joins early late derives derivesLate, ?_, ?_⟩,
    front.stays.trans behind.stays⟩
  · rw [pending, pendingLate, List.append_assoc]
  · rw [previousLate, previous, List.getLast?_append]
    cases late.getLast? <;> simp

theorem Reads.append {more : List Rule} (front : Reads (.row rules) origin state)
    (behind : Reads (.row more) state later) : Reads (.row (rules ++ more)) origin later :=
  front.join behind fun _ _ => Derives.append

theorem Reads.climb {loose tight : Level} (reads : Reads (.symbol (.operand tight)) origin state)
    (below : loose.rank ≤ tight.rank) : Reads (.symbol (.operand loose)) origin state :=
  reads.imp fun _ => Derives.climb below

/-- One more rule in a row. -/
theorem Reads.then (front : Reads (.row rules) origin state) (reads : Reads rule state later) :
    Reads (.row (rules ++ [rule])) origin later := by
  refine front.join reads fun early late derives derivesLate => ?_
  have whole := derives.append (.next derivesLate .none)
  rwa [List.append_nil] at whole

/-- Once more the same rule. -/
theorem Reads.again (front : Reads (.many rule) origin state) (reads : Reads rule state later) :
    Reads (.many rule) origin later := by
  refine front.join reads fun early late derives derivesLate => ?_
  have whole := derives.manyAppend (.again derivesLate .stop)
  rwa [List.append_nil] at whole

theorem Reads.single (reads : Reads (.row [rule]) origin state) : Reads rule origin state := by
  refine reads.imp fun used derives => ?_
  simp only [derives_row_cons, derives_row_nil] at derives
  obtain ⟨first, _, rfl, derives, rfl⟩ := derives
  rwa [List.append_nil]

/-- What is read inside a block or a function is read by what is around it. -/
theorem Reads.within {nesting : List (FunctionKind × Nat)} {inner last : State}
    (reads : Reads rule inner later) (enters : Renests nesting origin inner)
    (leaves : Renests origin.nesting later last) : Reads rule origin last := by
  obtain ⟨used, derives, pending, previous⟩ := reads.derives
  refine ⟨⟨used, enters.known ▸ derives, ?_, ?_⟩, leaves.nesting, ?_⟩
  · rw [State.pending, ← enters.cursor, ← State.pending, pending, State.pending, State.pending,
      leaves.cursor]
  · rw [leaves.cursor, previous, enters.cursor]
  · rw [leaves.known, reads.stays.known, enters.known]

theorem Passes.reads {token : Token} {kind : TokenKind} (passes : Passes token state later)
    (same : token.kind = kind) : Reads (.word kind) state later :=
  ⟨⟨[token], .word same, passes.pending, passes.previous⟩, passes.toStays⟩

/-- A word that could be the whole of an expression. -/
def isComplete : TokenKind → Bool
  | .identifier | .string | .number | .trueWord | .falseWord | .nilWord | .selfWord => true
  | _ => false

/-- An expression may begin here. At the end of a unit the last word is looked at again, and it must
not be taken for one. -/
def Expecting (state : State) : Prop :=
  state.pending = [] → isComplete state.cursor.previous.kind = false

theorem Reads.expecting {kind : TokenKind} (front : Reads (.row rules) origin state)
    (last : rules.getLast? = some (.word kind)) (incomplete : isComplete kind = false) :
    Expecting state := by
  intro _
  obtain ⟨used, derives, -, previous⟩ := front.derives
  obtain ⟨early, rfl⟩ := List.getLast?_eq_some_iff.mp last
  obtain ⟨_, token, rfl, rfl⟩ := derives.lastWord
  rw [previous, List.getLast?_concat]
  exact incomplete

theorem Passes.expecting {token : Token} (passes : Passes token origin state)
    (incomplete : isComplete token.kind = false) : Expecting state := by
  intro _
  rw [passes.previous]
  exact incomplete

/-- An action that reads nothing, behind what has been read. -/
theorem parses_pass {action : Compile α} [rests : Keeps (Unmoved False state) action]
    (ready : Ready state) (front : Reads rule origin state) :
    Parses False action state fun _ last => Reads rule origin last :=
  (parses_still ready).mono fun _ _ _ rests => front.rests rests

/-- A production behind what has been read. -/
theorem Parses.behind {action : Compile α} (front : Reads (.row rules) origin state)
    (parses : Parses False action state fun _ last => Reads rule state last) :
    Parses False action state fun _ last => Reads (.row (rules ++ [rule])) origin last :=
  parses.mono fun _ _ _ reads => front.then reads

theorem head_cases (kind : TokenKind) (tokens : List Token) :
    (∃ token rest, tokens = token :: rest ∧ token.kind = kind) ∨
      ∀ token ∈ tokens.head?, token.kind ≠ kind := by
  cases tokens with
  | nil => exact Or.inr (by simp)
  | cons token rest =>
    by_cases same : token.kind = kind
    · exact Or.inl ⟨token, rest, rfl, same⟩
    · exact Or.inr (by simpa using same)

/-- A token that is asked for. -/
theorem reads_expect {kind : TokenKind} {what : String} (ready : Ready state) :
    Parses False (expect kind what) state fun token last =>
      token.kind = kind ∧ Passes token state last := by
  rcases head_cases kind state.pending with ⟨token, rest, waiting, same⟩ | other
  · refine (parses_expect ready waiting False.elim same).mono ?_
    rintro _ last _ ⟨rfl, -, passes⟩
    exact ⟨same, passes⟩
  · unfold expect
    refine parses_ran check_eq ?_
    rw [head_refused other]
    exact (parses_errorHere ready False.elim).never

theorem parses_word {kind : TokenKind} {what : String} (ready : Ready state)
    (front : Reads (.row rules) origin state) :
    Parses False (expect kind what) state fun _ last =>
      Reads (.row (rules ++ [.word kind])) origin last :=
  (reads_expect ready).mono fun _ _ _ found => front.then (found.2.reads found.1)

/-- A token that may be there. -/
theorem reads_accept {kind : TokenKind} (ready : Ready state) :
    Parses False (accept kind) state fun found last =>
      if found = true then Reads (.word kind) state last
      else last = state ∧ ∀ token ∈ state.pending.head?, token.kind ≠ kind := by
  rcases head_cases kind state.pending with ⟨token, rest, waiting, same⟩ | other
  · refine (parses_accept ready waiting False.elim same).mono ?_
    rintro _ last _ ⟨rfl, -, passes⟩
    exact passes.reads same
  · intro found last ran
    rw [accept_refuses other] at ran
    cases ran
    exact Or.inl ⟨ready, rfl, other⟩

/-- A comma that may stand behind an item of a list. -/
theorem reads_comma {σ : Type} {value : σ} (ready : Ready state) (front : Reads rule origin state) :
    Parses False (do return (value, ← accept .comma)) state fun result last =>
      if result.2 = true then Reads (.row [rule, .word .comma]) origin last
      else Reads rule origin last := by
  refine parses_bind (reads_accept ready) fun more last ready found => parses_pure ready ?_
  cases more with
  | true => exact ((Reads.nothing origin).then front).then found
  | false =>
    obtain ⟨rfl, -⟩ := found
    exact front

section Lists

variable {σ : Type} {body : σ → Compile (σ × Bool)}
  [keeps : ∀ value origin, Keeps (Changes origin) (body value)]

/-- A loop over a list of items with commas between them. -/
theorem reads_commaList (rule : Rule) (each : ∀ value state, Ready state → Expecting state →
      Parses False (body value) state fun result last =>
        if result.2 = true then Reads (.row [rule, .word .comma]) state last
        else Reads rule state last)
    (bound : Nat) (value : σ) (ready : Ready state) (expecting : Expecting state) :
    Parses False (iterate bound value body) state fun _ last =>
      Reads (commaList rule) state last := by
  refine parses_iterate (fun _ middle => Reads (.many (.row [rule, .word .comma])) state middle ∧
    Expecting middle) (fun value middle ready inv => ?_) bound value ready ⟨.never state, expecting⟩
  refine (each value middle ready inv.2).mono fun result last _ reads => ?_
  split at reads
  · next more =>
    rw [if_pos more]
    exact ⟨inv.1.again reads, reads.expecting rfl rfl⟩
  · next stops =>
    rw [if_neg stops]
    exact inv.1.join reads fun _ _ => Derives.commaList

/-- A loop over a list that may be empty or end with a comma. -/
theorem reads_braceList (rule : Rule) (each : ∀ value state, Ready state →
      Parses False (body value) state fun result last =>
        if result.2 = true then Reads (.row [rule, .word .comma]) state last
        else Reads rule state last ∨ last = state)
    (bound : Nat) (value : σ) (ready : Ready state) :
    Parses False (iterate bound value body) state fun _ last =>
      Reads (braceList rule) state last := by
  refine parses_iterate (fun _ middle => Reads (.many (.row [rule, .word .comma])) state middle)
    (fun value middle ready inv => ?_) bound value ready (.never state)
  refine (each value middle ready).mono fun result last _ reads => ?_
  split at reads
  · next more =>
    rw [if_pos more]
    exact inv.again reads
  · next stops =>
    rw [if_neg stops]
    rcases reads with reads | rfl
    · exact inv.join reads fun _ _ early late => (early.commaList late).braceListOpen
    · exact inv.imp fun _ => Derives.braceList

/-- A loop that reads one thing again and again. -/
theorem reads_many (rule : Rule) (each : ∀ value middle, Ready middle → Stays state middle →
      Parses False (body value) middle fun result last =>
        if result.2 = true then Reads rule middle last else last = middle)
    (bound : Nat) (value : σ) (ready : Ready state) :
    Parses False (iterate bound value body) state fun _ last => Reads (.many rule) state last := by
  refine parses_iterate (fun _ middle => Reads (.many rule) state middle)
    (fun value middle ready inv => ?_) bound value ready (.never state)
  refine (each value middle ready inv.stays).mono fun result last _ reads => ?_
  split at reads
  · next more =>
    rw [if_pos more]
    exact inv.again reads
  · next stops =>
    rw [if_neg stops, reads]
    exact inv

end Lists

end Reading

/-- The binding strength of the next token, if it continues an expression, is below a level. -/
def Ended (level : Level) (state : State) : Prop :=
  ∀ token ∈ state.pending.head?, ∀ continuation strength,
    Continuation.of? token.kind = some (continuation, strength) → strength.rank < level.rank

/-- Each production of a grammar reads tokens that its rule derives. -/
structure Grammar.Recognises (grammar : Grammar) : Prop where
  operand : ∀ {state : State} {level : Level}, Ready state → Expecting state →
    level.rank ≤ Level.unary.rank → Parses False (grammar.operand level) state fun _ last =>
      Reads (.symbol (.operand level)) state last ∧ Ended level last
  statement : ∀ {state : State}, Ready state → Expecting state →
    Parses False grammar.statement state fun _ last => Reads (.symbol .statement) state last
  declaration : ∀ {state : State}, Ready state → state.pending ≠ [] →
    state.draft.atTopLevel = false →
    Parses False grammar.declaration state fun _ last => Reads (.symbol .inner) state last

section Functions

variable {grammar : Grammar} {rules : List Rule} {origin state : State}
  [operands : ∀ origin level, Keeps (Changes origin) (grammar.operand level)]
  [declarations : ∀ origin, Keeps (Changes origin) grammar.declaration]

omit operands declarations in
theorem reads_expression (recognises : grammar.Recognises) (ready : Ready state)
    (expecting : Expecting state) :
    Parses False grammar.expression state fun _ last => Reads expression state last :=
  (recognises.operand ready expecting (by decide)).mono fun _ last _ reads =>
    reads.1.named (.operand .none) rfl

omit operands declarations in
/-- An expression behind a word. -/
theorem parses_expression (recognises : grammar.Recognises) {kind : TokenKind} (ready : Ready state)
    (front : Reads (.row rules) origin state) (last : rules.getLast? = some (.word kind))
    (incomplete : isComplete kind = false) :
    Parses False grammar.expression state fun _ last =>
      Reads (.row (rules ++ [expression])) origin last :=
  .behind front (reads_expression recognises ready (front.expecting last incomplete))

omit operands in
/-- The rest of a block, behind its opening brace. -/
theorem reads_block (recognises : grammar.Recognises) (ready : Ready state)
    (nested : state.draft.atTopLevel = false) :
    Parses False grammar.block state fun _ last =>
      Reads (.row [.many (.symbol .inner), .word .rightBrace]) state last := by
  unfold Grammar.block
  refine parses_bind (reads_many (.symbol .inner) (fun _ middle ready stays => ?_)
    grammar.bound () ready) fun _ middle ready inner => ?_
  · refine parses_ran check_eq (parses_ran atEnd_eq ?_)
    refine parses_ite (fun _ => parses_pure ready rfl) fun more => ?_
    have inside : middle.pending ≠ [] := by
      intro empty
      rw [empty] at more
      simp at more
    exact parses_bind (recognises.declaration ready inside (stays.atTopLevel.trans nested))
      fun _ last ready reads => parses_pure ready reads
  · refine parses_bind (parses_word ready ((Reads.nothing state).then inner))
      fun _ last ready whole => ?_
    exact parses_pure ready whole

omit operands declarations in
/-- The parameters of a function, behind its opening parenthesis. -/
theorem reads_parameters (ready : Ready state) (front : Reads (.row [.word .leftParen]) origin state) :
    Parses False grammar.parameters state fun _ last =>
      Reads (.row [.word .leftParen, optional (.symbol .params)]) origin last := by
  have counts : ∀ origin : State, Keeps (Changes origin)
      (modifyBody fun body => { body with arity := body.arity + 1 }) :=
    fun _ => keeps_body fun _ => ⟨rfl, rfl⟩
  unfold Grammar.parameters
  dsimp only
  refine parses_ran check_eq (parses_ite (fun _ => ?_) fun _ =>
    parses_pure ready (front.then (.absent _ state)))
  refine (reads_commaList (.word .identifier) (fun _ middle ready _ => ?_) grammar.bound ()
    ready (front.expecting rfl rfl)).mono fun _ last _ reads =>
      front.then (reads.named .params rfl).present
  refine parses_bind (parses_pass ready (Reads.nothing middle)) fun _ first ready none => ?_
  refine parses_ran rfl (parses_ite (fun _ => (parses_errorHere ready False.elim).never) fun _ => ?_)
  refine parses_bind (parses_word ready none) fun name second ready word => ?_
  refine parses_bind (parses_pass ready word) fun _ third ready word => ?_
  refine parses_bind (parses_pass ready word) fun _ fourth ready word => ?_
  refine parses_bind (parses_pass ready word) fun _ fifth ready word => ?_
  exact reads_comma ready word.single

omit operands in
/-- A function, behind its name. -/
theorem reads_function (recognises : grammar.Recognises) (kind : FunctionKind) (name : Text)
    (ready : Ready state) :
    Parses False (grammar.function kind name) state fun _ last => Reads function state last := by
  unfold Grammar.function
  refine parses_bind (parses_beginFunction ready kind name) fun _ first ready enters => ?_
  refine parses_bind (parses_beginScope ready enters.nesting) fun _ inner ready opens => ?_
  refine parses_bind (parses_word ready (Reads.nothing inner)) fun _ third ready front => ?_
  refine parses_bind (reads_parameters ready front) fun _ fourth ready front => ?_
  refine parses_bind (parses_word ready front) fun _ fifth ready front => ?_
  refine parses_bind (parses_word ready (Reads.nothing fifth)) fun _ sixth ready brace => ?_
  have inside : sixth.draft.atTopLevel = false := by
    rw [(front.stays.trans brace.stays).atTopLevel, atTopLevel_of_nesting opens.nesting]
    simp
  refine parses_bind (reads_block recognises ready inside) fun _ seventh ready block => ?_
  have block := (brace.append block).named .block rfl
  refine parses_bind (parses_pass ready (front.then block)) fun _ eighth ready whole => ?_
  refine (parses_leaveFunction ready (whole.stays.nesting.trans opens.nesting) ?_).mono
    fun _ last _ leaves => whole.within (enters.trans opens) leaves
  simp [State.nesting]

end Functions

end ScriptMachine.Compiler
