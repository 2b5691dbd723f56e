import ScriptMachine.Proofs.Syntax.Parsing

set_option autoImplicit false
set_option synthInstance.maxSize 20000

/- What a compilation does with tokens that a rule derives: it reads them all, unless it stops or has
something else than their order to complain about. -/
namespace ScriptMachine.Compiler

open Syntax Syntax.Rule

/-- The tokens still to be read, and the structs that may be used in them. -/
structure Awaits (known : Text → Prop) (tokens : List Token) (state : State) : Prop where
  pending : state.pending = tokens
  known : state.known = known
  legible : ∀ token ∈ tokens, token.kind ≠ .malformed

section Awaiting

variable {α : Type} {known : Text → Prop} {token : Token} {tokens rest : List Token}
  {kind : TokenKind} {state : State}

theorem Awaits.rests {later : State} (awaits : Awaits known tokens state) (rests : Rests state later) :
    Awaits known tokens later :=
  ⟨rests.pending.trans awaits.pending, rests.known.trans awaits.known, awaits.legible⟩

theorem Awaits.renests {nesting : List (FunctionKind × Nat)} {later : State}
    (awaits : Awaits known tokens state) (renests : Renests nesting state later) :
    Awaits known tokens later := by
  refine ⟨?_, renests.known.trans awaits.known, awaits.legible⟩
  rw [State.pending, renests.cursor]
  exact awaits.pending

theorem Awaits.behind (awaits : Awaits known (token :: rest) state) :
    ∀ token ∈ rest, token.kind ≠ .malformed :=
  fun token member => awaits.legible token (List.mem_cons_of_mem _ member)

theorem Awaits.passes {later : State} (awaits : Awaits known (token :: rest) state)
    (passes : later.pending = rest ∧ Passes token state later) : Awaits known rest later :=
  ⟨passes.1, passes.2.known.trans awaits.known, awaits.behind⟩

/-- An action that reads nothing. -/
theorem awaits_pass {action : Compile α} [rests : Keeps (Unmoved True state) action]
    (ready : Ready state) (awaits : Awaits known tokens state) :
    Parses True action state fun _ last => Awaits known tokens last :=
  (parses_still ready).mono fun _ _ _ rests => awaits.rests rests

theorem awaits_advance (ready : Ready state) (awaits : Awaits known (token :: rest) state) :
    Parses True advance state fun _ last =>
      Awaits known rest last ∧ last.cursor.previous = token :=
  (parses_advance ready awaits.pending fun _ => awaits.behind).mono fun _ _ _ passes =>
    ⟨awaits.passes passes, passes.2.previous⟩

theorem awaits_expect {what : String} (ready : Ready state)
    (awaits : Awaits known (token :: rest) state) (same : token.kind = kind) :
    Parses True (expect kind what) state fun found last =>
      found = token ∧ Awaits known rest last :=
  (parses_expect ready awaits.pending (fun _ => awaits.behind) same).mono fun _ _ _ ⟨found, passes⟩ =>
    ⟨found, awaits.passes passes⟩

theorem awaits_accept (ready : Ready state) (awaits : Awaits known (token :: rest) state)
    (same : token.kind = kind) : Parses True (accept kind) state fun found last =>
      found = true ∧ Awaits known rest last :=
  (parses_accept ready awaits.pending (fun _ => awaits.behind) same).mono fun _ _ _ ⟨found, passes⟩ =>
    ⟨found, awaits.passes passes⟩

/-- No token of the kind comes next. -/
def Lacks (kind : TokenKind) (tokens : List Token) : Prop :=
  ∀ token ∈ tokens.head?, token.kind ≠ kind

theorem lacks_cons (other : token.kind ≠ kind) : Lacks kind (token :: rest) := by
  rintro _ ⟨⟩
  exact other

theorem Awaits.refuses (awaits : Awaits known tokens state) (lacks : Lacks kind tokens) :
    accept kind state = .ok false state :=
  accept_refuses (awaits.pending ▸ lacks)

theorem Awaits.check (awaits : Awaits known tokens state) :
    Compiler.check kind state = .ok (tokens.head?.any fun token => token.kind == kind) state := by
  rw [check_eq, awaits.pending]

theorem Awaits.check_lacks (awaits : Awaits known tokens state) (lacks : Lacks kind tokens) :
    Compiler.check kind state = .ok false state := by
  have refused := head_refused (awaits.pending ▸ lacks : ∀ token ∈ state.pending.head?, _)
  rw [check_eq, refused]

theorem Awaits.atEnd (awaits : Awaits known tokens state) :
    Compiler.atEnd state = .ok tokens.isEmpty state := by
  rw [atEnd_eq, awaits.pending]

/-- A choice by the word that comes next. -/
theorem awaits_take {yes no : Compile α} {done : α → State → Prop}
    [keepsYes : ∀ origin, Keeps (Changes origin) yes] [keepsNo : ∀ origin, Keeps (Changes origin) no]
    (ready : Ready state) (awaits : Awaits known (token :: rest) state) (same : token.kind = kind)
    (takes : ∀ next, Ready next → Awaits known rest next → Parses True yes next done) :
    Parses True (do if ← accept kind then yes else no) state done := by
  refine parses_bind (awaits_accept ready awaits same) ?_
  rintro _ next ready ⟨rfl, awaits⟩
  exact takes next ready awaits

theorem awaits_skip {yes no : Compile α} {done : α → State → Prop}
    (awaits : Awaits known tokens state) (lacks : Lacks kind tokens)
    (skips : Parses True no state done) :
    Parses True (do if ← accept kind then yes else no) state done :=
  parses_ran (awaits.refuses lacks) skips

end Awaiting

section Lists

variable {σ : Type} {known : Text → Prop} {rule : Rule} {tokens rest : List Token} {close : TokenKind}
  {state : State}

/-- Whether a comma came next, and what is still to be read. -/
def AtComma (known : Text → Prop) (rest : List Token) (more : Bool) (state : State) : Prop :=
  if more = true then ∃ comma tail, rest = comma :: tail ∧ comma.kind = .comma ∧ Awaits known tail state
  else Lacks .comma rest ∧ Awaits known rest state

theorem accepts_comma {value : σ} (ready : Ready state) (awaits : Awaits known rest state) :
    Parses True (do return (value, ← accept .comma)) state fun result last =>
      AtComma known rest result.2 last := by
  cases rest with
  | nil =>
    have lacks : Lacks .comma [] := by simp [Lacks]
    exact parses_ran (awaits.refuses lacks) (parses_pure ready ⟨lacks, awaits⟩)
  | cons token tail =>
    by_cases same : token.kind = .comma
    · refine parses_bind (awaits_accept ready awaits same) ?_
      rintro _ last ready ⟨rfl, awaits⟩
      exact parses_pure ready ⟨token, tail, rfl, same, awaits⟩
    · have lacks : Lacks .comma (token :: tail) := lacks_cons same
      exact parses_ran (awaits.refuses lacks) (parses_pure ready ⟨lacks, awaits⟩)

/-- What stands behind an item of a list: a comma, or what closes the list. -/
def AtClose (close : TokenKind) (tokens : List Token) : Prop :=
  ∃ token rest, tokens = token :: rest ∧ (token.kind = .comma ∨ token.kind = close)

theorem atClose_links {links tail : List Token}
    (derives : Derives known (.many (.row [.word .comma, rule])) links) (closes : AtClose close tail) :
    AtClose close (links ++ tail) := by
  rcases derives_many.mp derives with rfl | ⟨_, more, rfl, link, -⟩
  · exact closes
  · simp only [derives_row_cons, derives_word] at link
    obtain ⟨_, _, rfl, ⟨comma, rfl, isComma⟩, -⟩ := link
    exact ⟨comma, _, rfl, Or.inl isComma⟩

/-- A list that is not empty does not begin with what would close it. -/
theorem lacks_braceList {kind : TokenKind}
    (starts : ∀ item, Derives known rule item → ∃ first more, item = first :: more ∧ first.kind ≠ kind)
    (derives : Derives known (braceList rule) tokens) : tokens = [] ∨ Lacks kind (tokens ++ rest) := by
  refine (derives_optional.mp derives).imp_right fun derives => ?_
  rw [derives_row_cons] at derives
  obtain ⟨_, _, rfl, list, -⟩ := derives
  rw [commaList, derives_row_cons] at list
  obtain ⟨_, _, rfl, item, -⟩ := list
  obtain ⟨first, more, rfl, other⟩ := starts _ item
  exact lacks_cons other

variable {body : σ → Compile (σ × Bool)}
  [keeps : ∀ value origin, Keeps (Changes origin) (body value)]

/-- One round of a loop that is left behind the last item, and goes on behind a comma. -/
theorem accepts_round {done : σ → State → Prop} (bound : Nat) (value : σ)
    (round : Parses True (body value) state fun result last => AtComma known rest result.2 last)
    (more : ∀ bound value middle comma tail, Ready middle → rest = comma :: tail →
      comma.kind = .comma → Awaits known tail middle →
      Parses True (iterate bound value body) middle done)
    (ends : ∀ value middle, Ready middle → Lacks .comma rest → Awaits known rest middle →
      done value middle) : Parses True (iterate bound value body) state done := by
  cases bound with
  | zero => exact parses_throw
  | succ bound =>
    rw [iterate]
    refine parses_bind round fun result middle ready found => ?_
    obtain ⟨value, goesOn⟩ := result
    cases goesOn with
    | true =>
      obtain ⟨comma, tail, same, isComma, awaits⟩ := found
      exact more bound value middle comma tail ready same isComma awaits
    | false => exact parses_pure ready (ends value middle ready found.1 found.2)

/-- A loop over items with commas between them, given what it does with the last one. -/
theorem accepts_links {done : σ → State → Prop} {links tail : List Token}
    (each : ∀ value middle item behind, Ready middle → Awaits known (item ++ behind) middle →
      Derives known rule item → AtClose close behind →
      Parses True (body value) middle fun result last => AtComma known behind result.2 last)
    (closes : AtClose close tail)
    (ends : ∀ bound value middle item, Ready middle → Awaits known (item ++ tail) middle →
      Derives known rule item → Parses True (iterate bound value body) middle done)
    (derives : Derives known (.many (.row [.word .comma, rule])) links) (bound : Nat) (value : σ)
    (item : List Token) (ready : Ready state) (awaits : Awaits known (item ++ (links ++ tail)) state)
    (first : Derives known rule item) : Parses True (iterate bound value body) state done := by
  generalize whole : Rule.many (.row [.word .comma, rule]) = many at derives
  induction derives generalizing bound value item state with
  | stop => exact ends bound value state item ready awaits first
  | @again _ link more isLink moreLinks _ ih =>
    cases whole
    have atClose := atClose_links (.again isLink moreLinks) closes
    simp only [derives_row_cons, derives_row_nil, derives_word] at isLink
    obtain ⟨_, _, rfl, ⟨comma, rfl, isComma⟩, next, _, rfl, second, rfl⟩ := isLink
    refine accepts_round bound value (each value state item _ ready awaits first atClose)
      (fun bound value middle _ rest ready same _ awaits => ?_) fun _ _ _ lacks _ => ?_
    · obtain ⟨rfl, rfl⟩ := List.cons.inj same
      refine ih bound value next ready ?_ second rfl
      simpa using awaits
    · exact absurd isComma (lacks comma rfl)
  | _ => cases whole

/-- A loop over a list of items with commas between them. -/
theorem accepts_commaList (apart : close ≠ .comma)
    (each : ∀ value middle item behind, Ready middle → Awaits known (item ++ behind) middle →
      Derives known rule item → AtClose close behind →
      Parses True (body value) middle fun result last => AtComma known behind result.2 last)
    {last : Token} (isClose : last.kind = close) (bound : Nat) (value : σ) (ready : Ready state)
    (awaits : Awaits known (tokens ++ last :: rest) state)
    (derives : Derives known (commaList rule) tokens) :
    Parses True (iterate bound value body) state fun _ after =>
      Awaits known (last :: rest) after := by
  simp only [commaList, derives_row_cons, derives_row_nil] at derives
  obtain ⟨item, _, rfl, head, links, _, rfl, links, rfl⟩ := derives
  have atClose : AtClose close (last :: rest) := ⟨last, rest, rfl, Or.inr isClose⟩
  refine accepts_links each atClose (fun bound value middle item ready awaits first => ?_) links bound
    value item ready (by simpa using awaits) head
  refine accepts_round bound value (each value middle item _ ready awaits first atClose)
    (fun _ _ _ comma tail _ same isComma _ => ?_) fun _ _ _ _ awaits => awaits
  obtain ⟨rfl, rfl⟩ := List.cons.inj same
  exact absurd (isClose.symm.trans isComma) apart

/-- A loop over a list that may be empty or end with a comma. -/
theorem accepts_braceList {last : Token}
    (each : ∀ value middle item behind, Ready middle → Awaits known (item ++ behind) middle →
      Derives known rule item → AtClose .rightBrace behind →
      Parses True (body value) middle fun result after => AtComma known behind result.2 after)
    (stops : ∀ value middle, Ready middle → Awaits known (last :: rest) middle →
      Parses True (body value) middle fun result after =>
        result.2 = false ∧ Awaits known (last :: rest) after)
    (isClose : last.kind = .rightBrace) (bound : Nat) (value : σ) (ready : Ready state)
    (awaits : Awaits known (tokens ++ last :: rest) state)
    (derives : Derives known (braceList rule) tokens) :
    Parses True (iterate bound value body) state fun _ after =>
      Awaits known (last :: rest) after := by
  have lacks : Lacks .comma (last :: rest) := lacks_cons (by rw [isClose]; decide)
  have closed : ∀ bound value middle, Ready middle → Awaits known (last :: rest) middle →
      Parses True (iterate bound value body) middle fun _ after =>
        Awaits known (last :: rest) after := by
    intro bound value middle ready awaits
    refine accepts_round bound value ((stops value middle ready awaits).mono
      fun result after _ ⟨isLast, awaits⟩ => ?_) (fun _ _ _ comma tail _ same isComma _ => ?_)
      fun _ _ _ _ awaits => awaits
    · rw [isLast]
      exact ⟨lacks, awaits⟩
    · exact absurd isComma (lacks comma (by rw [same]; rfl))
  rcases derives_optional.mp derives with rfl | derives
  · exact closed bound value state ready awaits
  simp only [derives_row_cons, derives_row_nil, derives_optional, derives_word] at derives
  obtain ⟨list, _, rfl, items, _, _, rfl, trailing, rfl⟩ := derives
  rcases trailing with rfl | ⟨comma, rfl, isComma⟩
  · exact accepts_commaList (by decide) each isClose bound value ready (by simpa using awaits) items
  · simp only [commaList, derives_row_cons, derives_row_nil] at items
    obtain ⟨item, _, rfl, head, links, _, rfl, links, rfl⟩ := items
    have atClose : AtClose .rightBrace (comma :: last :: rest) := ⟨comma, _, rfl, Or.inl isComma⟩
    refine accepts_links each atClose (fun bound value middle item ready awaits first => ?_) links
      bound value item ready (by simpa using awaits) head
    refine accepts_round bound value (each value middle item _ ready awaits first atClose)
      (fun bound value middle _ tail ready same _ awaits => ?_) fun _ _ _ lacks _ => ?_
    · obtain ⟨rfl, rfl⟩ := List.cons.inj same
      exact closed bound value middle ready awaits
    · exact absurd isComma (lacks comma rfl)

/-- A loop that reads one thing again and again, up to what closes it. -/
theorem accepts_many
    (each : ∀ value middle item more, Ready middle → Awaits known (item ++ (more ++ rest)) middle →
      Derives known rule item → Derives known (.many rule) more →
      Parses True (body value) middle fun result after =>
        result.2 = true ∧ Awaits known (more ++ rest) after)
    (stops : ∀ value middle, Ready middle → Awaits known rest middle →
      Parses True (body value) middle fun result after => result.2 = false ∧ Awaits known rest after)
    (bound : Nat) (value : σ) (ready : Ready state) (awaits : Awaits known (tokens ++ rest) state)
    (derives : Derives known (.many rule) tokens) :
    Parses True (iterate bound value body) state fun _ after => Awaits known rest after := by
  induction bound generalizing value tokens state with
  | zero => exact parses_throw
  | succ bound ih =>
    rw [iterate]
    rcases derives_many.mp derives with rfl | ⟨item, more, rfl, first, derives⟩
    · refine parses_bind (stops value state ready awaits) ?_
      rintro ⟨value, _⟩ last ready ⟨rfl, awaits⟩
      exact parses_pure ready awaits
    · rw [List.append_assoc] at awaits
      refine parses_bind (each value state item more ready awaits first derives) ?_
      rintro ⟨value, _⟩ last ready ⟨rfl, awaits⟩
      exact ih value ready awaits derives

end Lists

/-- The tokens cannot go on with an expression whose operators bind at least as tightly as a level. -/
def Stops (level : Level) (tokens : List Token) : Prop :=
  ∀ token ∈ tokens.head?, token.kind ≠ .equal ∧ token.kind ≠ .leftBrace ∧
    ∀ continuation strength, Continuation.of? token.kind = some (continuation, strength) →
      strength.rank < level.rank

/-- The words that may stand behind a whole expression. -/
def closesExpression : TokenKind → Bool
  | .semicolon | .comma | .rightParen | .rightBrace => true
  | _ => false

theorem stops_cons {level : Level} {token : Token} {rest : List Token}
    (closes : closesExpression token.kind = true) : Stops level (token :: rest) := by
  rintro _ ⟨⟩
  cases kind : token.kind <;> rw [kind] at closes <;> cases closes
  all_goals
    refine ⟨by decide, by decide, fun _ _ found => ?_⟩
    cases found

/-- What an `if` may leave to the one around it. -/
def elseBranch : Rule :=
  .row [.word .elseWord, .symbol .statement]

/-- At most some number of branches stand in front of `rest`. -/
def Leaves (known : Text → Prop) (count : Nat) (rest : List Token) (state : State) : Prop :=
  ∃ branches : List (List Token), branches.length ≤ count ∧
    (∀ branch ∈ branches, Derives known elseBranch branch) ∧
    Awaits known (branches.flatten ++ rest) state

/-- Each production of a grammar reads what its rule derives. A statement that ends with an `if` may
take the `else` of the one around it, and leave fewer of them. -/
structure Grammar.Accepts (grammar : Grammar) : Prop where
  operand : ∀ {known : Text → Prop} {level : Level} {tokens rest : List Token} {state : State},
    Ready state → Awaits known (tokens ++ rest) state →
    Derives known (.symbol (.operand level)) tokens → Stops level rest →
    Level.assignment.rank ≤ level.rank → level.rank ≤ Level.unary.rank →
    Parses True (grammar.operand level) state fun _ last => Awaits known rest last
  statement : ∀ {known : Text → Prop} {tokens rest : List Token} {branches : List (List Token)}
    {state : State},
    Ready state → Awaits known (tokens ++ (branches.flatten ++ rest)) state →
    Derives known (.symbol .statement) tokens →
    (∀ branch ∈ branches, Derives known elseBranch branch) → Lacks .elseWord rest →
    Parses True grammar.statement state fun _ last => Leaves known branches.length rest last
  declaration : ∀ {known : Text → Prop} {tokens rest : List Token} {state : State},
    Ready state → Awaits known (tokens ++ rest) state →
    Derives known (.symbol .inner) tokens → Lacks .elseWord rest →
    Parses True grammar.declaration state fun _ last => Awaits known rest last

section Functions

variable {grammar : Grammar} {known : Text → Prop} {tokens rest : List Token} {state : State}
  [operands : ∀ origin level, Keeps (Changes origin) (grammar.operand level)]
  [declarations : ∀ origin, Keeps (Changes origin) grammar.declaration]

omit operands declarations in
theorem accepts_expression (accepts : grammar.Accepts) (ready : Ready state)
    (awaits : Awaits known (tokens ++ rest) state) (derives : Derives known expression tokens)
    (stops : Stops .assignment rest) :
    Parses True grammar.expression state fun _ last => Awaits known rest last :=
  accepts.operand ready awaits (derives_symbol.mp derives) stops (by decide) (by decide)

omit operands declarations in
theorem lacks_inner {kind : TokenKind} (derives : Derives known (.many (.symbol .inner)) tokens)
    (other : beginsInner kind = false) (lacks : Lacks kind rest) : Lacks kind (tokens ++ rest) := by
  rcases derives_many.mp derives with rfl | ⟨_, more, rfl, first, -⟩
  · exact lacks
  · obtain ⟨start, behind, rfl, starts⟩ := starts_inner first
    refine lacks_cons fun same => ?_
    rw [same, other] at starts
    cases starts

omit operands in
/-- The rest of a block, behind its opening brace. -/
theorem accepts_block (accepts : grammar.Accepts) {brace : Token} (isBrace : brace.kind = .rightBrace)
    (ready : Ready state) (awaits : Awaits known (tokens ++ brace :: rest) state)
    (derives : Derives known (.many (.symbol .inner)) tokens) :
    Parses True grammar.block state fun _ last => Awaits known rest last := by
  unfold Grammar.block
  refine parses_bind (accepts_many (fun _ middle item more ready awaits first derives => ?_)
    (fun _ middle ready awaits => ?_) grammar.bound () ready awaits derives)
    fun _ middle ready awaits => ?_
  · obtain ⟨start, behind, rfl, starts⟩ := starts_inner first
    have other : start.kind ≠ .rightBrace := by
      intro isBrace
      rw [isBrace] at starts
      cases starts
    have lacks : Lacks .elseWord (more ++ brace :: rest) :=
      lacks_inner derives rfl (lacks_cons (by rw [isBrace]; decide))
    refine parses_ran (awaits.check_lacks (lacks_cons other)) (parses_ran awaits.atEnd ?_)
    refine parses_bind (accepts.declaration ready awaits first lacks) fun _ last ready awaits => ?_
    exact parses_pure ready ⟨rfl, awaits⟩
  · refine parses_ran awaits.check (parses_ran awaits.atEnd ?_)
    simp only [List.head?_cons, Option.any_some, isBrace, beq_self_eq_true, Bool.true_or, if_true]
    exact parses_pure ready ⟨rfl, awaits⟩
  · refine parses_bind (awaits_expect ready awaits isBrace) fun _ last ready found => ?_
    exact parses_pure ready found.2

omit operands declarations in
theorem lacks_params (derives : Derives known (.symbol .params) tokens) :
    Lacks .rightParen (tokens ++ rest) := by
  obtain ⟨name, behind, rfl, isName, -⟩ := derives_keyword derives rfl
  exact lacks_cons (by rw [isName]; decide)

omit operands declarations in
/-- The parameters of a function, behind its opening parenthesis. -/
theorem accepts_parameters {paren : Token} (isParen : paren.kind = .rightParen) (ready : Ready state)
    (awaits : Awaits known (tokens ++ paren :: rest) state)
    (derives : Derives known (optional (.symbol .params)) tokens) :
    Parses True grammar.parameters state fun _ last => Awaits known (paren :: rest) last := by
  have counts : ∀ origin : State, Keeps (Changes origin)
      (modifyBody fun body => { body with arity := body.arity + 1 }) :=
    fun _ => keeps_body fun _ => ⟨rfl, rfl⟩
  unfold Grammar.parameters
  dsimp only
  rcases derives_optional.mp derives with rfl | derives
  · refine parses_ran awaits.check ?_
    simp only [List.nil_append, List.head?_cons, Option.any_some, isParen, beq_self_eq_true,
      Bool.not_true, Bool.false_eq_true, if_false]
    exact parses_pure ready awaits
  · refine parses_ran (awaits.check_lacks (lacks_params derives)) ?_
    refine accepts_commaList (by decide) (fun _ middle item behind ready awaits word _ => ?_) isParen
      grammar.bound () ready awaits (derives_symbol.mp derives)
    obtain ⟨name, rfl, isName⟩ := derives_word.mp word
    refine parses_bind (awaits_pass ready awaits) fun _ first ready awaits => parses_ran rfl ?_
    refine parses_ite (fun _ => (parses_errorHere ready fun _ => rfl).never) fun _ => ?_
    refine parses_bind (awaits_expect ready awaits isName) fun _ second ready found => ?_
    refine parses_bind (awaits_pass ready found.2) fun _ third ready awaits => ?_
    refine parses_bind (awaits_pass ready awaits) fun _ fourth ready awaits => ?_
    refine parses_bind (awaits_pass ready awaits) fun _ fifth ready awaits => ?_
    exact accepts_comma ready awaits

omit operands in
/-- A function, behind its name. -/
theorem accepts_function (accepts : grammar.Accepts) (kind : FunctionKind) (name : Text)
    (ready : Ready state) (awaits : Awaits known (tokens ++ rest) state)
    (derives : Derives known function tokens) :
    Parses True (grammar.function kind name) state fun _ last => Awaits known rest last := by
  simp only [function, derives_row_cons, derives_row_nil, derives_word] at derives
  obtain ⟨_, _, rfl, ⟨left, rfl, isLeft⟩, params, _, rfl, derivesParams, _, _, rfl,
    ⟨right, rfl, isRight⟩, body, _, rfl, derivesBlock, rfl⟩ := derives
  rw [derives_symbol] at derivesBlock
  simp only [production, derives_row_cons, derives_row_nil, derives_word] at derivesBlock
  obtain ⟨_, _, rfl, ⟨opened, rfl, isOpened⟩, inner, _, rfl, derivesInner, _, _, rfl,
    ⟨closed, rfl, isClosed⟩, rfl⟩ := derivesBlock
  simp only [List.append_assoc, List.cons_append, List.nil_append, List.append_nil] at awaits
  unfold Grammar.function
  refine parses_bind (parses_beginFunction ready kind name) fun _ first ready enters => ?_
  refine parses_bind (parses_beginScope ready enters.nesting) fun _ second ready opens => ?_
  have awaits := awaits.renests (enters.trans opens)
  refine parses_bind (awaits_expect ready awaits isLeft) fun _ third ready found => ?_
  refine parses_bind (accepts_parameters isRight ready found.2 derivesParams)
    fun _ fourth ready awaits => ?_
  refine parses_bind (awaits_expect ready awaits isRight) fun _ fifth ready found => ?_
  refine parses_bind (awaits_expect ready found.2 isOpened) fun _ sixth ready found => ?_
  refine parses_bind (accepts_block accepts isClosed ready found.2 derivesInner)
    fun _ seventh ready awaits => ?_
  refine parses_bind (awaits_pass ready awaits) fun _ eighth ready awaits => ?_
  exact (parses_endFunction ready).mono fun _ last _ leaves => awaits.renests leaves.1

end Functions

end ScriptMachine.Compiler
