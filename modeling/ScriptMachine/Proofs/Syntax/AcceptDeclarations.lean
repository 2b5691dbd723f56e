import ScriptMachine.Proofs.Syntax.AcceptStatements

set_option autoImplicit false
set_option synthInstance.maxSize 20000

/- Declarations and whole units that the grammar derives. -/
namespace ScriptMachine.Compiler

open Syntax Syntax.Rule

section Heads

variable {grammar : Grammar} {known : Text → Prop} {tokens rest : List Token} {state : State}

theorem accepts_field (struct : Text) (fields : List Text) (ready : Ready state)
    (awaits : Awaits known (tokens ++ rest) state) (derives : Derives known (.symbol .field) tokens)
    (noColon : Lacks .colon rest) :
    Parses True (Grammar.fieldDeclaration struct fields) state fun _ last =>
      Awaits known rest last := by
  obtain ⟨name, _, rfl, isName, derives⟩ := derives_keyword derives rfl
  simp only [derives_row_cons, derives_row_nil, derives_word, derives_optional] at derives
  obtain ⟨typed, _, rfl, annotated, rfl⟩ := derives
  rw [List.append_nil, List.cons_append] at awaits
  unfold Grammar.fieldDeclaration
  dsimp only
  refine parses_bind (awaits_expect ready awaits isName) fun field first ready found => ?_
  refine parses_ite (fun _ => (parses_errorAt ready fun _ => rfl).never) fun _ => ?_
  rcases annotated with rfl | ⟨_, _, rfl, ⟨colon, rfl, isColon⟩, _, _, rfl, ⟨type, rfl, isType⟩, rfl⟩
  · exact awaits_skip found.2 noColon (parses_pure ready found.2)
  · refine awaits_take ready found.2 isColon fun second ready awaits => ?_
    refine parses_bind (awaits_expect ready awaits isType) fun _ third ready found => parses_ran rfl ?_
    refine parses_ite (fun _ => (parses_errorAt ready fun _ => rfl).never) fun _ => ?_
    exact parses_pure ready found.2

theorem accepts_signatureArity {paren : Token} (isParen : paren.kind = .rightParen)
    (ready : Ready state) (awaits : Awaits known (tokens ++ paren :: rest) state)
    (derives : Derives known (optional (.symbol .params)) tokens) :
    Parses True grammar.signatureArity state fun _ last => Awaits known (paren :: rest) last := by
  unfold Grammar.signatureArity
  rcases derives_optional.mp derives with rfl | derives
  · refine parses_ran awaits.check ?_
    simp only [List.nil_append, List.head?_cons, Option.any_some, isParen, beq_self_eq_true, if_true]
    exact parses_pure ready awaits
  · refine parses_ran (awaits.check_lacks (lacks_params derives)) ?_
    refine accepts_commaList (by decide) (fun _ middle item behind ready awaits word _ => ?_) isParen
      grammar.bound 0 ready awaits (derives_symbol.mp derives)
    obtain ⟨name, rfl, isName⟩ := derives_word.mp word
    refine parses_bind (awaits_expect ready awaits isName) fun _ first ready found => ?_
    exact accepts_comma ready found.2

theorem accepts_signature (trait : Text) (signatures : List Signature) (ready : Ready state)
    (awaits : Awaits known (tokens ++ rest) state)
    (derives : Derives known (.symbol .signature) tokens) :
    Parses True (grammar.signature trait signatures) state fun _ last => Awaits known rest last := by
  obtain ⟨keyword, _, rfl, isFn, derives⟩ := derives_keyword derives rfl
  simp only [derives_row_cons, derives_row_nil, derives_word] at derives
  obtain ⟨_, _, rfl, ⟨name, rfl, isName⟩, _, _, rfl, ⟨left, rfl, isLeft⟩, params, _, rfl,
    derivesParams, _, _, rfl, ⟨right, rfl, isRight⟩, _, _, rfl, ⟨semicolon, rfl, isSemicolon⟩, rfl⟩ := derives
  simp only [List.append_assoc, List.cons_append, List.nil_append, List.append_nil] at awaits
  unfold Grammar.signature
  refine parses_bind (awaits_accept ready awaits isFn) ?_
  rintro _ first ready ⟨rfl, awaits⟩
  rw [if_neg (by simp)]
  refine parses_bind (awaits_expect ready awaits isName) fun method second ready found => ?_
  refine parses_bind (awaits_expect ready found.2 isLeft) fun _ third ready found => ?_
  refine parses_bind (accepts_signatureArity isRight ready found.2 derivesParams)
    fun arity fourth ready awaits => ?_
  refine parses_bind (awaits_expect ready awaits isRight) fun _ fifth ready found => ?_
  refine parses_bind (awaits_expect ready found.2 isSemicolon) fun _ sixth ready found => ?_
  exact awaits_pass ready found.2

/-- A loop over what stands in braces. -/
theorem accepts_braced {σ : Type} {each : σ → Compile σ} {symbol : Symbol} {rules : List Rule}
    [keeps : ∀ value origin, Keeps (Changes origin) (each value)]
    (begins : production symbol = .row (.word .fnWord :: rules)) {brace : Token}
    (isBrace : brace.kind = .rightBrace) (bound : Nat) (value : σ) (ready : Ready state)
    (awaits : Awaits known (tokens ++ brace :: rest) state)
    (derives : Derives known (.many (.symbol symbol)) tokens)
    (accepts : ∀ value {middle item behind}, Ready middle → Awaits known (item ++ behind) middle →
      Derives known (.symbol symbol) item →
      Parses True (each value) middle fun _ last => Awaits known behind last) :
    Parses True (iterate bound value fun value => do
      if (← check .rightBrace) || (← atEnd) then return (value, false)
      return (← each value, true)) state fun _ last => Awaits known (brace :: rest) last := by
  refine accepts_many (fun value middle item more ready awaits first _ => ?_)
    (fun value middle ready awaits => ?_) bound value ready awaits derives
  · obtain ⟨start, behind, rfl, isFn⟩ := starts_word first begins
    have other : start.kind ≠ .rightBrace := by
      rw [isFn]
      decide
    refine parses_ran (awaits.check_lacks (lacks_cons other)) (parses_ran awaits.atEnd ?_)
    refine parses_bind (accepts value ready awaits first) fun _ last ready awaits => ?_
    exact parses_pure ready ⟨rfl, awaits⟩
  · refine parses_ran awaits.check (parses_ran awaits.atEnd ?_)
    simp only [List.head?_cons, Option.any_some, isBrace, beq_self_eq_true, Bool.true_or, if_true]
    exact parses_pure ready ⟨rfl, awaits⟩

theorem accepts_traitDeclaration (ready : Ready state) (awaits : Awaits known (tokens ++ rest) state)
    (derives : Derives known (.row [.word .identifier, .word .leftBrace, .many (.symbol .signature),
      .word .rightBrace]) tokens) :
    Parses True grammar.traitDeclaration state fun _ last => Awaits known rest last := by
  simp only [derives_row_cons, derives_row_nil, derives_word] at derives
  obtain ⟨_, _, rfl, ⟨name, rfl, isName⟩, _, _, rfl, ⟨left, rfl, isLeft⟩, body, _, rfl, derives,
    _, _, rfl, ⟨right, rfl, isRight⟩, rfl⟩ := derives
  simp only [List.append_assoc, List.cons_append, List.nil_append, List.append_nil] at awaits
  unfold Grammar.traitDeclaration
  dsimp only
  refine parses_ran rfl (parses_ite (fun _ => (parses_error ready fun _ => rfl).never) fun _ => ?_)
  refine parses_bind (awaits_expect ready awaits isName) fun name first ready found =>
    parses_ran rfl ?_
  refine parses_ite (fun _ => (parses_errorAt ready fun _ => rfl).never) fun _ => ?_
  refine parses_bind (awaits_expect ready found.2 isLeft) fun _ second ready found => ?_
  refine parses_bind (accepts_braced rfl isRight grammar.bound [] ready found.2 derives
    fun signatures _ _ _ => accepts_signature name.text signatures) fun methods third ready awaits => ?_
  refine parses_bind (awaits_expect ready awaits isRight) fun _ fourth ready found => ?_
  exact awaits_pass ready found.2

theorem accepts_implHeader {trait keyword type : Token} (isTrait : trait.kind = .identifier)
    (isFor : keyword.kind = .forWord) (isType : type.kind = .identifier) (ready : Ready state)
    (awaits : Awaits known (trait :: keyword :: type :: rest) state) :
    Parses True Grammar.implHeader state fun _ last => Awaits known rest last := by
  unfold Grammar.implHeader
  refine parses_bind (awaits_expect ready awaits isTrait) fun _ first ready found => ?_
  refine parses_bind (awaits_expect ready found.2 isFor) fun _ second ready found => ?_
  refine parses_bind (awaits_expect ready found.2 isType) fun _ third ready found => ?_
  exact awaits_pass ready found.2

end Heads

section Functions

variable {grammar : Grammar} {known : Text → Prop} {tokens rest : List Token} {state : State}
  [declarations : ∀ origin, Keeps (Changes origin) grammar.declaration]

omit declarations in
/-- A function with its name. -/
theorem namedFunction_cases (derives : Derives known (.row [.word .identifier, function]) tokens) :
    ∃ name behind, tokens = name :: behind ∧ name.kind = .identifier ∧
      Derives known function behind := by
  rw [derives_row_cons] at derives
  obtain ⟨_, _, rfl, word, whole⟩ := derives
  obtain ⟨name, rfl, isName⟩ := derives_word.mp word
  rw [derives_row_cons] at whole
  obtain ⟨behind, _, rfl, derives, nothing⟩ := whole
  obtain rfl := derives_row_nil.mp nothing
  exact ⟨name, behind, by simp, isName, derives⟩

/-- A function declaration, behind `fn`. -/
theorem accepts_fnDeclaration (accepts : grammar.Accepts) (ready : Ready state)
    (awaits : Awaits known (tokens ++ rest) state)
    (derives : Derives known (.row [.word .identifier, function]) tokens) :
    Parses True grammar.fnDeclaration state fun _ last => Awaits known rest last := by
  obtain ⟨name, made, rfl, isName, derivesFunction⟩ := namedFunction_cases derives
  unfold Grammar.fnDeclaration
  dsimp only
  refine parses_bind (awaits_expect ready awaits isName) fun name first ready found =>
    parses_ran rfl ?_
  -- behind the name
  have rest : ∀ (isGlobal : Bool) middle, Ready middle → Awaits known (made ++ rest) middle →
      Parses True (do
        let made ← grammar.function .function name.text
        emitOperand .closure (← makeConstant (.ref made.1))
        if isGlobal then
          modify fun state : State =>
            { state with globals := state.globals.insert name.text ⟨{ arity := some made.2 }, false⟩ }
          emitOperand .defineGlobal (← textConstant name.text)
        else
          shapeNewest { arity := some made.2 }) middle fun _ last => Awaits known rest last := by
    intro isGlobal middle ready awaits
    refine parses_bind (accepts_function accepts .function _ ready awaits derivesFunction)
      fun made second ready awaits => ?_
    exact awaits_pass ready awaits
  cases first.draft.atTopLevel with
  | true => exact rest true first ready found.2
  | false =>
    refine parses_bind (awaits_pass ready found.2) fun _ second ready awaits => ?_
    refine parses_bind (awaits_pass ready awaits) fun _ third ready awaits => ?_
    exact rest false third ready awaits

theorem accepts_implMethod (accepts : grammar.Accepts) (header : Grammar.ImplHeader)
    (provided : List Text) (ready : Ready state) (awaits : Awaits known (tokens ++ rest) state)
    (derives : Derives known (.symbol .fnDecl) tokens) :
    Parses True (grammar.implMethod header provided) state fun _ last => Awaits known rest last := by
  obtain ⟨keyword, _, rfl, isFn, behind⟩ := derives_keyword derives rfl
  obtain ⟨name, made, rfl, isName, derivesFunction⟩ := namedFunction_cases behind
  have answers := fun origin => changes_implAnswer origin header provided
  unfold Grammar.implMethod
  refine parses_bind (awaits_accept ready awaits isFn) ?_
  rintro _ first ready ⟨rfl, awaits⟩
  rw [if_neg (by simp)]
  refine parses_bind (awaits_expect ready awaits isName) fun method second ready found => ?_
  refine parses_bind (accepts_function accepts .method _ ready found.2 derivesFunction)
    fun made third ready awaits => ?_
  have rests := @unmoved_implAnswer True third header provided method made.1 made.2
  exact @awaits_pass _ _ _ _ _ rests ready awaits

theorem accepts_implDeclaration (accepts : grammar.Accepts) (ready : Ready state)
    (awaits : Awaits known (tokens ++ rest) state)
    (derives : Derives known (.row [.word .identifier, .word .forWord, .word .identifier,
      .word .leftBrace, .many (.symbol .fnDecl), .word .rightBrace]) tokens) :
    Parses True grammar.implDeclaration state fun _ last => Awaits known rest last := by
  simp only [derives_row_cons, derives_row_nil, derives_word] at derives
  obtain ⟨_, _, rfl, ⟨trait, rfl, isTrait⟩, _, _, rfl, ⟨keyword, rfl, isFor⟩, _, _, rfl,
    ⟨type, rfl, isType⟩, _, _, rfl, ⟨left, rfl, isLeft⟩, body, _, rfl, derives, _, _, rfl,
    ⟨right, rfl, isRight⟩, rfl⟩ := derives
  simp only [List.append_assoc, List.cons_append, List.nil_append, List.append_nil] at awaits
  unfold Grammar.implDeclaration
  dsimp only
  refine parses_ran rfl (parses_ite (fun _ => (parses_error ready fun _ => rfl).never) fun _ => ?_)
  refine parses_bind (accepts_implHeader isTrait isFor isType ready awaits)
    fun header first ready awaits => ?_
  refine parses_bind (awaits_expect ready awaits isLeft) fun _ second ready found => ?_
  refine parses_bind (awaits_pass ready found.2) fun _ third ready awaits => ?_
  refine parses_bind (accepts_braced rfl isRight grammar.bound [] ready awaits derives
    fun provided _ _ _ => accepts_implMethod accepts header provided)
    fun provided fourth ready awaits => ?_
  refine parses_bind (awaits_expect ready awaits isRight) fun _ fifth ready found => ?_
  exact awaits_pass ready found.2

end Functions

section Structs

variable {grammar : Grammar} {known : Text → Prop} {tokens rest : List Token} {state : State}

/-- Outside of all functions and blocks. -/
def OnTop (state : State) : Prop :=
  state.draft.atTopLevel = true

instance : Indifferent OnTop where
  report _ onTop := onTop
  calm onTop := onTop
  move onTop := onTop
  settle onTop := onTop
  draft alike onTop := by
    rw [OnTop, Draft.atTopLevel, alike.kind, alike.scopeDepth]
    exact onTop

/-- An action that also keeps an invariant. -/
theorem Parses.keeping {strict : Prop} {α : Type} {action : Compile α} {inv : State → Prop}
    {done : α → State → Prop} [keeps : Keeps inv action] (parses : Parses strict action state done)
    (holds : inv state) :
    Parses strict action state fun result last => done result last ∧ inv last := by
  intro result last ran
  have kept := keeps.left holds
  rw [ran] at kept
  exact (parses result last ran).imp_left fun ⟨ready, done⟩ => ⟨ready, done, kept⟩

/-- A struct declaration, behind `struct`. The struct is known from here on. -/
theorem accepts_structDeclaration (ready : Ready state)
    (awaits : Awaits known (tokens ++ rest) state)
    (derives : Derives known (.row [.word .identifier, .word .leftBrace, braceList (.symbol .field),
      .word .rightBrace]) tokens) :
    Parses True grammar.structDeclaration state fun _ last => ∃ name behind, tokens = name :: behind ∧
      Awaits (fun text => known text ∨ name.text = text) rest last := by
  simp only [derives_row_cons, derives_row_nil, derives_word] at derives
  obtain ⟨_, _, rfl, ⟨name, rfl, isName⟩, _, _, rfl, ⟨left, rfl, isLeft⟩, items, _, rfl, derivesItems,
    _, _, rfl, ⟨right, rfl, isRight⟩, rfl⟩ := derives
  simp only [List.append_assoc, List.cons_append, List.nil_append, List.append_nil] at awaits ⊢
  have starts : ∀ item, Derives known (.symbol .field) item →
      ∃ first more, item = first :: more ∧ first.kind ≠ .rightBrace := by
    intro item derives
    obtain ⟨first, more, same, isName⟩ := starts_word derives rfl
    exact ⟨first, more, same, by rw [isName]; decide⟩
  unfold Grammar.structDeclaration
  dsimp only
  refine parses_ran rfl ?_
  refine parses_ite (fun _ => (parses_error ready fun _ => rfl).never) fun isTop => ?_
  have onTop : OnTop state := by simpa [OnTop] using isTop
  refine parses_bind ((awaits_expect ready awaits isName).keeping onTop) ?_
  rintro name first ready ⟨⟨rfl, named⟩, onTop⟩
  refine parses_ran rfl ?_
  refine parses_ite (fun _ => (parses_errorAt ready fun _ => rfl).never) fun isNew => ?_
  have ends : ∀ (fields : List Text) middle, Ready middle → Awaits known (right :: rest) middle →
      OnTop middle → Parses True (do
        let _ ← expect .rightBrace "'\x7d' after struct fields"
        let __do_lift ← atTopLevel
        if (!(first.findStruct name.text).isSome && __do_lift) = true then
          modifyStaged fun staged =>
            { staged with structs := staged.structs.push { name := name.text, fields } })
        middle fun _ last => ∃ start behind, name :: left :: (items ++ [right]) = start :: behind ∧
          Awaits (fun text => known text ∨ start.text = text) rest last := by
    intro fields middle ready awaits onTop
    refine parses_bind ((awaits_expect ready awaits isRight).keeping onTop)
      fun _ later ready found => parses_ran rfl ?_
    obtain ⟨⟨-, awaits⟩, onTop⟩ := found
    rw [if_pos (by rw [onTop]; simpa using isNew)]
    intro result last ran
    cases ran
    refine Or.inl ⟨⟨ready.quiet, ready.calm, ready.ends⟩, name, _, rfl, awaits.pending, ?_,
      awaits.legible⟩
    refine (known_pushed later _).trans ?_
    rw [awaits.known]
  refine parses_bind ((awaits_expect ready named isLeft).keeping onTop) fun _ second ready found => ?_
  obtain ⟨⟨-, awaits⟩, onTop⟩ := found
  rcases @lacks_braceList _ _ _ (right :: rest) _ starts derivesItems with rfl | lacks
  · refine parses_ran awaits.check ?_
    simp only [List.nil_append, List.head?_cons, Option.any_some, isRight, beq_self_eq_true,
      Bool.not_true, Bool.false_eq_true, if_false]
    exact ends [] second ready awaits onTop
  · refine parses_ran (awaits.check_lacks lacks) ?_
    refine parses_bind ((accepts_braceList (fun fields middle item behind ready awaits derives atClose => ?_)
      (fun fields middle ready awaits => ?_) isRight grammar.bound [] ready awaits derivesItems).keeping
      onTop) fun fields last ready found => ends fields last ready found.1 found.2
    · obtain ⟨start, more, rfl, other⟩ := starts item derives
      have noColon : Lacks .colon behind := by
        obtain ⟨token, _, rfl, isComma | isClose⟩ := atClose
        · exact lacks_cons (by rw [isComma]; decide)
        · exact lacks_cons (by rw [isClose]; decide)
      refine parses_ran (awaits.check_lacks (lacks_cons other)) ?_
      refine parses_bind (accepts_field name.text fields ready awaits derives noColon)
        fun fields third ready awaits => ?_
      exact accepts_comma ready awaits
    · refine parses_ran awaits.check ?_
      simp only [List.head?_cons, Option.any_some, isRight, beq_self_eq_true, if_true]
      exact parses_pure ready ⟨rfl, awaits⟩

end Structs

section Declarations

variable {grammar : Grammar} {known : Text → Prop} {tokens rest : List Token} {state : State}
  [operands : ∀ origin level, Keeps (Changes origin) (grammar.operand level)]
  [statements : ∀ origin, Keeps (Changes origin) grammar.statement]
  [declarations : ∀ origin, Keeps (Changes origin) grammar.declaration]

omit operands statements declarations in
/-- There is nothing to recover from behind a declaration that has been read. -/
theorem accepts_settled {production : Compile Unit} {done : Unit → State → Prop}
    (parses : Parses True production state done) : Parses True (do
      production
      if (← get).panicking then
        synchronize grammar.bound) state done := by
  refine parses_bind parses fun _ middle ready holds => parses_ran rfl ?_
  rw [ready.calm]
  exact parses_pure ready holds

/-- Inside a block or a function. -/
theorem accepts_inner (accepts : grammar.Accepts) (ready : Ready state)
    (awaits : Awaits known (tokens ++ rest) state) (derives : Derives known (.symbol .inner) tokens)
    (lacks : Lacks .elseWord rest) :
    Parses True grammar.parseDeclaration state fun _ last => Awaits known rest last := by
  unfold Grammar.parseDeclaration
  dsimp only
  rw [derives_symbol] at derives
  simp only [production, derives_oneOf, List.mem_cons, List.not_mem_nil, or_false,
    exists_eq_or_imp, exists_eq_left] at derives
  rcases derives with function | declares | statement
  · obtain ⟨keyword, behind, rfl, isFn, derives⟩ := derives_keyword function rfl
    obtain ⟨name, _, rfl, isName, -⟩ := namedFunction_cases derives
    iterate 3 refine awaits_skip awaits (lacks_cons (by rw [isFn]; decide)) ?_
    refine parses_ran awaits.check (parses_ran rfl ?_)
    have next := ready.ends.next awaits.pending
    rw [if_pos (by rw [next]; simp [isFn, isName])]
    refine parses_bind (awaits_advance ready awaits) fun _ first ready passed => ?_
    exact accepts_settled (accepts_fnDeclaration accepts ready passed.1 derives)
  · obtain ⟨keyword, behind, rfl, isVar, derives⟩ := derives_keyword declares rfl
    iterate 3 refine awaits_skip awaits (lacks_cons (by rw [isVar]; decide)) ?_
    refine parses_ran (awaits.check_lacks (lacks_cons (by rw [isVar]; decide))) (parses_ran rfl ?_)
    rw [if_neg (by simp)]
    refine awaits_take ready awaits isVar fun first ready awaits => ?_
    exact accepts_settled (accepts_varDeclaration accepts ready awaits derives)
  · obtain ⟨first, behind, rfl, begins, isFunction⟩ := starts_statement statement
    have other : ∀ kind, beginsStatement kind = false → first.kind ≠ kind := by
      rintro _ none rfl
      rw [none] at begins
      cases begins
    iterate 3 refine awaits_skip awaits (lacks_cons (other _ rfl)) ?_
    refine parses_ran awaits.check (parses_ran rfl ?_)
    have next : state.cursor.next.kind = ((behind ++ rest).head?.map Token.kind).getD .finish :=
      ready.ends.next awaits.pending
    have unnamed : ¬ (((((first :: behind) ++ rest).head?.any fun token => token.kind == .fnWord) &&
        state.cursor.next.kind == .identifier) = true) := by
      rw [next]
      simp only [List.cons_append, List.head?_cons, Option.any_some, Bool.and_eq_true, beq_iff_eq,
        not_and]
      intro isFn
      obtain ⟨second, same, isParen⟩ := isFunction isFn
      rw [List.head?_append, same]
      simp [isParen]
    rw [if_neg unnamed]
    refine awaits_skip awaits (lacks_cons (other _ rfl)) (accepts_settled ?_)
    have bare : ∀ branch ∈ ([] : List (List Token)), Derives known elseBranch branch :=
      fun _ member => (List.not_mem_nil member).elim
    refine (accepts_parseStatement accepts ready awaits statement bare lacks).mono
      fun _ last _ leaves => ?_
    obtain ⟨left, few, -, awaits⟩ := leaves
    obtain rfl := List.eq_nil_of_length_eq_zero (Nat.le_zero.mp few)
    exact awaits

/-- At the top level of a unit. -/
theorem accepts_topLevel (accepts : grammar.Accepts) (ready : Ready state)
    (awaits : Awaits known (tokens ++ rest) state)
    (derives : Derives known (.symbol .declaration) tokens) (lacks : Lacks .elseWord rest) :
    Parses True grammar.parseDeclaration state fun _ last =>
      Awaits (declaring known tokens) rest last := by
  rw [derives_symbol] at derives
  simp only [production, derives_oneOf, List.mem_cons, List.not_mem_nil, or_false,
    exists_eq_or_imp, exists_eq_left] at derives
  rcases derives with struct | trait | impl | inner
  · obtain ⟨keyword, behind, rfl, isStruct, derives⟩ := derives_keyword struct rfl
    unfold Grammar.parseDeclaration
    dsimp only
    refine awaits_take ready awaits isStruct fun first ready awaits => accepts_settled ?_
    refine (accepts_structDeclaration ready awaits derives).mono fun _ last _ found => ?_
    obtain ⟨name, _, rfl, behind⟩ := found
    simpa [declaring, isStruct] using behind
  · obtain ⟨keyword, behind, rfl, isTrait, derives⟩ := derives_keyword trait rfl
    rw [declaring_other (by rw [isTrait]; decide)]
    unfold Grammar.parseDeclaration
    dsimp only
    refine awaits_skip awaits (lacks_cons (by rw [isTrait]; decide)) ?_
    refine awaits_take ready awaits isTrait fun first ready awaits => accepts_settled ?_
    exact accepts_traitDeclaration ready awaits derives
  · obtain ⟨keyword, behind, rfl, isImpl, derives⟩ := derives_keyword impl rfl
    rw [declaring_other (by rw [isImpl]; decide)]
    unfold Grammar.parseDeclaration
    dsimp only
    iterate 2 refine awaits_skip awaits (lacks_cons (by rw [isImpl]; decide)) ?_
    refine awaits_take ready awaits isImpl fun first ready awaits => accepts_settled ?_
    exact accepts_implDeclaration accepts ready awaits derives
  · obtain ⟨first, behind, rfl, begins⟩ := starts_inner inner
    have other : first.kind ≠ .structWord := by
      intro isStruct
      rw [isStruct] at begins
      cases begins
    rw [declaring_other other]
    exact accepts_inner accepts ready awaits inner lacks

end Declarations

section Units

variable {known : Text → Prop} {tokens rest : List Token} {state : State}

theorem accepts_grammar (depth : Nat) :
    Grammar.Accepts ⟨depth, operandAt depth, statementAt depth, declarationAt depth⟩ := by
  induction depth with
  | zero =>
    refine ⟨fun _ _ _ _ _ _ => ?_, fun _ _ _ _ _ => ?_, fun _ _ _ _ => ?_⟩
    · simp only [operandAt]
      exact parses_throw
    · simp only [statementAt]
      exact parses_throw
    · simp only [declarationAt]
      exact parses_throw
  | succ depth ih =>
    have operands : ∀ origin level, Keeps (Changes origin) (operandAt depth level) :=
      fun _ => (keeps_grammar depth).1
    have statements : ∀ origin, Keeps (Changes origin) (statementAt depth) :=
      fun _ => (keeps_grammar depth).2.1
    have declarations : ∀ origin, Keeps (Changes origin) (declarationAt depth) :=
      fun _ => (keeps_grammar depth).2.2
    refine ⟨fun ready awaits derives stops loose tight => ?_,
      fun ready awaits derives derive lacks => ?_, fun ready awaits derives lacks => ?_⟩
    · simp only [operandAt]
      exact accepts_parseOperand ih ready awaits derives stops loose tight
    · simp only [statementAt]
      exact accepts_parseStatement ih ready awaits derives derive lacks
    · simp only [declarationAt]
      exact accepts_inner ih ready awaits derives lacks

theorem accepts_declarationAt (depth : Nat) (ready : Ready state)
    (awaits : Awaits known (tokens ++ rest) state)
    (derives : Derives known (.symbol .declaration) tokens) (lacks : Lacks .elseWord rest) :
    Parses True (declarationAt depth) state fun _ last =>
      Awaits (declaring known tokens) rest last := by
  cases depth with
  | zero =>
    simp only [declarationAt]
    exact parses_throw
  | succ depth =>
    have operands : ∀ origin level, Keeps (Changes origin) (operandAt depth level) :=
      fun _ => (keeps_grammar depth).1
    have statements : ∀ origin, Keeps (Changes origin) (statementAt depth) :=
      fun _ => (keeps_grammar depth).2.1
    have declarations : ∀ origin, Keeps (Changes origin) (declarationAt depth) :=
      fun _ => (keeps_grammar depth).2.2
    simp only [declarationAt]
    exact accepts_topLevel (accepts_grammar depth) ready awaits derives lacks

/-- No declaration begins with `else`. -/
theorem starts_declaration (derives : Derives known (.symbol .declaration) tokens) :
    ∃ first rest, tokens = first :: rest ∧ first.kind ≠ .elseWord := by
  rw [derives_symbol] at derives
  simp only [production, derives_oneOf, List.mem_cons, List.not_mem_nil, or_false,
    exists_eq_or_imp, exists_eq_left] at derives
  rcases derives with struct | trait | impl | inner
  · obtain ⟨first, rest, same, isStruct⟩ := starts_word struct rfl
    exact ⟨first, rest, same, by rw [isStruct]; decide⟩
  · obtain ⟨first, rest, same, isTrait⟩ := starts_word trait rfl
    exact ⟨first, rest, same, by rw [isTrait]; decide⟩
  · obtain ⟨first, rest, same, isImpl⟩ := starts_word impl rfl
    exact ⟨first, rest, same, by rw [isImpl]; decide⟩
  · obtain ⟨first, rest, same, begins⟩ := starts_inner inner
    refine ⟨first, rest, same, fun isElse => ?_⟩
    rw [isElse] at begins
    cases begins

theorem lacks_program (program : Program known tokens) : Lacks .elseWord tokens := by
  cases program with
  | nothing => simp [Lacks]
  | declaration derives _ =>
    obtain ⟨first, rest, rfl, other⟩ := starts_declaration derives
    exact lacks_cons other

/-- All of a program is read. -/
theorem accepts_unit (depth : Nat) (ready : Ready state) (awaits : Awaits known tokens state)
    (program : Program known tokens) : Parses True (unit depth) state fun _ _ => True := by
  have declarations : ∀ origin, Keeps (Changes origin) (declarationAt depth) :=
    fun _ => (keeps_grammar depth).2.2
  have loop : Parses True (iterate depth () fun _ => do
      if ← atEnd then return ((), false)
      declarationAt depth
      return ((), true)) state fun _ _ => True := by
    refine parses_iterate (fun _ middle => ∃ known tokens, Awaits known tokens middle ∧
      Program known tokens) (fun _ middle ready inv => ?_) depth () ready ⟨known, tokens, awaits, program⟩
    obtain ⟨known, tokens, awaits, program⟩ := inv
    cases program with
    | nothing => exact parses_ran awaits.atEnd (parses_pure ready trivial)
    | @declaration _ first rest derives program =>
      obtain ⟨start, behind, rfl, -⟩ := starts_declaration derives
      refine parses_ran awaits.atEnd ?_
      refine parses_bind (accepts_declarationAt depth ready awaits derives (lacks_program program))
        fun _ last ready awaits => parses_pure ready ?_
      exact ⟨_, rest, awaits, program⟩
  unfold unit
  refine parses_bind (parses_settle ready fun _ => awaits.pending ▸ awaits.legible) fun _ start ready same => ?_
  rw [same]
  refine parses_bind loop fun _ last ready _ => ?_
  exact (parses_still ready).mono fun _ _ _ _ => trivial

end Units

end ScriptMachine.Compiler
