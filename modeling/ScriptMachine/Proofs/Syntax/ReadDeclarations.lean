import ScriptMachine.Proofs.Syntax.ReadStatements

set_option autoImplicit false
set_option synthInstance.maxSize 20000

/- Declarations and whole units that have been read without a complaint. -/
namespace ScriptMachine.Compiler

open Syntax Syntax.Rule

section Heads

variable {grammar : Grammar} {origin state : State}

theorem reads_field (struct : Text) (fields : List Text) (ready : Ready state) :
    Parses False (Grammar.fieldDeclaration struct fields) state fun _ last =>
      Reads (.symbol .field) state last := by
  unfold Grammar.fieldDeclaration
  dsimp only
  refine parses_bind (parses_word ready (Reads.nothing state)) fun field first ready front => ?_
  refine parses_ite (fun _ => (parses_errorAt ready False.elim).never) fun _ => ?_
  refine parses_bind (reads_accept ready) fun annotated second ready colon => ?_
  cases annotated with
  | true =>
    refine parses_bind (parses_word ready ((Reads.nothing first).then colon))
      fun type third ready annotation => parses_ran rfl ?_
    refine parses_ite (fun _ => (parses_errorAt ready False.elim).never) fun _ => ?_
    exact parses_pure ready ((front.then annotation.present).named .field rfl)
  | false =>
    obtain ⟨rfl, -⟩ := colon
    exact parses_pure ready ((front.then (.absent _ second)).named .field rfl)

theorem reads_signatureArity (ready : Ready state)
    (front : Reads (.row [.word .leftParen]) origin state) :
    Parses False grammar.signatureArity state fun _ last =>
      Reads (.row [.word .leftParen, optional (.symbol .params)]) origin last := by
  unfold Grammar.signatureArity
  refine parses_ran check_eq (parses_ite (fun _ => ?_) fun _ => ?_)
  · exact parses_pure ready (front.then (.absent _ state))
  refine (reads_commaList (.word .identifier) (fun arity middle ready _ => ?_) grammar.bound 0
    ready (front.expecting rfl rfl)).mono fun _ last _ reads =>
      front.then (reads.named .params rfl).present
  refine parses_bind (parses_word ready (Reads.nothing middle)) fun _ first ready word => ?_
  exact reads_comma ready word.single

theorem reads_signature (trait : Text) (signatures : List Signature) (ready : Ready state) :
    Parses False (grammar.signature trait signatures) state fun _ last =>
      Reads (.symbol .signature) state last := by
  unfold Grammar.signature
  refine parses_bind (reads_accept ready) fun begins first ready keyword => ?_
  cases begins with
  | false => exact (parses_errorHere ready False.elim).never
  | true =>
    rw [if_neg (by simp)]
    have front := (Reads.nothing state).then keyword
    refine parses_bind (parses_word ready front) fun method second ready front => ?_
    refine parses_bind (parses_word ready (Reads.nothing second)) fun _ third ready paren => ?_
    refine parses_bind (reads_signatureArity ready paren) fun arity fourth ready params => ?_
    refine parses_bind (parses_word ready (front.append params)) fun _ fifth ready front => ?_
    refine parses_bind (parses_word ready front) fun _ sixth ready whole => ?_
    exact (parses_pass ready whole).mono fun _ last _ whole => whole.named .signature rfl

theorem reads_implHeader (ready : Ready state)
    (front : Reads (.row [.word .implWord]) origin state) :
    Parses False Grammar.implHeader state fun _ last =>
      Reads (.row [.word .implWord, .word .identifier, .word .forWord, .word .identifier])
        origin last := by
  unfold Grammar.implHeader
  refine parses_bind (parses_word ready front) fun trait first ready front => ?_
  refine parses_bind (parses_word ready front) fun _ second ready front => ?_
  refine parses_bind (parses_word ready front) fun type third ready front => ?_
  exact parses_pass ready front

end Heads

section Declarations

variable {grammar : Grammar} {origin state : State}
  [operands : ∀ origin level, Keeps (Changes origin) (grammar.operand level)]
  [statements : ∀ origin, Keeps (Changes origin) grammar.statement]
  [declarations : ∀ origin, Keeps (Changes origin) grammar.declaration]

omit operands statements declarations in
theorem reads_traitDeclaration (ready : Ready state)
    (front : Reads (.row [.word .traitWord]) origin state) :
    Parses False grammar.traitDeclaration state fun _ last =>
      Reads (.symbol .traitDecl) origin last := by
  unfold Grammar.traitDeclaration
  dsimp only
  refine parses_ran rfl (parses_ite (fun _ => (parses_error ready False.elim).never) fun _ => ?_)
  refine parses_bind (parses_word ready front) fun name first ready front => parses_ran rfl ?_
  refine parses_ite (fun _ => (parses_errorAt ready False.elim).never) fun _ => ?_
  refine parses_bind (parses_word ready front) fun _ second ready front => ?_
  refine parses_bind (reads_many (.symbol .signature) (fun signatures middle ready _ => ?_)
    grammar.bound [] ready) fun methods third ready body => ?_
  · refine parses_ran check_eq (parses_ran atEnd_eq ?_)
    refine parses_ite (fun _ => parses_pure ready rfl) fun _ => ?_
    exact parses_bind (reads_signature name.text signatures ready) fun _ last ready reads =>
      parses_pure ready reads
  · refine parses_bind (parses_word ready (front.then body)) fun _ fourth ready whole => ?_
    exact (parses_pass ready whole).mono fun _ last _ whole => whole.named .traitDecl rfl

omit operands statements in
theorem reads_implMethod (recognises : grammar.Recognises) (header : Grammar.ImplHeader)
    (provided : List Text) (ready : Ready state) :
    Parses False (grammar.implMethod header provided) state fun _ last =>
      Reads (.symbol .fnDecl) state last := by
  have answers := fun origin => changes_implAnswer origin header provided
  unfold Grammar.implMethod
  refine parses_andThen (fun begins origin => ?_) (reads_accept ready)
    fun begins first ready keyword => ?_
  · infer_instance
  cases begins with
  | false => exact (parses_errorHere ready False.elim).never
  | true =>
    rw [if_neg (by simp)]
    have front := (Reads.nothing state).then keyword
    refine parses_bind (parses_word ready front) fun method second ready front => ?_
    refine parses_bind (.behind front (reads_function recognises .method _ ready))
      fun made third ready whole => ?_
    have rests := @unmoved_implAnswer False third header provided method made.1 made.2
    exact (@parses_pass _ _ _ _ _ rests ready whole).mono fun _ last _ whole =>
      whole.named .fnDecl rfl

omit operands statements in
theorem reads_implDeclaration (recognises : grammar.Recognises) (ready : Ready state)
    (front : Reads (.row [.word .implWord]) origin state) :
    Parses False grammar.implDeclaration state fun _ last =>
      Reads (.symbol .implDecl) origin last := by
  unfold Grammar.implDeclaration
  dsimp only
  refine parses_ran rfl (parses_ite (fun _ => (parses_error ready False.elim).never) fun _ => ?_)
  refine parses_bind (reads_implHeader ready front) fun header first ready front => ?_
  refine parses_bind (parses_word ready front) fun _ second ready front => ?_
  refine parses_bind (parses_pass ready front) fun _ third ready front => ?_
  refine parses_bind (reads_many (.symbol .fnDecl) (fun provided middle ready _ => ?_)
    grammar.bound [] ready) fun provided fourth ready body => ?_
  · refine parses_ran check_eq (parses_ran atEnd_eq ?_)
    refine parses_ite (fun _ => parses_pure ready rfl) fun _ => ?_
    exact parses_bind (reads_implMethod recognises header provided ready) fun _ last ready reads =>
      parses_pure ready reads
  · refine parses_bind (parses_word ready (front.then body)) fun _ fifth ready whole => ?_
    exact (parses_pass ready whole).mono fun _ last _ whole => whole.named .implDecl rfl

omit operands statements in
theorem reads_fnDeclaration (recognises : grammar.Recognises) (ready : Ready state)
    (front : Reads (.row [.word .fnWord]) origin state) :
    Parses False grammar.fnDeclaration state fun _ last => Reads (.symbol .fnDecl) origin last := by
  unfold Grammar.fnDeclaration
  dsimp only
  refine parses_bind (parses_word ready front) fun name first ready front => parses_ran rfl ?_
  -- behind the name
  have rest : ∀ (isGlobal : Bool) middle, Ready middle →
      Reads (.row [.word .fnWord, .word .identifier]) origin middle → Parses False (do
        let made ← grammar.function .function name.text
        emitOperand .closure (← makeConstant (.ref made.1))
        if isGlobal then
          modify fun state : State =>
            { state with globals := state.globals.insert name.text ⟨{ arity := some made.2 }, false⟩ }
          emitOperand .defineGlobal (← textConstant name.text)
        else
          shapeNewest { arity := some made.2 }) middle fun _ last =>
            Reads (.symbol .fnDecl) origin last := by
    intro isGlobal middle ready front
    refine parses_bind (.behind front (reads_function recognises .function _ ready))
      fun made second ready whole => ?_
    exact (parses_pass ready whole).mono fun _ last _ whole => whole.named .fnDecl rfl
  cases first.draft.atTopLevel with
  | true => exact rest true first ready front
  | false =>
    refine parses_bind (parses_pass ready front) fun _ second ready front => ?_
    refine parses_bind (parses_pass ready front) fun _ third ready front => ?_
    exact rest false third ready front

/-- A declaration, given what those that only a unit can hold lead to. -/
theorem reads_declarationCases (recognises : grammar.Recognises) {done : Unit → State → Prop}
    (ready : Ready state) (inside : state.pending ≠ [])
    (structs : ∀ next, Ready next → Reads (.row [.word .structWord]) state next →
      Parses False grammar.structDeclaration next done)
    (traits : ∀ next, Ready next → Reads (.row [.word .traitWord]) state next →
      Parses False grammar.traitDeclaration next done)
    (impls : ∀ next, Ready next → Reads (.row [.word .implWord]) state next →
      Parses False grammar.implDeclaration next done)
    (inner : ∀ last, Reads (.symbol .inner) state last → done () last) :
    Parses False grammar.parseDeclaration state done := by
  have closes : ∀ middle, Ready middle → done () middle → Parses False (do
      if (← get).panicking then
        synchronize grammar.bound) middle done := by
    intro middle ready holds
    refine parses_ran rfl ?_
    rw [ready.calm]
    exact parses_pure ready holds
  have behind : ∀ {production : Compile Unit} {middle : State}, Parses False production middle done →
      Parses False (do
        production
        if (← get).panicking then
          synchronize grammar.bound) middle done := fun parses =>
    parses_bind parses fun _ middle ready holds => closes middle ready holds
  have accepts : ∀ {kind : TokenKind} {yes no : Compile Unit} [∀ origin, Keeps (Changes origin) yes]
      [∀ origin, Keeps (Changes origin) no],
      (∀ next, Ready next → Reads (.row [.word kind]) state next → Parses False yes next done) →
      Parses False no state done →
      Parses False (do if ← accept kind then yes else no) state done := by
    intro kind yes no _ _ found missing
    refine parses_bind (reads_accept ready) fun there next ready keyword => ?_
    cases there with
    | true => exact found next ready ((Reads.nothing state).then keyword)
    | false =>
      obtain ⟨rfl, -⟩ := keyword
      exact missing
  unfold Grammar.parseDeclaration
  dsimp only
  refine accepts (fun next ready keyword => behind (structs next ready keyword)) ?_
  refine accepts (fun next ready keyword => behind (traits next ready keyword)) ?_
  refine accepts (fun next ready keyword => behind (impls next ready keyword)) ?_
  refine parses_ran check_eq (parses_ran rfl (parses_ite (fun isFn => ?_) fun _ => ?_))
  · obtain ⟨token, rest, waiting, isFn⟩ : ∃ token rest, state.pending = token :: rest ∧
        token.kind = .fnWord := by
      cases waiting : state.pending with
      | nil => exact absurd waiting inside
      | cons token rest =>
        rw [waiting] at isFn
        simp only [List.head?_cons, Option.any_some, Bool.and_eq_true, beq_iff_eq] at isFn
        exact ⟨token, rest, rfl, isFn.1⟩
    refine parses_bind (parses_advance ready waiting False.elim) fun _ next ready passes => behind ?_
    refine (reads_fnDeclaration recognises ready
      ((Reads.nothing state).then (passes.2.reads isFn))).mono fun _ last _ reads => ?_
    exact inner last (reads.alternative .inner rfl (by simp))
  · refine accepts (fun next ready keyword => behind ?_) (behind ?_)
    · exact (reads_varDeclaration recognises ready keyword).mono fun _ last _ reads =>
        inner last (reads.alternative .inner rfl (by simp))
    · refine (reads_parseStatement recognises ready fun empty => absurd empty inside).mono
        fun _ last _ reads => inner last (reads.alternative .inner rfl (by simp))

/-- Inside a block or a function. -/
theorem reads_inner (recognises : grammar.Recognises) (ready : Ready state)
    (inside : state.pending ≠ []) (nested : state.draft.atTopLevel = false) :
    Parses False grammar.parseDeclaration state fun _ last => Reads (.symbol .inner) state last := by
  have below : ∀ {rule : Rule} {next : State}, Reads rule state next →
      next.draft.atTopLevel = false := fun reads => reads.stays.atTopLevel.trans nested
  refine reads_declarationCases recognises ready inside (fun next ready keyword => ?_)
    (fun next ready keyword => ?_) (fun next ready keyword => ?_) fun _ reads => reads
  · unfold Grammar.structDeclaration
    dsimp only
    refine parses_ran rfl ?_
    rw [below keyword]
    exact (parses_error ready False.elim).never
  · unfold Grammar.traitDeclaration
    dsimp only
    refine parses_ran rfl ?_
    rw [below keyword]
    exact (parses_error ready False.elim).never
  · unfold Grammar.implDeclaration
    dsimp only
    refine parses_ran rfl ?_
    rw [below keyword]
    exact (parses_error ready False.elim).never

/-- A declaration of a unit has been read, and a struct it declares is known from here on. -/
def ReadsDeclaration (before after : State) : Prop :=
  ∃ used, Derives before.known (.symbol .declaration) used ∧
    before.pending = used ++ after.pending ∧ after.known = declaring before.known used

omit operands statements declarations in
theorem reads_structDeclaration (ready : Ready state)
    (front : Reads (.row [.word .structWord]) origin state) :
    Parses False grammar.structDeclaration state fun _ last => ReadsDeclaration origin last := by
  unfold Grammar.structDeclaration
  dsimp only
  refine parses_ran rfl ?_
  refine parses_ite (fun _ => (parses_error ready False.elim).never) fun isTop => ?_
  refine parses_bind (reads_expect ready) fun name first ready found => parses_ran rfl ?_
  obtain ⟨isName, named⟩ := found
  refine parses_ite (fun _ => (parses_errorAt ready False.elim).never) fun isNew => ?_
  have ends : ∀ (fields : List Text) middle, Ready middle →
      Reads (.row [.word .leftBrace, braceList (.symbol .field)]) first middle → Parses False (do
        let _ ← expect .rightBrace "'\x7d' after struct fields"
        let __do_lift ← atTopLevel
        if (!(first.findStruct name.text).isSome && __do_lift) = true then
          modifyStaged fun staged =>
            { staged with structs := staged.structs.push { name := name.text, fields } })
        middle fun _ last => ReadsDeclaration origin last := by
    intro fields middle ready body
    refine parses_bind (parses_word ready body) fun _ later ready body => parses_ran rfl ?_
    have top : later.draft.atTopLevel = true := by
      rw [body.stays.atTopLevel, named.toStays.atTopLevel]
      simpa using isTop
    rw [if_pos (by rw [top]; simpa using isNew)]
    obtain ⟨start, derives, pending, -⟩ := front.derives
    obtain ⟨rest, derivesBody, pendingBody, -⟩ := body.derives
    rw [named.known, front.stays.known] at derivesBody
    have whole := derives.append ((Derives.next (.word isName) derivesBody))
    obtain ⟨keyword, rfl, isStruct⟩ : ∃ keyword : Token, start = [keyword] ∧
        keyword.kind = .structWord := by
      simpa using derives
    intro result last ran
    cases ran
    refine Or.inl ⟨⟨ready.quiet, ready.calm, ready.ends⟩, keyword :: name :: rest, ?_, ?_, ?_⟩
    · exact .symbol (.oneOf List.mem_cons_self (.symbol whole))
    · rw [pending, named.pending, pendingBody]
      rfl
    · refine (known_pushed later _).trans ?_
      rw [body.stays.known, named.known, front.stays.known]
      funext text
      simp [declaring, isStruct]
  refine parses_bind (parses_word ready (Reads.nothing first)) fun _ second ready front => ?_
  refine parses_ran check_eq (parses_ite (fun _ => ?_) fun _ =>
    ends [] second ready (front.then (.absent _ second)))
  refine parses_bind (reads_braceList (.symbol .field) (fun fields middle ready => ?_)
    grammar.bound [] ready) fun fields last ready reads => ends fields last ready (front.then reads)
  refine parses_ran check_eq (parses_ite (fun _ => parses_pure ready (Or.inr rfl)) fun _ => ?_)
  refine parses_bind (reads_field name.text fields ready) fun fields third ready reads => ?_
  refine (reads_comma ready reads).mono fun result last _ reads => ?_
  split at reads
  · next more => rwa [if_pos more]
  · next stops =>
    rw [if_neg stops]
    exact Or.inl reads

omit operands statements declarations in
/-- A declaration of another kind makes no struct known. -/
theorem Reads.declares {symbol : Symbol} {rules : List Rule}
    (reads : Reads (.symbol symbol) origin state)
    (means : production .declaration = .oneOf rules) (member : .symbol symbol ∈ rules)
    (other : ∀ used, Derives origin.known (.symbol symbol) used →
      ∃ first rest, used = first :: rest ∧ first.kind ≠ .structWord) : ReadsDeclaration origin state := by
  obtain ⟨used, derives, pending, -⟩ := reads.derives
  obtain ⟨first, rest, rfl, isOther⟩ := other used derives
  refine ⟨first :: rest, .symbol (means ▸ .oneOf member derives), pending, ?_⟩
  rw [reads.stays.known, declaring_other isOther]

/-- At the top level of a unit. -/
theorem reads_topLevel (recognises : grammar.Recognises) (ready : Ready state)
    (inside : state.pending ≠ []) :
    Parses False grammar.parseDeclaration state fun _ last => ReadsDeclaration state last := by
  refine reads_declarationCases recognises ready inside
    (fun next ready keyword => reads_structDeclaration ready keyword)
    (fun next ready keyword => ?_) (fun next ready keyword => ?_) fun last reads => ?_
  · refine (reads_traitDeclaration ready keyword).mono fun _ last _ reads =>
      reads.declares rfl (by simp) fun used derives => ?_
    obtain ⟨first, rest, same, isTrait⟩ := starts_word derives rfl
    exact ⟨first, rest, same, by simp [isTrait]⟩
  · refine (reads_implDeclaration recognises ready keyword).mono fun _ last _ reads =>
      reads.declares rfl (by simp) fun used derives => ?_
    obtain ⟨first, rest, same, isImpl⟩ := starts_word derives rfl
    exact ⟨first, rest, same, by simp [isImpl]⟩
  · refine reads.declares rfl (by simp) fun used derives => ?_
    obtain ⟨first, rest, same, starts⟩ := starts_inner derives
    refine ⟨first, rest, same, fun isStruct => ?_⟩
    rw [isStruct] at starts
    cases starts

end Declarations

section Units

variable {state : State}

theorem recognises_grammar (depth : Nat) :
    Grammar.Recognises ⟨depth, operandAt depth, statementAt depth, declarationAt depth⟩ := by
  induction depth with
  | zero =>
    refine ⟨fun _ _ _ => ?_, fun _ _ => ?_, fun _ _ _ => ?_⟩
    · simp only [operandAt]
      exact parses_throw
    · simp only [statementAt]
      exact parses_throw
    · simp only [declarationAt]
      exact parses_throw
  | succ depth ih =>
    have operands : ∀ origin level, Keeps (Changes origin) (operandAt depth level) :=
      fun _ => (keeps_grammar depth).1
    have statements : ∀ origin, Keeps (Changes origin) (statementAt depth) :=
      fun _ => (keeps_grammar depth).2.1
    have declarations : ∀ origin, Keeps (Changes origin) (declarationAt depth) :=
      fun _ => (keeps_grammar depth).2.2
    refine ⟨fun ready expecting low => ?_, fun ready expecting => ?_,
      fun ready inside nested => ?_⟩
    · simp only [operandAt]
      exact reads_parseOperand ih ready expecting low
    · simp only [statementAt]
      exact reads_parseStatement ih ready expecting
    · simp only [declarationAt]
      exact reads_inner ih ready inside nested

theorem reads_declarationAt (depth : Nat) (ready : Ready state) (inside : state.pending ≠ []) :
    Parses False (declarationAt depth) state fun _ last => ReadsDeclaration state last := by
  cases depth with
  | zero =>
    simp only [declarationAt]
    exact parses_throw
  | succ depth =>
    have operands : ∀ origin level, Keeps (Changes origin) (operandAt depth level) :=
      fun _ => (keeps_grammar depth).1
    have statements : ∀ origin, Keeps (Changes origin) (statementAt depth) :=
      fun _ => (keeps_grammar depth).2.1
    have declarations : ∀ origin, Keeps (Changes origin) (declarationAt depth) :=
      fun _ => (keeps_grammar depth).2.2
    simp only [declarationAt]
    exact reads_topLevel (recognises_grammar depth) ready inside

/-- What a unit reads is a program. -/
theorem reads_unit (depth : Nat) (ready : Ready state) :
    Parses False (unit depth) state fun _ _ => Program state.known state.pending := by
  have declarations : ∀ origin, Keeps (Changes origin) (declarationAt depth) :=
    fun _ => (keeps_grammar depth).2.2
  -- what has been read makes a program of whatever program is still to come
  let inv : Unit → State → Prop := fun _ middle =>
    Program middle.known middle.pending → Program state.known state.pending
  have loop : Parses False (iterate depth () fun _ => do
      if ← atEnd then return ((), false)
      declarationAt depth
      return ((), true)) state fun _ _ => Program state.known state.pending := by
    refine parses_iterate inv (fun _ middle ready whole => ?_) depth () ready fun program => program
    refine parses_ran atEnd_eq (parses_ite (fun empty => parses_pure ready ?_) fun more => ?_)
    · refine whole ?_
      rw [List.isEmpty_iff.mp empty]
      exact .nothing
    · have inside : middle.pending ≠ [] := fun empty => more (List.isEmpty_iff.mpr empty)
      refine parses_bind (reads_declarationAt depth ready inside) fun _ last ready declares =>
        parses_pure ready fun program => whole ?_
      obtain ⟨used, derives, pending, known⟩ := declares
      rw [known] at program
      rw [pending]
      exact .declaration derives program
  unfold unit
  refine parses_bind (parses_settle ready False.elim) fun _ start ready same => ?_
  rw [same]
  exact parses_bind loop fun _ last ready program =>
    (parses_still ready).mono fun _ _ _ _ => program

end Units

end ScriptMachine.Compiler
