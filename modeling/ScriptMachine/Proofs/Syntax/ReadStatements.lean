import ScriptMachine.Proofs.Compiler.Statements
import ScriptMachine.Proofs.Syntax.ReadExpressions

set_option autoImplicit false
set_option synthInstance.maxSize 20000

/- Statements and declarations that have been read without a complaint. -/
namespace ScriptMachine.Compiler

open Syntax Syntax.Rule

section Simple

variable {grammar : Grammar} {origin state : State}
  [operands : ∀ origin level, Keeps (Changes origin) (grammar.operand level)]

/-- A variable declaration, behind `var`. -/
theorem reads_varDeclaration (recognises : grammar.Recognises) (ready : Ready state)
    (front : Reads (.row [.word .varWord]) origin state) :
    Parses False grammar.varDeclaration state fun _ last =>
      Reads (.symbol .varDecl) origin last := by
  unfold Grammar.varDeclaration
  dsimp only
  refine parses_bind (parses_word ready front) fun name first ready front => parses_ran rfl ?_
  -- what stands behind the name, with the actions that follow the semicolon
  have rest : ∀ (actions : Shape → Compile Unit) (middle : State)
      [∀ value origin, Keeps (Changes origin) (actions value)]
      [∀ value origin, Keeps (Unmoved False origin) (actions value)], Ready middle →
      Reads (.row [.word .varWord, .word .identifier]) origin middle → Parses False (do
        if ← accept .equal then
          let value ← grammar.expression
          let _ ← expect .semicolon "';' after variable declaration"
          actions value
        else
          emit .nil
          let _ ← expect .semicolon "';' after variable declaration"
          actions {}) middle fun _ last => Reads (.symbol .varDecl) origin last := by
    intro actions middle _ _ ready front
    have ends : ∀ value later, Ready later → Reads (.row [.word .varWord, .word .identifier,
        optional (.row [.word .equal, expression])]) origin later → Parses False (do
          let _ ← expect .semicolon "';' after variable declaration"
          actions value) later fun _ last => Reads (.symbol .varDecl) origin last := by
      intro value later ready front
      refine parses_bind (parses_word ready front) fun _ second ready whole => ?_
      exact (parses_pass ready whole).mono fun _ last _ whole => whole.named .varDecl rfl
    refine parses_bind (reads_accept ready) fun assigns second ready equal => ?_
    cases assigns with
    | true =>
      have sign := (Reads.nothing middle).then equal
      refine parses_bind (parses_expression recognises ready sign rfl rfl)
        fun value third ready value => ?_
      exact ends _ third ready (front.then value.present)
    | false =>
      obtain ⟨rfl, -⟩ := equal
      have front := front.then (.absent (.row [.word .equal, expression]) second)
      exact parses_bind (parses_pass ready front) fun _ third ready front => ends _ third ready front
  cases first.draft.atTopLevel with
  | true =>
    simp only [Bool.not_true, if_true, if_false, Bool.false_eq_true]
    exact rest _ first ready front
  | false =>
    simp only [Bool.not_false, if_true, if_false, Bool.false_eq_true]
    refine parses_bind (parses_pass ready front) fun _ second ready front => ?_
    exact rest _ second ready front

omit operands in
theorem reads_expressionStatement (recognises : grammar.Recognises) (ready : Ready state)
    (expecting : Expecting state) : Parses False grammar.expressionStatement state fun _ last =>
      Reads (.symbol .exprStmt) state last := by
  unfold Grammar.expressionStatement
  refine parses_bind (reads_expression recognises ready expecting) fun _ first ready reads => ?_
  refine parses_bind (parses_word ready ((Reads.nothing state).then reads))
    fun _ second ready whole => ?_
  exact (parses_pass ready whole).mono fun _ last _ whole => whole.named .exprStmt rfl

omit operands in
theorem reads_printStatement (recognises : grammar.Recognises) (ready : Ready state)
    (front : Reads (.row [.word .printWord]) origin state) :
    Parses False grammar.printStatement state fun _ last =>
      Reads (.symbol .printStmt) origin last := by
  unfold Grammar.printStatement
  refine parses_bind (parses_expression recognises ready front rfl rfl)
    fun _ first ready front => ?_
  refine parses_bind (parses_word ready front) fun _ second ready whole => ?_
  exact (parses_pass ready whole).mono fun _ last _ whole => whole.named .printStmt rfl

theorem reads_returnStatement (recognises : grammar.Recognises) (ready : Ready state)
    (front : Reads (.row [.word .returnWord]) origin state) :
    Parses False grammar.returnStatement state fun _ last =>
      Reads (.symbol .returnStmt) origin last := by
  have rejects := changes_returnedStruct
  unfold Grammar.returnStatement
  dsimp only at rejects ⊢
  refine parses_ran rfl (parses_ran rfl ?_)
  refine parses_ite (fun _ => (parses_error ready False.elim).never) fun _ => ?_
  refine parses_bind (reads_accept ready) fun bare first ready semicolon => ?_
  cases bare with
  | true =>
    have whole := (front.then (.absent expression state)).then semicolon
    rw [if_pos rfl]
    exact (parses_pass ready whole).mono fun _ last _ whole => whole.named .returnStmt rfl
  | false =>
    obtain ⟨rfl, -⟩ := semicolon
    rw [if_neg Bool.false_ne_true]
    refine parses_bind (reads_expression recognises ready (front.expecting rfl rfl))
      fun value second ready reads => ?_
    refine parses_ite (fun _ => ?_) fun _ => ?_
    · cases value.struct with
      | none => exact parses_ran rfl (parses_errorAt ready False.elim).never
      | some id =>
        exact parses_bind (parses_still ready) fun _ third ready _ =>
          (parses_errorAt ready False.elim).never
    · refine parses_bind (parses_word ready (front.then reads.present)) fun _ third ready whole => ?_
      exact (parses_pass ready whole).mono fun _ last _ whole => whole.named .returnStmt rfl

end Simple

section Jumping

variable {grammar : Grammar} {origin state : State}
  [operands : ∀ origin level, Keeps (Changes origin) (grammar.operand level)]
  [statements : ∀ origin, Keeps (Changes origin) grammar.statement]

theorem reads_ifStatement (recognises : grammar.Recognises) (ready : Ready state)
    (front : Reads (.row [.word .ifWord]) origin state) :
    Parses False grammar.ifStatement state fun _ last => Reads (.symbol .ifStmt) origin last := by
  unfold Grammar.ifStatement
  dsimp only
  refine parses_bind (parses_word ready front) fun _ first ready front => ?_
  refine parses_bind (parses_expression recognises ready front rfl rfl) fun _ second ready front => ?_
  refine parses_bind (parses_word ready front) fun _ third ready front => ?_
  refine parses_bind (parses_pass ready front) fun toElse fourth ready front => ?_
  refine parses_bind (parses_pass ready front) fun _ fifth ready front => ?_
  refine parses_bind (parses_pass ready front) fun _ sixth ready front => ?_
  refine parses_bind (.behind front (recognises.statement ready (front.expecting rfl rfl)))
    fun _ seventh ready front => ?_
  refine parses_bind (parses_pass ready front) fun toEnd eighth ready front => ?_
  refine parses_bind (parses_pass ready front) fun _ ninth ready front => ?_
  refine parses_bind (parses_pass ready front) fun _ tenth ready front => ?_
  refine parses_bind (reads_accept ready) fun otherwise next ready keyword => ?_
  cases otherwise with
  | true =>
    have word := (Reads.nothing tenth).then keyword
    refine parses_bind (.behind word (recognises.statement ready (word.expecting rfl rfl)))
      fun _ last ready branch => ?_
    exact (parses_pass ready (front.then branch.present)).mono fun _ last _ whole =>
      whole.named .ifStmt rfl
  | false =>
    obtain ⟨rfl, -⟩ := keyword
    have whole := front.then (.absent (.row [.word .elseWord, .symbol .statement]) next)
    rw [if_neg Bool.false_ne_true]
    exact (parses_pass ready whole).mono fun _ last _ whole => whole.named .ifStmt rfl

theorem reads_whileStatement (recognises : grammar.Recognises) (ready : Ready state)
    (front : Reads (.row [.word .whileWord]) origin state) :
    Parses False grammar.whileStatement state fun _ last =>
      Reads (.symbol .whileStmt) origin last := by
  unfold Grammar.whileStatement
  refine parses_ran rfl ?_
  refine parses_bind (parses_word ready front) fun _ first ready front => ?_
  refine parses_bind (parses_pass ready front) fun _ second ready front => ?_
  refine parses_bind (parses_expression recognises ready front rfl rfl) fun _ third ready front => ?_
  refine parses_bind (parses_word ready front) fun _ fourth ready front => ?_
  refine parses_bind (parses_pass ready front) fun exit fifth ready front => ?_
  refine parses_bind (parses_pass ready front) fun _ sixth ready front => ?_
  refine parses_bind (.behind front (recognises.statement ready (front.expecting rfl rfl)))
    fun _ seventh ready whole => ?_
  exact (parses_pass ready whole).mono fun _ last _ whole => whole.named .whileStmt rfl

omit statements in
/-- The condition of a `for` loop, with the semicolon behind it. -/
theorem reads_forCondition (recognises : grammar.Recognises) (ready : Ready state)
    (expecting : Expecting state) : Parses False grammar.forCondition state fun _ last =>
      Reads (.row [optional expression, .word .semicolon]) state last := by
  unfold Grammar.forCondition
  refine parses_bind (reads_accept ready) fun bare first ready semicolon => ?_
  cases bare with
  | true => exact parses_pure ready (((Reads.nothing state).then (.absent _ state)).then semicolon)
  | false =>
    obtain ⟨rfl, -⟩ := semicolon
    rw [if_neg Bool.false_ne_true]
    refine parses_bind (reads_expression recognises ready expecting) fun _ second ready reads => ?_
    have front := (Reads.nothing first).then reads.present
    refine parses_bind (parses_word ready front) fun _ third ready whole => ?_
    exact parses_pass ready whole

omit statements in
/-- The increment of a `for` loop, with the parenthesis behind it. -/
theorem reads_forIncrement (recognises : grammar.Recognises) (condition : Nat) (ready : Ready state)
    (expecting : Expecting state) :
    Parses False (grammar.forIncrement condition) state fun _ last =>
      Reads (.row [optional expression, .word .rightParen]) state last := by
  unfold Grammar.forIncrement
  refine parses_bind (reads_accept ready) fun bare first ready paren => ?_
  cases bare with
  | true => exact parses_pure ready (((Reads.nothing state).then (.absent _ state)).then paren)
  | false =>
    obtain ⟨rfl, -⟩ := paren
    rw [if_neg Bool.false_ne_true]
    refine parses_bind (parses_still ready) fun toBody second ready rests => parses_ran rfl ?_
    have expecting : Expecting second := by
      rwa [Expecting, rests.pending, rests.cursor]
    refine parses_bind (reads_expression recognises ready expecting) fun _ third ready reads => ?_
    have front := (Reads.nothing first).then (reads.after rests).present
    refine parses_bind (parses_pass ready front) fun _ fourth ready front => ?_
    refine parses_bind (parses_word ready front) fun _ fifth ready whole => ?_
    exact parses_pass ready whole

/-- A `for` loop behind its first clause. -/
theorem reads_forLoop (recognises : grammar.Recognises) {outer inner : State}
    {kind : FunctionKind} {depth : Nat} {around : List (FunctionKind × Nat)}
    (front : Reads (.row [.word .forWord]) origin outer)
    (here : outer.nesting = (kind, depth) :: around)
    (opens : Renests ((kind, depth + 1) :: around) outer inner)
    (ready : Ready state) (expecting : Expecting state) (clauses : Reads (.row [.word .leftParen,
      .oneOf [.symbol .varDecl, .symbol .exprStmt, .word .semicolon]]) inner state) :
    Parses False (do
      beginBranch
      let condition ← position
      let exit ← grammar.forCondition
      let again ← grammar.forIncrement condition
      grammar.statement
      emitLoop again
      endBranch
      match exit with
      | some exit =>
        patchJump exit
        emit .pop
        endScope
      | none => endScope) state fun _ last => Reads (.symbol .forStmt) origin last := by
  have keeps := changes_leaveLoop
  refine parses_bind (parses_still ready) fun _ first ready rests => parses_ran rfl ?_
  have expecting : Expecting first := by
    rwa [Expecting, rests.pending, rests.cursor]
  have clauses := clauses.rests rests
  refine parses_bind (reads_forCondition recognises ready expecting)
    fun exit second ready condition => ?_
  have clauses := clauses.append condition
  refine parses_bind (reads_forIncrement recognises _ ready (condition.expecting rfl rfl))
    fun again third ready increment => ?_
  have clauses := clauses.append increment
  refine parses_bind (.behind clauses (recognises.statement ready (increment.expecting rfl rfl)))
    fun _ fourth ready loop => ?_
  refine parses_bind (parses_pass ready loop) fun _ fifth ready loop => ?_
  refine parses_bind (parses_pass ready loop) fun _ sixth ready loop => ?_
  have leaves : ∀ later, Ready later → Reads (.row [.word .leftParen,
        .oneOf [.symbol .varDecl, .symbol .exprStmt, .word .semicolon], optional expression,
        .word .semicolon, optional expression, .word .rightParen, .symbol .statement]) inner later →
      Parses False endScope later fun _ last => Reads (.symbol .forStmt) origin last := by
    intro later ready loop
    refine (parses_leaveScope ready (loop.stays.nesting.trans opens.nesting)).mono
      fun _ last _ closes => ?_
    rw [← here] at closes
    exact (front.append (loop.within opens closes)).named .forStmt rfl
  cases exit with
  | none => exact leaves sixth ready loop
  | some exit =>
    refine parses_bind (parses_pass ready loop) fun _ seventh ready loop => ?_
    exact parses_bind (parses_pass ready loop) fun _ eighth ready loop => leaves eighth ready loop

theorem reads_forStatement (recognises : grammar.Recognises) (ready : Ready state)
    (front : Reads (.row [.word .forWord]) origin state) :
    Parses False grammar.forStatement state fun _ last => Reads (.symbol .forStmt) origin last := by
  have leaves := changes_leaveLoop
  unfold Grammar.forStatement
  dsimp only
  refine parses_bind (parses_beginScope ready rfl) fun _ inner ready opens => ?_
  have loops : ∀ middle, Ready middle → Expecting middle → Reads (.row [.word .leftParen,
      .oneOf [.symbol .varDecl, .symbol .exprStmt, .word .semicolon]]) inner middle → _ :=
    fun middle ready expecting clauses =>
      reads_forLoop recognises front rfl opens ready expecting clauses
  refine parses_bind (parses_word ready (Reads.nothing inner)) fun _ first ready paren => ?_
  refine parses_bind (reads_accept ready) fun bare second ready semicolon => ?_
  cases bare with
  | true =>
    rw [if_pos rfl]
    exact loops second ready (((Reads.nothing first).then semicolon).expecting rfl rfl)
      (paren.then (semicolon.oneOf (by simp)))
  | false =>
    obtain ⟨rfl, -⟩ := semicolon
    rw [if_neg Bool.false_ne_true]
    refine parses_bind (reads_accept ready) fun declares third ready keyword => ?_
    cases declares with
    | true =>
      refine parses_bind (reads_varDeclaration recognises ready
        ((Reads.nothing second).then keyword)) fun _ fourth ready declared => ?_
      exact loops fourth ready (declared.meaning.expecting rfl rfl)
        (paren.then (declared.oneOf (by simp)))
    | false =>
      obtain ⟨rfl, -⟩ := keyword
      refine parses_bind (reads_expressionStatement recognises ready (paren.expecting rfl rfl))
        fun _ fourth ready evaluated => ?_
      exact loops fourth ready (evaluated.meaning.expecting rfl rfl)
        (paren.then (evaluated.oneOf (by simp)))

variable [declarations : ∀ origin, Keeps (Changes origin) grammar.declaration]

theorem reads_parseStatement (recognises : grammar.Recognises) (ready : Ready state)
    (expecting : Expecting state) :
    Parses False grammar.parseStatement state fun _ last => Reads (.symbol .statement) state last := by
  -- each kind of statement stands behind a keyword, and the next one is tried if that is not there
  have behind : ∀ {kind : TokenKind} (symbol : Symbol) {rules : List Rule} {yes no : Compile Unit}
      [∀ origin, Keeps (Changes origin) yes] [∀ origin, Keeps (Changes origin) no],
      production .statement = .oneOf rules → Rule.symbol symbol ∈ rules →
      (∀ next, Ready next → Reads (.row [.word kind]) state next →
        Parses False yes next fun _ last => Reads (.symbol symbol) state last) →
      (Parses False no state fun _ last => Reads (.symbol .statement) state last) →
      Parses False (do if ← accept kind then yes else no) state fun _ last =>
        Reads (.symbol .statement) state last := by
    intro kind symbol rules yes no _ _ means member found missing
    refine parses_bind (reads_accept ready) fun there next ready keyword => ?_
    cases there with
    | true =>
      exact (found next ready ((Reads.nothing state).then keyword)).mono
        fun _ _ _ reads => reads.alternative .statement means member
    | false =>
      obtain ⟨rfl, -⟩ := keyword
      exact missing
  unfold Grammar.parseStatement
  refine behind .printStmt rfl (by simp) (fun _ => reads_printStatement recognises) ?_
  refine behind .ifStmt rfl (by simp) (fun _ => reads_ifStatement recognises) ?_
  refine behind .whileStmt rfl (by simp) (fun _ => reads_whileStatement recognises) ?_
  refine behind .forStmt rfl (by simp) (fun _ => reads_forStatement recognises) ?_
  refine behind .returnStmt rfl (by simp) (fun _ => reads_returnStatement recognises) ?_
  refine behind .block rfl (by simp) (fun next ready brace => ?_) ?_
  · refine parses_bind (parses_beginScope ready rfl) fun _ inner ready opens => ?_
    have nested : inner.draft.atTopLevel = false := by
      rw [atTopLevel_of_nesting opens.nesting]
      simp
    refine parses_bind (reads_block recognises ready nested) fun _ middle ready block => ?_
    refine (parses_leaveScope ready (block.stays.nesting.trans opens.nesting)).mono
      fun _ last _ closes => ?_
    exact (brace.append (block.within opens closes)).named .block rfl
  · exact (reads_expressionStatement recognises ready expecting).mono fun _ _ _ reads =>
      reads.alternative .statement rfl (by simp)

end Jumping

end ScriptMachine.Compiler
