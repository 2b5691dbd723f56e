import ScriptMachine.Proofs.Compiler.Statements
import ScriptMachine.Proofs.Syntax.AcceptExpressions

set_option autoImplicit false
set_option synthInstance.maxSize 20000

/- Statements that the grammar derives. An `else` goes to the nearest `if` that can take it, whichever
`if` its rule belongs to, so a statement is followed together with the branches that may come behind
it. -/
namespace ScriptMachine.Compiler

open Syntax Syntax.Rule

section Simple

variable {grammar : Grammar} {known : Text → Prop} {tokens rest : List Token} {state : State}
  [operands : ∀ origin level, Keeps (Changes origin) (grammar.operand level)]

omit operands in
/-- An expression with a word behind it that ends it. -/
theorem accepts_closed (accepts : grammar.Accepts) {word : Token} {kind : TokenKind}
    (isWord : word.kind = kind) (closes : closesExpression kind = true) (ready : Ready state)
    (awaits : Awaits known (tokens ++ word :: rest) state)
    (derives : Derives known expression tokens) :
    Parses True grammar.expression state fun _ last => Awaits known (word :: rest) last :=
  accepts_expression accepts ready awaits derives (stops_cons (by rw [isWord]; exact closes))

/-- A variable declaration, behind `var`. -/
theorem accepts_varDeclaration (accepts : grammar.Accepts) (ready : Ready state)
    (awaits : Awaits known (tokens ++ rest) state)
    (derives : Derives known (.row [.word .identifier, optional (.row [.word .equal, expression]),
      .word .semicolon]) tokens) :
    Parses True grammar.varDeclaration state fun _ last => Awaits known rest last := by
  simp only [derives_row_cons, derives_row_nil, derives_word, derives_optional] at derives
  obtain ⟨_, _, rfl, ⟨name, rfl, isName⟩, value, _, rfl, derivesValue, _, _, rfl,
    ⟨semicolon, rfl, isSemicolon⟩, rfl⟩ := derives
  simp only [List.append_assoc, List.cons_append, List.nil_append, List.append_nil] at awaits
  unfold Grammar.varDeclaration
  dsimp only
  refine parses_bind (awaits_expect ready awaits isName) fun name first ready found =>
    parses_ran rfl ?_
  -- what stands behind the name, with the actions that follow the semicolon
  have rest : ∀ (actions : Shape → Compile Unit) (middle : State)
      [∀ value origin, Keeps (Changes origin) (actions value)]
      [∀ value origin, Keeps (Unmoved True origin) (actions value)], Ready middle →
      Awaits known (value ++ semicolon :: rest) middle → Parses True (do
        if ← accept .equal then
          let value ← grammar.expression
          let _ ← expect .semicolon "';' after variable declaration"
          actions value
        else
          emit .nil
          let _ ← expect .semicolon "';' after variable declaration"
          actions {}) middle fun _ last => Awaits known rest last := by
    intro actions middle _ _ ready awaits
    have ends : ∀ value later, Ready later → Awaits known (semicolon :: rest) later →
        Parses True (do
          let _ ← expect .semicolon "';' after variable declaration"
          actions value) later fun _ last => Awaits known rest last := by
      intro value later ready awaits
      refine parses_bind (awaits_expect ready awaits isSemicolon) fun _ second ready found => ?_
      exact awaits_pass ready found.2
    rcases derivesValue with rfl | ⟨_, _, rfl, ⟨equal, rfl, isEqual⟩, value, _, rfl, derives, rfl⟩
    · refine awaits_skip awaits (lacks_cons (by rw [isSemicolon]; decide)) ?_
      exact parses_bind (awaits_pass ready awaits) fun _ second ready awaits =>
        ends _ second ready awaits
    · rw [List.append_nil] at awaits
      refine awaits_take ready awaits isEqual fun second ready awaits => ?_
      exact parses_bind (accepts_closed accepts isSemicolon rfl ready awaits derives)
        fun _ third ready awaits => ends _ third ready awaits
  cases first.draft.atTopLevel with
  | true =>
    simp only [Bool.not_true, if_true, if_false, Bool.false_eq_true]
    exact rest _ first ready found.2
  | false =>
    simp only [Bool.not_false, if_true, if_false, Bool.false_eq_true]
    refine parses_bind (awaits_pass ready found.2) fun _ second ready awaits => ?_
    exact rest _ second ready awaits

omit operands in
/-- An expression begins with none of the words that other statements begin with. -/
theorem starts_evaluated (derives : Derives known (.row [expression, .word .semicolon]) tokens) :
    ∃ first rest, tokens = first :: rest ∧
      ∀ kind, (Opening.of? kind).isSome = false → first.kind ≠ kind := by
  rw [derives_row_cons] at derives
  obtain ⟨_, behind, rfl, value, -⟩ := derives
  obtain ⟨first, rest, rfl, isOpening, -⟩ := opens_operand value
  refine ⟨first, rest ++ behind, rfl, ?_⟩
  rintro _ none rfl
  rw [none] at isOpening
  cases isOpening

omit operands in
/-- An expression with a semicolon behind it, and what is done with its value. -/
theorem accepts_evaluated (accepts : grammar.Accepts) {what : String} {op : Opcode}
    (ready : Ready state) (awaits : Awaits known (tokens ++ rest) state)
    (derives : Derives known (.row [expression, .word .semicolon]) tokens) :
    Parses True (do
      let _ ← grammar.expression
      let _ ← expect .semicolon what
      emit op) state fun _ last => Awaits known rest last := by
  simp only [derives_row_cons, derives_row_nil, derives_word] at derives
  obtain ⟨value, _, rfl, derives, _, _, rfl, ⟨semicolon, rfl, isSemicolon⟩, rfl⟩ := derives
  simp only [List.append_assoc, List.cons_append, List.nil_append, List.append_nil] at awaits
  refine parses_bind (accepts_closed accepts isSemicolon rfl ready awaits derives)
    fun _ first ready awaits => ?_
  refine parses_bind (awaits_expect ready awaits isSemicolon) fun _ second ready found => ?_
  exact awaits_pass ready found.2

theorem accepts_returnStatement (accepts : grammar.Accepts) (ready : Ready state)
    (awaits : Awaits known (tokens ++ rest) state)
    (derives : Derives known (.row [optional expression, .word .semicolon]) tokens) :
    Parses True grammar.returnStatement state fun _ last => Awaits known rest last := by
  simp only [derives_row_cons, derives_row_nil, derives_word, derives_optional] at derives
  obtain ⟨value, _, rfl, derives, _, _, rfl, ⟨semicolon, rfl, isSemicolon⟩, rfl⟩ := derives
  simp only [List.append_assoc, List.cons_append, List.nil_append, List.append_nil] at awaits
  have rejects := changes_returnedStruct
  unfold Grammar.returnStatement
  dsimp only at rejects ⊢
  refine parses_ran rfl (parses_ran rfl ?_)
  refine parses_ite (fun _ => (parses_error ready fun _ => rfl).never) fun _ => ?_
  rcases derives with rfl | derives
  · refine awaits_take ready awaits isSemicolon fun first ready awaits => ?_
    exact awaits_pass ready awaits
  · obtain ⟨start, behind, rfl, isOpening, -⟩ := opens_operand derives
    refine awaits_skip awaits (lacks_cons fun same => by rw [same] at isOpening; cases isOpening) ?_
    refine parses_bind (accepts_closed accepts isSemicolon rfl ready awaits derives)
      fun value second ready awaits => ?_
    refine parses_ite (fun _ => ?_) fun _ => ?_
    · cases value.struct with
      | none => exact parses_ran rfl (parses_errorAt ready fun _ => rfl).never
      | some id =>
        exact parses_bind (parses_still ready) fun _ third ready _ =>
          (parses_errorAt ready fun _ => rfl).never
    · refine parses_bind (awaits_expect ready awaits isSemicolon) fun _ third ready found => ?_
      exact awaits_pass ready found.2

end Simple

section Jumping

variable {grammar : Grammar} {known : Text → Prop} {tokens rest : List Token} {state : State}
  {branches : List (List Token)}

theorem Leaves.rests {count : Nat} {later : State} (leaves : Leaves known count rest state)
    (rests : Rests state later) : Leaves known count rest later := by
  obtain ⟨branches, few, derive, awaits⟩ := leaves
  exact ⟨branches, few, derive, awaits.rests rests⟩

theorem Leaves.renests {count : Nat} {nesting : List (FunctionKind × Nat)} {later : State}
    (leaves : Leaves known count rest state) (renests : Renests nesting state later) :
    Leaves known count rest later := by
  obtain ⟨branches, few, derive, awaits⟩ := leaves
  exact ⟨branches, few, derive, awaits.renests renests⟩

theorem leaves_pass {α : Type} {count : Nat} {action : Compile α}
    [rests : Keeps (Unmoved True state) action] (ready : Ready state)
    (leaves : Leaves known count rest state) :
    Parses True action state fun _ last => Leaves known count rest last :=
  (parses_still ready).mono fun _ _ _ rests => leaves.rests rests

/-- Nothing has been taken of the branches. -/
theorem Awaits.leaves (awaits : Awaits known (branches.flatten ++ rest) state)
    (derive : ∀ branch ∈ branches, Derives known elseBranch branch) :
    Leaves known branches.length rest state :=
  ⟨branches, Nat.le_refl _, derive, awaits⟩

variable [operands : ∀ origin level, Keeps (Changes origin) (grammar.operand level)]
  [statements : ∀ origin, Keeps (Changes origin) grammar.statement]

omit operands in
/-- The `else` that may follow the first branch of an `if`. -/
theorem accepts_else (accepts : grammar.Accepts) {count : Nat} {ends : Compile Unit}
    [changes : ∀ origin, Keeps (Changes origin) ends]
    [rests : ∀ origin, Keeps (Unmoved True origin) ends] (ready : Ready state)
    (leaves : Leaves known (count + 1) rest state) (lacks : Lacks .elseWord rest) :
    Parses True (do
      if ← accept .elseWord then
        grammar.statement
        ends
      else ends) state fun _ last => Leaves known count rest last := by
  obtain ⟨branches, few, derive, awaits⟩ := leaves
  cases branches with
  | nil =>
    refine awaits_skip awaits lacks ?_
    have leaves : Leaves known count rest state :=
      ⟨[], Nat.zero_le _, fun _ member => (List.not_mem_nil member).elim, awaits⟩
    exact leaves_pass ready leaves
  | cons branch more =>
    have derives := derive branch List.mem_cons_self
    simp only [elseBranch, derives_row_cons, derives_row_nil, derives_word] at derives
    obtain ⟨_, _, rfl, ⟨keyword, rfl, isElse⟩, body, _, rfl, derives, rfl⟩ := derives
    simp only [List.flatten_cons, List.append_assoc, List.cons_append, List.nil_append,
      List.append_nil] at awaits
    refine awaits_take ready awaits isElse fun first ready awaits => ?_
    refine parses_bind (accepts.statement ready awaits derives
      (fun branch member => derive branch (List.mem_cons_of_mem _ member)) lacks)
      fun _ second ready leaves => ?_
    obtain ⟨left, fewer, derive, awaits⟩ := leaves
    have fewer : left.length ≤ count := Nat.le_trans fewer (Nat.le_of_succ_le_succ few)
    exact leaves_pass ready ⟨left, fewer, derive, awaits⟩

/-- An `if`, behind its keyword. Its own branch stands in front of those it may leave. -/
theorem accepts_ifStatement (accepts : grammar.Accepts) (ready : Ready state)
    (awaits : Awaits known (tokens ++ (branches.flatten ++ rest)) state)
    (derives : Derives known (.row [.word .leftParen, expression, .word .rightParen,
      .symbol .statement, optional (.row [.word .elseWord, .symbol .statement])]) tokens)
    (derive : ∀ branch ∈ branches, Derives known elseBranch branch) (lacks : Lacks .elseWord rest) :
    Parses True grammar.ifStatement state fun _ last => Leaves known branches.length rest last := by
  simp only [derives_row_cons, derives_row_nil, derives_word] at derives
  obtain ⟨_, _, rfl, ⟨left, rfl, isLeft⟩, condition, _, rfl, derivesCondition, _, _, rfl,
    ⟨right, rfl, isRight⟩, body, _, rfl, derivesBody, own, _, rfl, derivesOwn, rfl⟩ := derives
  simp only [List.append_assoc, List.cons_append, List.nil_append, List.append_nil] at awaits
  -- the branches that the first statement may take
  obtain ⟨all, few, deriveAll, same⟩ : ∃ all : List (List Token), all.length ≤ branches.length + 1 ∧
      (∀ branch ∈ all, Derives known elseBranch branch) ∧
      own ++ (branches.flatten ++ rest) = all.flatten ++ rest := by
    rcases derives_optional.mp derivesOwn with rfl | derivesOwn
    · exact ⟨branches, Nat.le_succ _, derive, rfl⟩
    · refine ⟨own :: branches, Nat.le_refl _, fun branch member => ?_, by simp⟩
      rcases List.mem_cons.mp member with rfl | member
      · exact derivesOwn
      · exact derive branch member
  rw [same] at awaits
  unfold Grammar.ifStatement
  dsimp only
  refine parses_bind (awaits_expect ready awaits isLeft) fun _ first ready found => ?_
  refine parses_bind (accepts_closed accepts isRight rfl ready found.2 derivesCondition)
    fun _ second ready awaits => ?_
  refine parses_bind (awaits_expect ready awaits isRight) fun _ third ready found => ?_
  refine parses_bind (awaits_pass ready found.2) fun toElse fourth ready awaits => ?_
  refine parses_bind (awaits_pass ready awaits) fun _ fifth ready awaits => ?_
  refine parses_bind (awaits_pass ready awaits) fun _ sixth ready awaits => ?_
  refine parses_bind (accepts.statement ready awaits derivesBody deriveAll lacks)
    fun _ seventh ready leaves => ?_
  refine parses_bind (leaves_pass ready leaves) fun toEnd eighth ready leaves => ?_
  refine parses_bind (leaves_pass ready leaves) fun _ ninth ready leaves => ?_
  refine parses_bind (leaves_pass ready leaves) fun _ tenth ready leaves => ?_
  obtain ⟨left, fewer, derive, awaits⟩ := leaves
  exact accepts_else accepts ready ⟨left, Nat.le_trans fewer few, derive, awaits⟩ lacks

theorem accepts_whileStatement (accepts : grammar.Accepts) (ready : Ready state)
    (awaits : Awaits known (tokens ++ (branches.flatten ++ rest)) state)
    (derives : Derives known (.row [.word .leftParen, expression, .word .rightParen,
      .symbol .statement]) tokens)
    (derive : ∀ branch ∈ branches, Derives known elseBranch branch) (lacks : Lacks .elseWord rest) :
    Parses True grammar.whileStatement state fun _ last =>
      Leaves known branches.length rest last := by
  simp only [derives_row_cons, derives_row_nil, derives_word] at derives
  obtain ⟨_, _, rfl, ⟨left, rfl, isLeft⟩, condition, _, rfl, derivesCondition, _, _, rfl,
    ⟨right, rfl, isRight⟩, body, _, rfl, derivesBody, rfl⟩ := derives
  simp only [List.append_assoc, List.cons_append, List.nil_append, List.append_nil] at awaits
  unfold Grammar.whileStatement
  refine parses_ran rfl ?_
  refine parses_bind (awaits_expect ready awaits isLeft) fun _ first ready found => ?_
  refine parses_bind (awaits_pass ready found.2) fun _ second ready awaits => ?_
  refine parses_bind (accepts_closed accepts isRight rfl ready awaits derivesCondition)
    fun _ third ready awaits => ?_
  refine parses_bind (awaits_expect ready awaits isRight) fun _ fourth ready found => ?_
  refine parses_bind (awaits_pass ready found.2) fun exit fifth ready awaits => ?_
  refine parses_bind (awaits_pass ready awaits) fun _ sixth ready awaits => ?_
  refine parses_bind (accepts.statement ready awaits derivesBody derive lacks)
    fun _ seventh ready leaves => ?_
  exact leaves_pass ready leaves

omit statements in
/-- The condition of a `for` loop, with the semicolon behind it. -/
theorem accepts_forCondition (accepts : grammar.Accepts) {semicolon : Token}
    (isSemicolon : semicolon.kind = .semicolon) (ready : Ready state)
    (awaits : Awaits known (tokens ++ semicolon :: rest) state)
    (derives : tokens = [] ∨ Derives known expression tokens) :
    Parses True grammar.forCondition state fun _ last => Awaits known rest last := by
  unfold Grammar.forCondition
  rcases derives with rfl | derives
  · exact awaits_take ready awaits isSemicolon fun first ready awaits => parses_pure ready awaits
  · obtain ⟨start, behind, rfl, isOpening, -⟩ := opens_operand derives
    refine awaits_skip awaits (lacks_cons fun same => by rw [same] at isOpening; cases isOpening) ?_
    refine parses_bind (accepts_closed accepts isSemicolon rfl ready awaits derives)
      fun _ second ready awaits => ?_
    refine parses_bind (awaits_expect ready awaits isSemicolon) fun _ third ready found => ?_
    exact awaits_pass ready found.2

omit statements in
/-- The increment of a `for` loop, with the parenthesis behind it. -/
theorem accepts_forIncrement (accepts : grammar.Accepts) (condition : Nat) {paren : Token}
    (isParen : paren.kind = .rightParen) (ready : Ready state)
    (awaits : Awaits known (tokens ++ paren :: rest) state)
    (derives : tokens = [] ∨ Derives known expression tokens) :
    Parses True (grammar.forIncrement condition) state fun _ last => Awaits known rest last := by
  unfold Grammar.forIncrement
  rcases derives with rfl | derives
  · exact awaits_take ready awaits isParen fun first ready awaits => parses_pure ready awaits
  · obtain ⟨start, behind, rfl, isOpening, -⟩ := opens_operand derives
    refine awaits_skip awaits (lacks_cons fun same => by rw [same] at isOpening; cases isOpening) ?_
    refine parses_bind (awaits_pass ready awaits) fun toBody second ready awaits => parses_ran rfl ?_
    refine parses_bind (accepts_closed accepts isParen rfl ready awaits derives)
      fun _ third ready awaits => ?_
    refine parses_bind (awaits_pass ready awaits) fun _ fourth ready awaits => ?_
    refine parses_bind (awaits_expect ready awaits isParen) fun _ fifth ready found => ?_
    exact awaits_pass ready found.2

/-- A `for` loop behind its first clause. -/
theorem accepts_forLoop (accepts : grammar.Accepts) {condition increment body : List Token}
    {semicolon right : Token} (isSemicolon : semicolon.kind = .semicolon)
    (isRight : right.kind = .rightParen) (ready : Ready state)
    (awaits : Awaits known (condition ++ semicolon :: (increment ++
      right :: (body ++ (branches.flatten ++ rest)))) state)
    (derivesCondition : Derives known (optional expression) condition)
    (derivesIncrement : Derives known (optional expression) increment)
    (derivesBody : Derives known (.symbol .statement) body)
    (derive : ∀ branch ∈ branches, Derives known elseBranch branch) (lacks : Lacks .elseWord rest) :
    Parses True (do
      beginBranch
      let condition ← position
      let exit ← grammar.forCondition
      let again ← grammar.forIncrement condition
      grammar.statement
      emitLoop again
      endBranch
      match exit with
      | some exit =>
        patchJump exit
        emit .pop
        endScope
      | none => endScope) state fun _ last => Leaves known branches.length rest last := by
  have keeps := changes_leaveLoop
  refine parses_bind (awaits_pass ready awaits) fun _ first ready awaits => parses_ran rfl ?_
  refine parses_bind (accepts_forCondition accepts isSemicolon ready awaits
    (derives_optional.mp derivesCondition)) fun exit second ready awaits => ?_
  refine parses_bind (accepts_forIncrement accepts _ isRight ready awaits
    (derives_optional.mp derivesIncrement)) fun again third ready awaits => ?_
  refine parses_bind (accepts.statement ready awaits derivesBody derive lacks)
    fun _ fourth ready leaves => ?_
  refine parses_bind (leaves_pass ready leaves) fun _ fifth ready leaves => ?_
  refine parses_bind (leaves_pass ready leaves) fun _ sixth ready leaves => ?_
  have quits : ∀ later, Ready later → Leaves known branches.length rest later →
      Parses True endScope later fun _ last => Leaves known branches.length rest last :=
    fun later ready leaves => (parses_endScope ready).mono fun _ _ _ closes => leaves.renests closes
  cases exit with
  | none => exact quits sixth ready leaves
  | some exit =>
    refine parses_bind (leaves_pass ready leaves) fun _ seventh ready leaves => ?_
    exact parses_bind (leaves_pass ready leaves) fun _ eighth ready leaves =>
      quits eighth ready leaves

theorem accepts_forStatement (accepts : grammar.Accepts) (ready : Ready state)
    (awaits : Awaits known (tokens ++ (branches.flatten ++ rest)) state)
    (derives : Derives known (.row [.word .leftParen,
      .oneOf [.symbol .varDecl, .symbol .exprStmt, .word .semicolon], optional expression,
      .word .semicolon, optional expression, .word .rightParen, .symbol .statement]) tokens)
    (derive : ∀ branch ∈ branches, Derives known elseBranch branch) (lacks : Lacks .elseWord rest) :
    Parses True grammar.forStatement state fun _ last => Leaves known branches.length rest last := by
  simp only [derives_row_cons, derives_row_nil, derives_word] at derives
  obtain ⟨_, _, rfl, ⟨left, rfl, isLeft⟩, start, _, rfl, derivesStart, condition, _, rfl,
    derivesCondition, _, _, rfl, ⟨semicolon, rfl, isSemicolon⟩, increment, _, rfl, derivesIncrement,
    _, _, rfl, ⟨right, rfl, isRight⟩, body, _, rfl, derivesBody, rfl⟩ := derives
  simp only [List.append_assoc, List.cons_append, List.nil_append, List.append_nil] at awaits
  have keeps := changes_leaveLoop
  unfold Grammar.forStatement
  dsimp only
  refine parses_bind (parses_beginScope ready rfl) fun _ inner ready opens => ?_
  have loops : ∀ middle, Ready middle → Awaits known (condition ++ semicolon :: (increment ++
      right :: (body ++ (branches.flatten ++ rest)))) middle → _ := fun middle ready awaits =>
    accepts_forLoop accepts isSemicolon isRight ready awaits derivesCondition derivesIncrement
      derivesBody derive lacks
  refine parses_bind (awaits_expect ready (awaits.renests opens) isLeft) fun _ first ready found => ?_
  have awaits := found.2
  simp only [derives_oneOf, List.mem_cons, List.not_mem_nil, or_false, exists_eq_or_imp,
    exists_eq_left] at derivesStart
  rcases derivesStart with declares | evaluates | bare
  · obtain ⟨keyword, declared, rfl, isVar, declares⟩ := derives_keyword declares rfl
    refine awaits_skip awaits (lacks_cons (by rw [isVar]; decide)) ?_
    refine awaits_take ready awaits isVar fun second ready awaits => ?_
    exact parses_bind (accepts_varDeclaration accepts ready awaits declares)
      fun _ third ready awaits => loops third ready awaits
  · have evaluates := derives_symbol.mp evaluates
    obtain ⟨token, more, rfl, other⟩ := starts_evaluated evaluates
    refine awaits_skip awaits (lacks_cons (other _ rfl)) ?_
    refine awaits_skip awaits (lacks_cons (other _ rfl)) ?_
    exact parses_bind (accepts_evaluated accepts ready awaits evaluates)
      fun _ third ready awaits => loops third ready awaits
  · obtain ⟨semicolon, rfl, isSemicolon⟩ := derives_word.mp bare
    exact awaits_take ready awaits isSemicolon fun second ready awaits => loops second ready awaits

variable [declarations : ∀ origin, Keeps (Changes origin) grammar.declaration]

theorem accepts_parseStatement (accepts : grammar.Accepts) (ready : Ready state)
    (awaits : Awaits known (tokens ++ (branches.flatten ++ rest)) state)
    (derives : Derives known (.symbol .statement) tokens)
    (derive : ∀ branch ∈ branches, Derives known elseBranch branch) (lacks : Lacks .elseWord rest) :
    Parses True grammar.parseStatement state fun _ last =>
      Leaves known branches.length rest last := by
  have simple : ∀ {action : Compile Unit} {middle : State},
      (Parses True action middle fun _ last => Awaits known (branches.flatten ++ rest) last) →
      Parses True action middle fun _ last => Leaves known branches.length rest last :=
    fun parses => parses.mono fun _ _ _ awaits => awaits.leaves derive
  rw [derives_symbol] at derives
  simp only [production, derives_oneOf, List.mem_cons, List.not_mem_nil, or_false,
    exists_eq_or_imp, exists_eq_left] at derives
  unfold Grammar.parseStatement
  rcases derives with prints | tests | repeats | loops | returns | block | evaluates
  · obtain ⟨token, behind, rfl, isKind, derives⟩ := derives_keyword prints rfl
    exact awaits_take ready awaits isKind fun next ready awaits =>
      simple (accepts_evaluated accepts ready awaits derives)
  · obtain ⟨token, behind, rfl, isKind, derives⟩ := derives_keyword tests rfl
    refine awaits_skip awaits (lacks_cons (by rw [isKind]; decide)) ?_
    exact awaits_take ready awaits isKind fun next ready awaits =>
      accepts_ifStatement accepts ready awaits derives derive lacks
  · obtain ⟨token, behind, rfl, isKind, derives⟩ := derives_keyword repeats rfl
    iterate 2 refine awaits_skip awaits (lacks_cons (by rw [isKind]; decide)) ?_
    exact awaits_take ready awaits isKind fun next ready awaits =>
      accepts_whileStatement accepts ready awaits derives derive lacks
  · obtain ⟨token, behind, rfl, isKind, derives⟩ := derives_keyword loops rfl
    iterate 3 refine awaits_skip awaits (lacks_cons (by rw [isKind]; decide)) ?_
    exact awaits_take ready awaits isKind fun next ready awaits =>
      accepts_forStatement accepts ready awaits derives derive lacks
  · obtain ⟨token, behind, rfl, isKind, derives⟩ := derives_keyword returns rfl
    iterate 4 refine awaits_skip awaits (lacks_cons (by rw [isKind]; decide)) ?_
    exact awaits_take ready awaits isKind fun next ready awaits =>
      simple (accepts_returnStatement accepts ready awaits derives)
  · obtain ⟨token, behind, rfl, isKind, derives⟩ := derives_keyword block rfl
    iterate 5 refine awaits_skip awaits (lacks_cons (by rw [isKind]; decide)) ?_
    simp only [derives_row_cons, derives_row_nil, derives_word] at derives
    obtain ⟨inside, _, rfl, derives, _, _, rfl, ⟨brace, rfl, isBrace⟩, rfl⟩ := derives
    simp only [List.append_assoc, List.cons_append, List.nil_append, List.append_nil] at awaits
    refine awaits_take ready awaits isKind fun next ready awaits => simple ?_
    refine parses_bind (parses_beginScope ready rfl) fun _ inner ready opens => ?_
    refine parses_bind (accepts_block accepts isBrace ready (awaits.renests opens) derives)
      fun _ middle ready awaits => ?_
    exact (parses_endScope ready).mono fun _ _ _ closes => awaits.renests closes
  · have evaluates := derives_symbol.mp evaluates
    obtain ⟨token, more, rfl, other⟩ := starts_evaluated evaluates
    iterate 6 refine awaits_skip awaits (lacks_cons (other _ rfl)) ?_
    exact simple (accepts_evaluated accepts ready awaits evaluates)

end Jumping

end ScriptMachine.Compiler
