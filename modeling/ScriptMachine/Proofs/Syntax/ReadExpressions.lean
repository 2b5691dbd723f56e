import ScriptMachine.Proofs.Syntax.Readings

set_option autoImplicit false
set_option synthInstance.maxSize 20000

/- Expressions that have been read without a complaint. An operand ends before the first operator
that binds more loosely than asked for, so operators end up on the level where their rule is. -/
namespace ScriptMachine.Compiler

open Syntax Syntax.Rule

section Primaries

variable {grammar : Grammar} {origin state : State}
  [operands : ∀ origin level, Keeps (Changes origin) (grammar.operand level)]
  [declarations : ∀ origin, Keeps (Changes origin) grammar.declaration]

omit declarations in
/-- The arguments of a call, behind its opening parenthesis. -/
theorem reads_arguments (recognises : grammar.Recognises) (ready : Ready state)
    (front : Reads (.row [.word .leftParen]) origin state) :
    Parses False grammar.arguments state fun _ last => Reads suffix origin last := by
  have ends : ∀ (count : Nat) middle, Ready middle →
      Reads (.row [.word .leftParen, optional (.symbol .args)]) origin middle → Parses False (do
        let _ ← expect .rightParen "')' after arguments"
        return min count maxArguments) middle fun _ last => Reads suffix origin last := by
    intro count middle ready front
    refine parses_bind (parses_word ready front) fun _ last ready whole => parses_pure ready ?_
    exact whole.oneOf List.mem_cons_self
  unfold Grammar.arguments
  dsimp only
  refine parses_ran check_eq (parses_ite (fun _ => ?_) fun _ =>
    ends 0 state ready (front.then (.absent _ state)))
  refine parses_bind (reads_commaList expression (fun count middle ready expecting => ?_)
    grammar.bound 0 ready (front.expecting rfl rfl)) fun count last ready reads =>
      ends count last ready (front.then (reads.named .args rfl).present)
  refine parses_bind (reads_expression recognises ready expecting) fun _ first ready reads => ?_
  refine parses_ite (fun _ => (parses_error ready False.elim).never) fun _ => ?_
  exact reads_comma ready reads

omit declarations in
/-- The value of a field in a struct literal, behind the name of the field. -/
theorem reads_fieldValue (recognises : grammar.Recognises) (onHeap : Bool) (layout : List Nat)
    (slot : Option Nat) (ready : Ready state) (front : Reads (.row [.word .identifier]) origin state) :
    Parses False (do
      let _ ← expect .equal "'=' after field name"
      let value ← grammar.expression
      if onHeap && value.placement.mayBeStack then
        emit .promote
      match slot with
      | some slot => return if layout.contains slot then layout else slot :: layout
      | none => return layout) state fun _ last => Reads (.symbol .initialiser) origin last := by
  cases slot <;> dsimp only
  all_goals
    refine parses_bind (parses_word ready front) fun _ second ready front => ?_
    refine parses_bind (parses_expression recognises ready front rfl rfl)
      fun value third ready whole => ?_
    have whole := whole.named .initialiser rfl
    refine parses_ite (fun _ => ?_) fun _ => parses_pure ready whole
    exact parses_bind (parses_pass ready whole) fun _ last ready whole => parses_pure ready whole

omit declarations in
theorem reads_initialiser (recognises : grammar.Recognises) (type : StructType) (onHeap : Bool)
    (layout : List Nat) (ready : Ready state) :
    Parses False (grammar.initialiser type onHeap layout) state fun _ last =>
      Reads (.symbol .initialiser) state last := by
  unfold Grammar.initialiser
  refine parses_andThen (fun field origin => ?_) (parses_word ready (Reads.nothing state))
    fun field first ready front => ?_
  · dsimp only
    cases type.findField field.text <;> infer_instance
  dsimp only
  cases found : type.findField field.text with
  | none => exact (parses_errorAt ready False.elim).never
  | some slot =>
    refine parses_ite (fun _ => (parses_errorAt ready False.elim).never) fun _ => ?_
    exact reads_fieldValue recognises onHeap layout (some slot) ready front

omit declarations in
/-- A struct literal, behind the name of its type. -/
theorem reads_structLiteral (recognises : grammar.Recognises) (id : StructId) (onHeap : Bool)
    (ready : Ready state) (front : Reads (.row [.structName]) origin state) :
    Parses False (grammar.structLiteral id onHeap) state fun _ last =>
      Reads (.symbol .structLiteral) origin last := by
  have lays : ∀ origin (slots : List Nat), Keeps (Changes origin)
      (modifyBody fun body => { body with layouts := body.layouts.push slots }) :=
    fun _ _ => keeps_body fun _ => ⟨rfl, rfl⟩
  have ends : ∀ (layout : List Nat) middle, Ready middle →
      Reads (.row [.structName, .word .leftBrace, braceList (.symbol .initialiser)]) origin middle →
      Parses False (do
        let _ ← expect .rightBrace "'\x7d' after struct literal fields"
        let index := (← draft).body.layouts.size
        modifyBody fun body => { body with layouts := body.layouts.push layout.reverse }
        emitWith (if onHeap then .heapStruct else .stackStruct) id index
        return ({
          placement := if onHeap then .heap else .stack
          fresh := !onHeap
          holdsLiteral := !onHeap
          struct := some id } : Shape)) middle fun _ last =>
            Reads (.symbol .structLiteral) origin last := by
    intro layout middle ready front
    refine parses_bind (parses_word ready front) fun _ first ready whole => parses_ran rfl ?_
    refine parses_bind (parses_pass ready whole) fun _ second ready whole => ?_
    refine parses_bind (parses_pass ready whole) fun _ last ready whole => parses_pure ready ?_
    exact whole.named .structLiteral rfl
  unfold Grammar.structLiteral
  dsimp only
  refine parses_ran rfl ?_
  refine parses_bind (parses_word ready front) fun _ first ready front => ?_
  refine parses_ran check_eq (parses_ite (fun _ => ?_) fun _ =>
    ends [] first ready (front.then (.absent _ first)))
  refine parses_bind (reads_braceList (.symbol .initialiser) (fun layout middle ready => ?_)
    grammar.bound [] ready) fun layout last ready reads => ends layout last ready (front.then reads)
  refine parses_ran check_eq (parses_ite (fun _ => parses_pure ready (Or.inr rfl)) fun _ => ?_)
  refine parses_bind (reads_initialiser recognises _ onHeap layout ready)
    fun layout second ready reads => ?_
  refine (reads_comma ready reads).mono fun result last _ reads => ?_
  split at reads
  · next more => rwa [if_pos more]
  · next stops =>
    rw [if_neg stops]
    exact Or.inl reads

/-- Behind the name of a variable or property: nothing, or an assignment where that may stand. -/
def Assigns (canAssign : Bool) (before after : State) : Prop :=
  Reads (.row []) before after ∨ canAssign = true ∧
    Reads (.row [.word .equal, .symbol (.operand .assignment)]) before after ∧
    Ended .assignment after

omit operands declarations in
theorem Assigns.rests {canAssign : Bool} {later : State} (assigns : Assigns canAssign origin state)
    (rests : Rests state later) : Assigns canAssign origin later := by
  refine assigns.imp (·.rests rests) fun ⟨may, reads, ended⟩ => ⟨may, reads.rests rests, ?_⟩
  rwa [Ended, rests.pending]

omit operands declarations in
/-- An action that reads nothing, behind a variable. -/
theorem parses_assigned {α : Type} {canAssign : Bool} {action : Compile α}
    [rests : Keeps (Unmoved False state) action] (ready : Ready state)
    (assigns : Assigns canAssign origin state) :
    Parses False action state fun _ last => Assigns canAssign origin last :=
  (parses_still ready).mono fun _ _ _ rests => assigns.rests rests

omit operands declarations in
/-- The choice between an assignment and what stands in its place. -/
theorem reads_assigns {canAssign : Bool} {value : Compile Shape} {store : Shape → Compile Shape}
    {load : Compile Shape}
    [stores : ∀ value origin, Keeps (Changes origin) (store value)]
    [values : ∀ origin, Keeps (Changes origin) value]
    [loads : ∀ origin, Keeps (Changes origin) load] (ready : Ready state)
    (reads : ∀ middle, Ready middle → Expecting middle → Parses False value middle fun _ last =>
      Reads (.symbol (.operand .assignment)) middle last ∧ Ended .assignment last)
    (assigned : ∀ shape middle, Ready middle → Assigns canAssign state middle →
      Parses False (store shape) middle fun _ last => Assigns canAssign state last)
    (otherwise : Parses False load state fun _ last => Assigns canAssign state last) :
    Parses False (do
      if ← acceptIf canAssign .equal then
        let shape ← value
        store shape
      else load) state fun _ last => Assigns canAssign state last := by
  cases canAssign with
  | false => exact parses_ran rfl otherwise
  | true =>
    refine parses_bind (reads_accept ready) fun found first ready equal => ?_
    cases found with
    | false =>
      obtain ⟨rfl, -⟩ := equal
      exact otherwise
    | true =>
      have front := (Reads.nothing state).then equal
      refine parses_bind (reads first ready (front.expecting rfl rfl)) fun shape second ready reads => ?_
      exact assigned shape second ready (Or.inr ⟨rfl, front.then reads.1, reads.2⟩)

omit declarations in
theorem reads_localVariable (recognises : grammar.Recognises) (slot : Nat) (canAssign : Bool)
    (ready : Ready state) :
    Parses False (grammar.localVariable slot canAssign) state fun _ last =>
      Assigns canAssign state last := by
  unfold Grammar.localVariable
  dsimp only
  refine reads_assigns ready (fun middle ready expecting => recognises.operand ready expecting
    (by decide)) (fun value middle ready assigns => ?_) ?_
  · exact parses_assigned ready assigns
  · exact parses_assigned ready (Or.inl (.nothing state))

omit declarations in
theorem reads_upvalueVariable (recognises : grammar.Recognises) (index : Nat) (canAssign : Bool)
    (ready : Ready state) :
    Parses False (grammar.upvalueVariable index canAssign) state fun _ last =>
      Assigns canAssign state last := by
  unfold Grammar.upvalueVariable
  refine reads_assigns ready (fun middle ready expecting => recognises.operand ready expecting
    (by decide)) (fun value middle ready assigns => ?_) ?_
  · exact parses_assigned ready assigns
  · exact parses_assigned ready (Or.inl (.nothing state))

omit operands declarations in
theorem Assigns.after {canAssign : Bool} {later : State} (rests : Rests origin state)
    (assigns : Assigns canAssign state later) : Assigns canAssign origin later :=
  assigns.imp (·.after rests) fun ⟨may, reads, ended⟩ => ⟨may, reads.after rests, ended⟩

omit declarations in
theorem reads_globalVariable (recognises : grammar.Recognises) (name : Token) (canAssign : Bool)
    (ready : Ready state) :
    Parses False (grammar.globalVariable name canAssign) state fun _ last =>
      Assigns canAssign state last := by
  unfold Grammar.globalVariable
  dsimp only
  refine parses_bind (parses_still ready) fun constant first ready named => ?_
  suffices assigns : Parses False _ first fun _ last => Assigns canAssign first last from
    assigns.mono fun _ _ _ assigns => assigns.after named
  refine reads_assigns ready (fun middle ready expecting => recognises.operand ready expecting
    (by decide)) (fun value middle ready assigns => ?_) ?_
  · exact parses_assigned ready assigns
  · exact parses_assigned ready (Or.inl (.nothing first))

omit declarations in
theorem reads_namedVariable (recognises : grammar.Recognises) (name : Token) (canAssign : Bool)
    (ready : Ready state) :
    Parses False (grammar.namedVariable name canAssign) state fun _ last =>
      Assigns canAssign state last := by
  unfold Grammar.namedVariable
  refine parses_andThen (fun found origin => ?_) (parses_still ready) fun found first ready looked => ?_
  · split
    · infer_instance
    · refine Keeps.andThen inferInstance fun captured => ?_
      split <;> infer_instance
  cases found with
  | some slot =>
    exact (reads_localVariable recognises slot canAssign ready).mono
      fun _ _ _ assigns => assigns.after looked
  | none =>
    refine parses_andThen (fun found origin => ?_) (parses_still ready)
      fun found second ready captured => ?_
    · split <;> infer_instance
    have rests := looked.trans captured
    cases found with
    | some index =>
      exact (reads_upvalueVariable recognises index canAssign ready).mono
        fun _ _ _ assigns => assigns.after rests
    | none =>
      exact (reads_globalVariable recognises name canAssign ready).mono
        fun _ _ _ assigns => assigns.after rests

end Primaries

/-- Behind an operand, where every operator that may follow binds no more tightly than what has
been read. -/
structure Climbs (level reached : Level) (origin state : State) : Prop where
  above : level.rank ≤ reached.rank
  reads : Reads (.symbol (.operand reached)) origin state
  next : ∀ token ∈ state.pending.head?, ∀ continuation strength,
    Continuation.of? token.kind = some (continuation, strength) → strength.rank ≤ reached.rank

section Openings

variable {grammar : Grammar} {level : Level} {origin state : State}
  [operands : ∀ origin level, Keeps (Changes origin) (grammar.operand level)]
  [declarations : ∀ origin, Keeps (Changes origin) grammar.declaration]

omit operands declarations in
theorem climbs_call (reads : Reads (.symbol (.operand .call)) origin state)
    (low : level.rank ≤ Level.unary.rank) : Climbs level .call origin state :=
  ⟨Nat.le_trans low (by decide), reads, fun _ _ _ _ found => (strength_bounds found).2⟩

omit operands declarations in
/-- Something that needs no operator to be an operand. -/
theorem climbs_primary {rule : Rule} {rules : List Rule} (reads : Reads rule origin state)
    (means : production (.operand .primary) = .oneOf rules) (member : rule ∈ rules)
    (low : level.rank ≤ Level.unary.rank) : Climbs level .call origin state :=
  climbs_call ((reads.alternative (.operand .primary) means member).climb (by decide)) low

omit operands declarations in
/-- An assignment to what has been read before. -/
theorem climbs_assignment {later : State}
    (front : Reads (.row [optional (.row [.symbol (.operand .call), .word .dot]), .word .identifier])
      origin state)
    (reads : Reads (.row [.word .equal, .symbol (.operand .assignment)]) state later)
    (ended : Ended .assignment later) (low : level.rank ≤ Level.assignment.rank) :
    Climbs level .assignment origin later :=
  ⟨low, (front.append reads).alternative (.operand .assignment) rfl List.mem_cons_self,
    fun token next continuation strength found =>
      Nat.le_of_lt (ended token next continuation strength found)⟩

omit declarations in
/-- A variable or a struct literal, behind its name. -/
theorem reads_identifier (recognises : grammar.Recognises) {name : Token} {canAssign : Bool}
    (ready : Ready state) (passes : Passes name origin state) (isName : name.kind = .identifier)
    (low : level.rank ≤ Level.unary.rank)
    (may : canAssign = true → level.rank ≤ Level.assignment.rank) :
    Parses False (grammar.identifier canAssign) state fun _ last =>
      ∃ reached, Climbs level reached origin last := by
  have word : Reads (.word .identifier) origin state := passes.reads isName
  unfold Grammar.identifier
  refine parses_ran rfl (parses_ran check_eq (parses_ran rfl ?_))
  dsimp only
  rw [passes.previous]
  generalize found : (if (state.pending.head?.any fun token => token.kind == .leftBrace) = true then
    state.findStruct name.text else none) = struct
  cases struct with
  | some id =>
    have isKnown : origin.known name.text := by
      split at found
      · rw [← passes.known, State.known, found]
        rfl
      · cases found
    have front : Reads (.row [.structName]) origin state := by
      refine (Reads.nothing origin).then ⟨⟨[name], .structName isName isKnown, passes.pending, ?_⟩,
        passes.toStays⟩
      exact passes.previous
    refine (reads_structLiteral recognises id false ready front).mono fun _ last _ reads => ?_
    exact ⟨.call, climbs_primary reads rfl (by simp) low⟩
  | none =>
    refine (reads_namedVariable recognises name canAssign ready).mono fun _ last _ assigns => ?_
    rcases assigns with reads | ⟨isAllowed, reads, ended⟩
    · have whole := ((Reads.nothing origin).then word).append reads
      exact ⟨.call, climbs_primary whole.single rfl (by simp) low⟩
    · have front : Reads (.row [optional (.row [.symbol (.operand .call), .word .dot]),
          .word .identifier]) origin state := ((Reads.nothing origin).then (.absent _ origin)).then word
      exact ⟨.assignment, climbs_assignment front reads ended (may isAllowed)⟩

omit declarations in
/-- The receiver of a method is no variable to be assigned to. -/
theorem reads_receiver (recognises : grammar.Recognises) {name : Token} (ready : Ready state)
    (passes : Passes name origin state) (isSelf : name.kind = .selfWord)
    (low : level.rank ≤ Level.unary.rank) :
    Parses False grammar.receiver state fun _ last =>
      ∃ reached, Climbs level reached origin last := by
  unfold Grammar.receiver
  refine parses_ran rfl ?_
  refine parses_ite (fun _ => (parses_error ready False.elim).never) fun _ => parses_ran rfl ?_
  refine parses_bind (reads_namedVariable recognises _ false ready) fun shape last ready assigns =>
    parses_ran rfl (parses_pure ready ?_)
  rcases assigns with reads | ⟨isAllowed, -⟩
  · have whole := ((Reads.nothing origin).then (passes.reads isSelf)).append reads
    exact ⟨.call, climbs_primary whole.single rfl (by simp) low⟩
  · cases isAllowed

omit declarations in
theorem reads_heapStruct (recognises : grammar.Recognises) {keyword : Token} (ready : Ready state)
    (passes : Passes keyword origin state) (isNew : keyword.kind = .newWord)
    (low : level.rank ≤ Level.unary.rank) :
    Parses False grammar.heapStruct state fun _ last =>
      ∃ reached, Climbs level reached origin last := by
  unfold Grammar.heapStruct
  refine parses_andThen (fun name origin => ?_) (reads_expect ready) fun name first ready found => ?_
  · refine Keeps.andThen inferInstance fun state => ?_
    split <;> infer_instance
  obtain ⟨isName, named⟩ := found
  refine parses_ran rfl ?_
  cases struct : first.findStruct name.text with
  | none => exact (parses_errorAt ready False.elim).never
  | some id =>
    have isKnown : state.known name.text := by
      rw [← named.known, State.known, struct]
      rfl
    have front : Reads (.row [.structName]) state first := by
      refine (Reads.nothing state).then ⟨⟨[name], .structName isName isKnown, named.pending, ?_⟩,
        named.toStays⟩
      exact named.previous
    refine (reads_structLiteral recognises id true ready front).mono fun _ last _ reads => ?_
    have whole := ((Reads.nothing origin).then (passes.reads isNew)).then reads
    exact ⟨.call, climbs_primary whole rfl (by simp) low⟩

omit operands in
theorem reads_functionLiteral (recognises : grammar.Recognises) {keyword : Token}
    (ready : Ready state) (passes : Passes keyword origin state) (isFn : keyword.kind = .fnWord)
    (low : level.rank ≤ Level.unary.rank) :
    Parses False grammar.functionLiteral state fun _ last =>
      ∃ reached, Climbs level reached origin last := by
  unfold Grammar.functionLiteral
  refine parses_bind (reads_function recognises .function _ ready) fun made first ready reads => ?_
  have whole := ((Reads.nothing origin).then (passes.reads isFn)).then reads
  refine parses_bind (parses_pass ready whole) fun _ second ready whole => ?_
  refine parses_bind (parses_pass ready whole) fun _ last ready whole => parses_pure ready ?_
  exact ⟨.call, climbs_primary whole rfl (by simp) low⟩

/-- An operand, behind its first token. -/
theorem reads_opening (recognises : grammar.Recognises) {token : Token} {canAssign : Bool}
    {opening : Opening} (ready : Ready state) (passes : Passes token origin state)
    (found : Opening.of? token.kind = some opening) (low : level.rank ≤ Level.unary.rank)
    (may : canAssign = true → level.rank ≤ Level.assignment.rank) :
    Parses False (grammar.opening canAssign opening) state fun _ last =>
      ∃ reached, Climbs level reached origin last := by
  -- a single word
  have word : ∀ {kind : TokenKind} {rules : List Rule} {action : Compile Shape}
      [Keeps (Unmoved False state) action], token.kind = kind →
      production (.operand .primary) = .oneOf rules → Rule.word kind ∈ rules →
      Parses False action state fun _ last => ∃ reached, Climbs level reached origin last := by
    intro kind rules action _ isKind means member
    exact (parses_pass ready (passes.reads isKind)).mono fun _ last _ reads =>
      ⟨.call, climbs_primary reads means member low⟩
  cases kind : token.kind <;> simp only [kind, Opening.of?, Option.some.injEq, reduceCtorEq] at found
  all_goals subst found
  all_goals unfold Grammar.opening
  all_goals dsimp only
  case identifier => exact reads_identifier recognises ready passes kind low may
  case selfWord => exact reads_receiver recognises ready passes kind low
  case newWord => exact reads_heapStruct recognises ready passes kind low
  case fnWord => exact reads_functionLiteral recognises ready passes kind low
  case leftParen =>
    have front := (Reads.nothing origin).then (passes.reads kind)
    refine parses_bind (parses_expression recognises ready front rfl rfl)
      fun shape first ready front => ?_
    refine parses_bind (parses_word ready front) fun _ last ready whole => parses_pure ready ?_
    exact ⟨.call, climbs_primary whole rfl (by simp) low⟩
  case number => exact word kind rfl (by simp)
  case string => exact word kind rfl (by simp)
  case minus | bang =>
    have front := (Reads.nothing origin).then
      ((passes.reads kind).oneOf (by simp : _ ∈ [Rule.word .bang, .word .minus]))
    refine parses_ran rfl ?_
    refine parses_bind (recognises.operand ready (passes.expecting (by rw [kind]; rfl)) (by decide))
      fun shape first ready reads => ?_
    refine parses_bind (parses_still ready) fun _ last ready rests => parses_pure ready ?_
    have whole := (front.then reads.1).rests rests
    refine ⟨.unary, low, whole.alternative (.operand .unary) rfl List.mem_cons_self, ?_⟩
    intro token next continuation strength found
    rw [rests.pending] at next
    exact Nat.le_of_lt (reads.2 token next continuation strength found)
  case trueWord | falseWord | nilWord =>
    refine parses_ran rfl ?_
    have literal : Keeps (Unmoved False state) _ := unmoved_literal state.cursor.previous.kind
    exact word kind rfl (by simp)

omit declarations in
/-- A property, a method call or an assignment to a property, behind the dot. -/
theorem reads_property (recognises : grammar.Recognises) {canAssign : Bool} {between : State}
    (target : Shape) (ready : Ready state)
    (reads : Reads (.symbol (.operand .call)) origin between)
    (front : Reads (.row [.word .dot]) between state) (low : level.rank ≤ Level.unary.rank)
    (may : canAssign = true → level.rank ≤ Level.assignment.rank) :
    Parses False (grammar.property target canAssign) state fun _ last =>
      ∃ reached, Climbs level reached origin last := by
  unfold Grammar.property
  refine parses_bind (reads_expect ready) fun token first ready found => ?_
  refine parses_bind (parses_still ready) fun constant second ready rests => ?_
  have name : Reads (.word .identifier) state second := (found.2.reads found.1).rests rests
  have read : Reads suffix between second := (front.then name).oneOf (by simp)
  have whole := reads.join read fun _ _ => Derives.suffixed
  -- what is not an assignment: a method call or a plain property
  have otherwise : Parses False (do
      if ← accept .leftParen then
        let given ← grammar.arguments
        Grammar.checkMethodArity target token.text given
        emitWith .invoke constant given
        return Shape.anything
      else
        emitOperand .getProperty constant
        return Shape.anything) second fun _ last => ∃ reached, Climbs level reached origin last := by
    refine parses_bind (reads_accept ready) fun calls third ready paren => ?_
    cases calls with
    | true =>
      have front := (Reads.nothing second).then paren
      refine parses_bind (reads_arguments recognises ready front) fun given fourth ready arguments => ?_
      have whole := whole.join arguments fun _ _ => Derives.suffixed
      exact (parses_pass ready whole).mono fun _ last _ whole => ⟨.call, climbs_call whole low⟩
    | false =>
      obtain ⟨rfl, -⟩ := paren
      rw [if_neg Bool.false_ne_true]
      exact (parses_pass ready whole).mono fun _ last _ whole => ⟨.call, climbs_call whole low⟩
  cases canAssign with
  | false => exact parses_ran rfl otherwise
  | true =>
    refine parses_bind (reads_accept ready) fun assigns third ready equal => ?_
    cases assigns with
    | false =>
      obtain ⟨rfl, -⟩ := equal
      exact otherwise
    | true =>
      have target := (((Reads.nothing origin).then reads).append front).present
      have front : Reads (.row [optional (.row [.symbol (.operand .call), .word .dot]),
        .word .identifier]) origin second := ((Reads.nothing origin).then target).then name
      have sign := (Reads.nothing second).then equal
      refine parses_bind (recognises.operand ready (sign.expecting rfl rfl) (by decide))
        fun value fourth ready reads => ?_
      refine (parses_still ready).mono fun _ last _ rests => ⟨.assignment, ?_⟩
      refine climbs_assignment front ((sign.then reads.1).rests rests) ?_ (may rfl)
      rw [Ended, rests.pending]
      exact reads.2

omit declarations in
/-- The right operand of `and` or `or`. -/
theorem reads_shortCircuit (recognises : grammar.Recognises) {strength : Level} (left : Shape)
    (skip : Opcode) (ready : Ready state) (expecting : Expecting state)
    (tight : strength.rank ≤ Level.unary.rank) :
    Parses False (grammar.shortCircuit left skip strength) state fun _ last =>
      Reads (.symbol (.operand strength)) state last ∧ Ended strength last := by
  change Parses False (do
    let exit ← emitJump skip
    emit .pop
    beginBranch
    let right ← grammar.operand strength
    endBranch
    patchJump exit
    return left.merge right) state _
  refine parses_bind (parses_still ready) fun exit first ready one => ?_
  refine parses_bind (parses_still ready) fun _ second ready two => ?_
  refine parses_bind (parses_still ready) fun _ third ready three => ?_
  have rests := (one.trans two).trans three
  have expecting : Expecting third := by
    rwa [Expecting, rests.pending, rests.cursor]
  refine parses_bind (recognises.operand ready expecting tight) fun right fourth ready reads => ?_
  refine (parses_still ready).mono fun _ last _ behind => ⟨?_, ?_⟩
  · exact (reads.1.after rests).rests behind
  · rw [Ended, behind.pending]
    exact reads.2

omit operands declarations in
/-- An operator and its right operand, behind the left one. -/
theorem Reads.operated {strength other : Level} {token : Token} {between later : State}
    (left : Reads (.symbol (.operand strength)) origin between) (passes : Passes token between state)
    (isOperator : token.kind ∈ operators strength)
    (right : Reads (.symbol (.operand other)) state later)
    (joins : ∀ {early late : List Token} {operator : Token}, operator.kind ∈ operators strength →
      Derives origin.known (.symbol (.operand strength)) early →
      Derives origin.known (.symbol (.operand other)) late →
      Derives origin.known (.symbol (.operand strength)) (early ++ operator :: late)) :
    Reads (.symbol (.operand strength)) origin later := by
  have behind := ((Reads.nothing between).then (passes.reads rfl)).then right
  refine left.join behind fun early late derives rest => ?_
  simp only [List.nil_append, List.cons_append, derives_row_cons, derives_row_nil,
    derives_word] at rest
  obtain ⟨_, _, rfl, ⟨operator, rfl, same⟩, right, _, rfl, derivesRight, rfl⟩ := rest
  rw [List.append_nil]
  exact joins (same ▸ isOperator) derives derivesRight

omit operands declarations in
theorem incomplete_of_continuation {kind : TokenKind} {found : Continuation × Level}
    (continues : Continuation.of? kind = some found) : isComplete kind = false := by
  cases kind <;> first | rfl | cases continues

omit declarations in
/-- One round of what may follow an operand. -/
theorem reads_continuation (recognises : grammar.Recognises) {reached strength : Level} {token : Token}
    {canAssign : Bool} {continuation : Continuation} {between : State} (left : Shape)
    (climbs : Climbs level reached origin between) (ready : Ready state)
    (passes : Passes token between state)
    (found : Continuation.of? token.kind = some (continuation, strength))
    (above : level.rank ≤ strength.rank) (low : level.rank ≤ Level.unary.rank)
    (may : canAssign = true → level.rank ≤ Level.assignment.rank) :
    Parses False (grammar.continuation left canAssign strength continuation) state fun _ last =>
      ∃ reached, Climbs level reached origin last := by
  have below : strength.rank ≤ reached.rank :=
    climbs.next token (by rw [passes.pending]; rfl) continuation strength found
  have reads := climbs.reads.climb below
  have expecting : Expecting state := passes.expecting (incomplete_of_continuation found)
  rcases continuation_cases found with ⟨rfl, rfl, kind⟩ | ⟨rfl, rfl, kind⟩ | ⟨rfl, rfl, kind⟩
    | ⟨rfl, rfl, kind⟩ | ⟨rfl, loose, tight, kind⟩
  all_goals unfold Grammar.continuation
  all_goals dsimp only
  · unfold Grammar.call
    have front := (Reads.nothing between).then (passes.reads kind)
    refine parses_andThen (fun given origin => ?_) (reads_arguments recognises ready front)
      fun given first ready arguments => ?_
    · dsimp only
      split <;> infer_instance
    have whole := reads.join arguments fun _ _ => Derives.suffixed
    have ends : Keeps (Unmoved False first) _ := unmoved_call left.arity given
    exact (parses_pass ready whole).mono fun _ last _ whole => ⟨.call, climbs_call whole low⟩
  · exact reads_property recognises left ready reads
      ((Reads.nothing between).then (passes.reads kind)) low may
  · refine (reads_shortCircuit recognises left _ ready expecting (by decide)).mono fun _ last _ right => ⟨.and, above, ?_, fun token next _ _ found =>
        Nat.le_of_lt (right.2 token next _ _ found)⟩
    exact reads.operated passes (by rw [kind]; decide) right.1 fun isOperator one two =>
      one.link (by decide) (by decide) isOperator two
  · refine (reads_shortCircuit recognises left _ ready expecting (by decide)).mono fun _ last _ right => ⟨.or, above, ?_, fun token next _ _ found =>
        Nat.le_of_lt (right.2 token next _ _ found)⟩
    exact reads.operated passes (by rw [kind]; decide) right.1 fun isOperator one two =>
      one.link (by decide) (by decide) isOperator two
  · have next := rank_tighter (Nat.lt_of_le_of_lt tight (by decide))
    have unary : strength.tighter.rank ≤ Level.unary.rank := by
      rw [next]
      exact Nat.succ_le_succ tight
    refine parses_ran rfl ?_
    refine parses_bind (recognises.operand ready expecting unary)
      fun right first ready reading => ?_
    refine (parses_still ready).mono fun _ last _ rests => ⟨strength, above, ?_, ?_⟩
    · exact reads.operated passes kind (reading.1.rests rests) fun isOperator one two =>
        one.operator (Nat.le_trans (by decide) loose) tight isOperator two
    · intro token waiting continuation other found
      rw [rests.pending] at waiting
      have ended := reading.2 token waiting continuation other found
      omega

omit operands declarations in
theorem Reads.operand_waits (reads : Reads (.symbol (.operand level)) origin state) :
    origin.pending ≠ [] := by
  obtain ⟨used, derives, pending, -⟩ := reads.derives
  obtain ⟨first, rest, rfl, -⟩ := opens_operand derives
  rw [pending]
  exact List.cons_ne_nil _ _

omit operands declarations in
theorem Reads.function_waits (reads : Reads function origin state) : origin.pending ≠ [] := by
  obtain ⟨used, derives, pending, -⟩ := reads.derives
  simp only [function, derives_row_cons, derives_word] at derives
  obtain ⟨_, _, rfl, ⟨paren, rfl, -⟩, -⟩ := derives
  rw [pending]
  exact List.cons_ne_nil _ _

/-- At the end of a unit there is no operand. What may be taken for its beginning is a parenthesis
or a sign, and that leads to another operand at the end. -/
theorem reads_nothing (recognises : grammar.Recognises) {opening : Opening} {canAssign : Bool}
    (ready : Ready state) (expecting : Expecting state) (empty : state.pending = [])
    (found : Opening.of? state.cursor.previous.kind = some opening) :
    Parses False (grammar.opening canAssign opening) state fun _ _ => False := by
  have incomplete := expecting empty
  have operand : ∀ level : Level, level.rank ≤ Level.unary.rank →
      Parses False (grammar.operand level) state fun _ _ => False := fun level low =>
    (recognises.operand ready expecting low).mono fun _ _ _ reads => reads.1.operand_waits empty
  cases kind : state.cursor.previous.kind <;> rw [kind] at incomplete found
  all_goals try cases incomplete
  all_goals simp only [Opening.of?, Option.some.injEq, reduceCtorEq] at found
  all_goals subst found
  all_goals unfold Grammar.opening
  all_goals dsimp only
  case leftParen => exact (operand .assignment (by decide)).never
  case minus | bang => exact parses_ran rfl (operand .unary (by decide)).never
  case newWord =>
    unfold Grammar.heapStruct
    refine parses_andThen (fun name origin => ?_) (reads_expect ready) fun name first _ found => ?_
    · refine Keeps.andThen inferInstance fun state => ?_
      split <;> infer_instance
    · have waiting := found.2.pending
      rw [empty] at waiting
      cases waiting
  case fnWord =>
    exact ((reads_function recognises .function _ ready).mono fun _ _ _ reads =>
      reads.function_waits empty).never

omit declarations in
/-- What follows an operand, up to the first operator that binds too loosely. -/
theorem reads_continuations (recognises : grammar.Recognises) {reached : Level} {canAssign : Bool}
    (shape : Shape) (ready : Ready state) (climbs : Climbs level reached origin state)
    (low : level.rank ≤ Level.unary.rank)
    (may : canAssign = true → level.rank ≤ Level.assignment.rank) :
    Parses False (iterate grammar.bound shape fun shape => do
      match Continuation.of? (← here).kind with
      | none => return (shape, false)
      | some (continuation, strength) =>
        if level.rank ≤ strength.rank then
          advance
          return (← grammar.continuation shape canAssign strength continuation, true)
        else
          return (shape, false)) state fun _ last =>
            Reads (.symbol (.operand level)) origin last ∧ Ended level last := by
  refine parses_iterate (fun _ middle => ∃ reached, Climbs level reached origin middle)
    (fun shape middle ready inv => ?_) grammar.bound shape ready ⟨reached, climbs⟩
  obtain ⟨reached, climbs⟩ := inv
  have stops : (∀ token ∈ middle.pending.head?, ∀ continuation strength,
      Continuation.of? token.kind = some (continuation, strength) → strength.rank < level.rank) →
      Parses False (pure (shape, false)) middle fun result last =>
        if result.2 = true then ∃ reached, Climbs level reached origin last
        else Reads (.symbol (.operand level)) origin last ∧ Ended level last := fun ended =>
    parses_pure ready ⟨climbs.reads.climb climbs.above, ended⟩
  refine parses_ran rfl ?_
  cases waiting : middle.pending with
  | nil =>
    rw [Cursor.here_of_nothing waiting]
    exact stops (by simp [waiting])
  | cons token rest =>
    rw [(Cursor.here_of_pending waiting).1]
    cases found : Continuation.of? token.kind with
    | none =>
      refine stops ?_
      rw [waiting]
      rintro _ ⟨⟩ continuation strength same
      rw [found] at same
      cases same
    | some pair =>
      obtain ⟨continuation, strength⟩ := pair
      dsimp only
      refine parses_ite (fun above => ?_) fun below => ?_
      · refine parses_bind (parses_advance ready waiting False.elim) fun _ next ready passes => ?_
        refine parses_bind (reads_continuation recognises shape climbs ready passes.2 found above low
          may) fun shape last ready climbs => parses_pure ready ?_
        exact climbs
      · refine stops ?_
        rw [waiting]
        rintro _ ⟨⟩ continuation other same
        rw [found] at same
        cases same
        omega

theorem reads_parseOperand (recognises : grammar.Recognises) (ready : Ready state)
    (expecting : Expecting state) (low : level.rank ≤ Level.unary.rank) :
    Parses False (grammar.parseOperand level) state fun _ last =>
      Reads (.symbol (.operand level)) state last ∧ Ended level last := by
  unfold Grammar.parseOperand
  cases waiting : state.pending with
  | nil =>
    have stays : advance state = .ok () state := by
      simp only [advance, bind, EStateM.bind, atEnd_eq, waiting]
      rfl
    refine parses_ran stays (parses_ran rfl ?_)
    cases found : Opening.of? state.cursor.previous.kind with
    | none => exact (parses_error ready False.elim).never
    | some opening => exact (reads_nothing recognises ready expecting waiting found).never
  | cons token rest =>
    refine parses_andThen (fun _ origin => ?_) (parses_advance ready waiting False.elim)
      fun _ first ready passes => parses_ran rfl ?_
    · refine Keeps.andThen inferInstance fun token => ?_
      split
      · infer_instance
      · dsimp only
        infer_instance
    rw [passes.2.previous]
    cases found : Opening.of? token.kind with
    | none => exact (parses_error ready False.elim).never
    | some opening =>
      dsimp only
      have may : decide (level.rank ≤ Level.assignment.rank) = true →
          level.rank ≤ Level.assignment.rank := of_decide_eq_true
      refine parses_bind (reads_opening recognises ready passes.2 found low may)
        fun shape second ready climbing => ?_
      obtain ⟨reached, climbs⟩ := climbing
      refine parses_bind (reads_continuations recognises shape ready climbs low may)
        fun shape third ready whole => ?_
      cases decide (level.rank ≤ Level.assignment.rank) with
      | false => exact parses_ran rfl (parses_pure ready whole)
      | true =>
        refine parses_bind (reads_accept ready) fun assigns last ready equal => ?_
        cases assigns with
        | true => exact (parses_error ready False.elim).never
        | false =>
          obtain ⟨rfl, -⟩ := equal
          exact parses_pure ready whole

end Openings

end ScriptMachine.Compiler
