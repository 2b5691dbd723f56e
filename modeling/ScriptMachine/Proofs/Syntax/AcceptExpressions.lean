import ScriptMachine.Proofs.Syntax.Accepting

set_option autoImplicit false
set_option synthInstance.maxSize 20000

/- Expressions that the grammar derives. Their operators are met in the order in which the rules
nest, so that each operand ends where its rule ends. -/
namespace ScriptMachine.Compiler

open Syntax Syntax.Rule

section Primaries

variable {grammar : Grammar} {known : Text → Prop} {tokens rest : List Token} {canAssign : Bool}
  {state : State}
  [operands : ∀ origin level, Keeps (Changes origin) (grammar.operand level)]
  [declarations : ∀ origin, Keeps (Changes origin) grammar.declaration]

theorem stops_atClose {close : TokenKind} (atClose : AtClose close tokens)
    (closes : closesExpression close = true) : Stops .assignment tokens := by
  obtain ⟨token, rest, rfl, isComma | isClose⟩ := atClose
  · exact stops_cons (by rw [isComma]; rfl)
  · exact stops_cons (by rw [isClose]; exact closes)

omit declarations in
/-- The arguments of a call, behind its opening parenthesis. -/
theorem accepts_arguments (accepts : grammar.Accepts) {paren : Token}
    (isParen : paren.kind = .rightParen) (ready : Ready state)
    (awaits : Awaits known (tokens ++ paren :: rest) state)
    (derives : Derives known (optional (.symbol .args)) tokens) :
    Parses True grammar.arguments state fun _ last => Awaits known rest last := by
  have ends : ∀ (count : Nat) middle, Ready middle → Awaits known (paren :: rest) middle →
      Parses True (do
        let _ ← expect .rightParen "')' after arguments"
        return min count maxArguments) middle fun _ last => Awaits known rest last := by
    intro count middle ready awaits
    exact parses_bind (awaits_expect ready awaits isParen) fun _ last ready found =>
      parses_pure ready found.2
  unfold Grammar.arguments
  dsimp only
  rcases derives_optional.mp derives with rfl | derives
  · refine parses_ran awaits.check ?_
    simp only [List.nil_append, List.head?_cons, Option.any_some, isParen, beq_self_eq_true,
      Bool.not_true, Bool.false_eq_true, if_false]
    exact ends 0 state ready awaits
  · have lacks : Lacks .rightParen (tokens ++ paren :: rest) := by
      rw [derives_symbol, production, commaList, derives_row_cons] at derives
      obtain ⟨_, _, rfl, head, -⟩ := derives
      obtain ⟨first, _, rfl, isOpening, -⟩ := opens_operand head
      refine lacks_cons fun isParen => ?_
      rw [isParen] at isOpening
      cases isOpening
    refine parses_ran (awaits.check_lacks lacks) ?_
    refine parses_bind (accepts_commaList (by decide)
      (fun count middle item behind ready awaits value atClose => ?_) isParen grammar.bound 0 ready
      awaits (derives_symbol.mp derives)) fun count last ready awaits => ends count last ready awaits
    refine parses_bind (accepts_expression accepts ready awaits value (stops_atClose atClose rfl))
      fun _ first ready awaits => ?_
    refine parses_ite (fun _ => (parses_error ready fun _ => rfl).never) fun _ => ?_
    exact accepts_comma ready awaits

omit declarations in
/-- The value of a field in a struct literal, behind the name of the field. -/
theorem accepts_fieldValue (accepts : grammar.Accepts) (onHeap : Bool) (layout : List Nat)
    (slot : Option Nat) {equal : Token} {value : List Token} (isEqual : equal.kind = .equal)
    (ready : Ready state) (awaits : Awaits known (equal :: (value ++ rest)) state)
    (derives : Derives known expression value) (stops : Stops .assignment rest) :
    Parses True (do
      let _ ← expect .equal "'=' after field name"
      let value ← grammar.expression
      if onHeap && value.placement.mayBeStack then
        emit .promote
      match slot with
      | some slot => return if layout.contains slot then layout else slot :: layout
      | none => return layout) state fun _ last => Awaits known rest last := by
  cases slot <;> dsimp only
  all_goals
    refine parses_bind (awaits_expect ready awaits isEqual) fun _ second ready found => ?_
    refine parses_bind (accepts_expression accepts ready found.2 derives stops)
      fun value third ready awaits => ?_
    refine parses_ite (fun _ => ?_) fun _ => parses_pure ready awaits
    exact parses_bind (awaits_pass ready awaits) fun _ last ready awaits => parses_pure ready awaits

omit declarations in
theorem accepts_initialiser (accepts : grammar.Accepts) (type : StructType) (onHeap : Bool)
    (layout : List Nat) (ready : Ready state) (awaits : Awaits known (tokens ++ rest) state)
    (derives : Derives known (.symbol .initialiser) tokens) (stops : Stops .assignment rest) :
    Parses True (grammar.initialiser type onHeap layout) state fun _ last =>
      Awaits known rest last := by
  rw [derives_symbol] at derives
  simp only [production, derives_row_cons, derives_row_nil, derives_word] at derives
  obtain ⟨_, _, rfl, ⟨field, rfl, isField⟩, _, _, rfl, ⟨equal, rfl, isEqual⟩, value, _, rfl,
    derivesValue, rfl⟩ := derives
  simp only [List.cons_append, List.nil_append, List.append_nil] at awaits
  unfold Grammar.initialiser
  refine parses_andThen (fun field origin => ?_) (awaits_expect ready awaits isField)
    fun field first ready found => ?_
  · dsimp only
    cases type.findField field.text <;> infer_instance
  dsimp only
  cases slotOf : type.findField field.text with
  | none => exact (parses_errorAt ready fun _ => rfl).never
  | some slot =>
    refine parses_ite (fun _ => (parses_errorAt ready fun _ => rfl).never) fun _ => ?_
    exact accepts_fieldValue accepts onHeap layout (some slot) isEqual ready found.2 derivesValue stops

omit declarations in
/-- A struct literal, behind the name of its type. -/
theorem accepts_structLiteral (accepts : grammar.Accepts) (id : StructId) (onHeap : Bool)
    (ready : Ready state) (awaits : Awaits known (tokens ++ rest) state)
    (derives : Derives known (.row [.word .leftBrace, braceList (.symbol .initialiser),
      .word .rightBrace]) tokens) :
    Parses True (grammar.structLiteral id onHeap) state fun _ last => Awaits known rest last := by
  simp only [derives_row_cons, derives_row_nil, derives_word] at derives
  obtain ⟨_, _, rfl, ⟨left, rfl, isLeft⟩, items, _, rfl, derivesItems, _, _, rfl,
    ⟨right, rfl, isRight⟩, rfl⟩ := derives
  simp only [List.append_assoc, List.cons_append, List.nil_append, List.append_nil] at awaits
  have lays : ∀ origin (slots : List Nat), Keeps (Changes origin)
      (modifyBody fun body => { body with layouts := body.layouts.push slots }) :=
    fun _ _ => keeps_body fun _ => ⟨rfl, rfl⟩
  have ends : ∀ (layout : List Nat) middle, Ready middle → Awaits known (right :: rest) middle →
      Parses True (do
        let _ ← expect .rightBrace "'\x7d' after struct literal fields"
        let index := (← draft).body.layouts.size
        modifyBody fun body => { body with layouts := body.layouts.push layout.reverse }
        emitWith (if onHeap then .heapStruct else .stackStruct) id index
        return ({
          placement := if onHeap then .heap else .stack
          fresh := !onHeap
          holdsLiteral := !onHeap
          struct := some id } : Shape)) middle fun _ last => Awaits known rest last := by
    intro layout middle ready awaits
    refine parses_bind (awaits_expect ready awaits isRight) fun _ first ready found => parses_ran rfl ?_
    exact awaits_pass ready found.2
  unfold Grammar.structLiteral
  dsimp only
  refine parses_ran rfl ?_
  refine parses_bind (awaits_expect ready awaits isLeft) fun _ first ready found => ?_
  have starts : ∀ item, Derives known (.symbol .initialiser) item →
      ∃ first more, item = first :: more ∧ first.kind ≠ .rightBrace := by
    intro item derives
    obtain ⟨first, more, same, isName⟩ := starts_word derives rfl
    exact ⟨first, more, same, by rw [isName]; decide⟩
  rcases @lacks_braceList _ _ _ (right :: rest) _ starts derivesItems with rfl | lacks
  · refine parses_ran found.2.check ?_
    simp only [List.nil_append, List.head?_cons, Option.any_some, isRight, beq_self_eq_true,
      Bool.not_true, Bool.false_eq_true, if_false]
    exact ends [] first ready found.2
  · refine parses_ran (found.2.check_lacks lacks) ?_
    refine parses_bind (accepts_braceList
      (fun layout middle item behind ready awaits derives atClose => ?_)
      (fun layout middle ready awaits => ?_) isRight grammar.bound [] ready found.2 derivesItems)
      fun layout last ready awaits => ends layout last ready awaits
    · obtain ⟨start, more, rfl, other⟩ := starts item derives
      refine parses_ran (awaits.check_lacks (lacks_cons other)) ?_
      refine parses_bind (accepts_initialiser accepts _ onHeap layout ready awaits derives
        (stops_atClose atClose rfl)) fun layout second ready awaits => ?_
      exact accepts_comma ready awaits
    · refine parses_ran awaits.check ?_
      simp only [List.head?_cons, Option.any_some, isRight, beq_self_eq_true, if_true]
      exact parses_pure ready ⟨rfl, awaits⟩

/-- What stands behind the name of a variable or property, in front of `rest`: nothing, or an
assignment where that may stand. -/
def Assignment (known : Text → Prop) (canAssign : Bool) (tokens rest : List Token) : Prop :=
  (tokens = [] ∧ (canAssign = true → Lacks .equal rest)) ∨
    canAssign = true ∧ ∃ equal value, tokens = equal :: value ∧ equal.kind = .equal ∧
      Derives known (.symbol (.operand .assignment)) value ∧ Stops .assignment rest

omit operands declarations in
/-- Where no assignment follows, none is read. -/
theorem Awaits.refusesIf {kind : TokenKind} (awaits : Awaits known tokens state)
    (lacks : canAssign = true → Lacks kind tokens) :
    acceptIf canAssign kind state = .ok false state := by
  cases canAssign with
  | false => rfl
  | true => exact awaits.refuses (lacks rfl)

omit operands declarations in
/-- The choice between an assignment and what stands in its place. -/
theorem accepts_assignment {value : Compile Shape} {store : Shape → Compile Shape}
    {load : Compile Shape} [values : ∀ origin, Keeps (Changes origin) value]
    [stores : ∀ value origin, Keeps (Changes origin) (store value)]
    [loads : ∀ origin, Keeps (Changes origin) load]
    [storesRest : ∀ value origin, Keeps (Unmoved True origin) (store value)]
    [loadRests : ∀ origin, Keeps (Unmoved True origin) load] (ready : Ready state)
    (awaits : Awaits known (tokens ++ rest) state)
    (assignment : Assignment known canAssign tokens rest)
    (reads : ∀ middle tokens, Ready middle → Awaits known (tokens ++ rest) middle →
      Derives known (.symbol (.operand .assignment)) tokens → Stops .assignment rest →
      Parses True value middle fun _ last => Awaits known rest last) :
    Parses True (do
      if ← acceptIf canAssign .equal then
        let shape ← value
        store shape
      else load) state fun _ last => Awaits known rest last := by
  rcases assignment with ⟨rfl, lacks⟩ | ⟨rfl, equal, tokens, rfl, isEqual, derives, stops⟩
  · refine parses_ran (awaits.refusesIf lacks) ?_
    rw [if_neg Bool.false_ne_true]
    exact awaits_pass ready awaits
  · refine parses_bind (awaits_accept ready awaits isEqual) ?_
    rintro _ first ready ⟨rfl, awaits⟩
    refine parses_bind (reads first tokens ready awaits derives stops) fun shape second ready awaits => ?_
    exact awaits_pass ready awaits

omit declarations in
theorem accepts_namedVariable (accepts : grammar.Accepts) (name : Token) (ready : Ready state)
    (awaits : Awaits known (tokens ++ rest) state)
    (assignment : Assignment known canAssign tokens rest) :
    Parses True (grammar.namedVariable name canAssign) state fun _ last => Awaits known rest last := by
  have value : ∀ middle tokens, Ready middle → Awaits known (tokens ++ rest) middle →
      Derives known (.symbol (.operand .assignment)) tokens → Stops .assignment rest →
      Parses True grammar.expression middle fun _ last => Awaits known rest last :=
    fun _ _ ready awaits derives stops =>
      accepts.operand ready awaits derives stops (by decide) (by decide)
  unfold Grammar.namedVariable
  refine parses_andThen (fun found origin => ?_) (awaits_pass ready awaits)
    fun found first ready awaits => ?_
  · split
    · infer_instance
    · refine Keeps.andThen inferInstance fun captured => ?_
      split <;> infer_instance
  cases found with
  | some slot =>
    unfold Grammar.localVariable
    exact accepts_assignment ready awaits assignment value
  | none =>
    refine parses_andThen (fun found origin => ?_) (awaits_pass ready awaits)
      fun found second ready awaits => ?_
    · split <;> infer_instance
    cases found with
    | some index =>
      unfold Grammar.upvalueVariable
      exact accepts_assignment ready awaits assignment value
    | none =>
      unfold Grammar.globalVariable
      refine parses_bind (awaits_pass ready awaits) fun constant third ready awaits => ?_
      exact accepts_assignment ready awaits assignment value

end Primaries

namespace Grammar

/-- One operator behind an operand, or none. -/
def operation (grammar : Grammar) (level : Level) (shape : Shape) : Compile (Shape × Bool) := do
  match Continuation.of? (← here).kind with
  | none => return (shape, false)
  | some (continuation, strength) =>
    if level.rank ≤ strength.rank then
      advance
      return (← grammar.continuation shape (level.rank ≤ Level.assignment.rank) strength
        continuation, true)
    else
      return (shape, false)

/-- The end of an expression. -/
def closing (level : Level) (shape : Shape) : Compile Shape := do
  if ← acceptIf (level.rank ≤ Level.assignment.rank) .equal then
    error .invalidAssignmentTarget
  return shape

/-- What follows the first operand of an expression. -/
def climb (grammar : Grammar) (level : Level) (bound : Nat) (first : Shape) : Compile Shape :=
  iterate bound first (grammar.operation level) >>= closing level

theorem climb_succ (grammar : Grammar) (level : Level) (bound : Nat) (first : Shape) :
    grammar.climb level (bound + 1) first = (do
      let (shape, more) ← grammar.operation level first
      if more then grammar.climb level bound shape else closing level shape) := by
  funext state
  simp only [climb, iterate, bind, EStateM.bind]
  cases grammar.operation level first state with
  | error => rfl
  | ok result last =>
    obtain ⟨shape, _ | _⟩ := result <;> rfl

theorem parseOperand_eq (grammar : Grammar) (level : Level) :
    grammar.parseOperand level = (do
      advance
      match Opening.of? (← previous).kind with
      | none =>
        error (.expected (ascii "expression"))
        return {}
      | some opening =>
        let first ← grammar.opening (level.rank ≤ Level.assignment.rank) opening
        grammar.climb level grammar.bound first) :=
  rfl

end Grammar

section Climbing

variable {grammar : Grammar} {known : Text → Prop} {level : Level} {tokens rest : List Token}
  {state : State}
  [operands : ∀ origin level, Keeps (Changes origin) (grammar.operand level)]
  [declarations : ∀ origin, Keeps (Changes origin) grammar.declaration]

omit operands declarations in
instance changes_closing (origin : State) (shape : Shape) :
    Keeps (Changes origin) (Grammar.closing level shape) := by
  unfold Grammar.closing
  infer_instance

omit declarations in
instance changes_climb (origin : State) (bound : Nat) (first : Shape) :
    Keeps (Changes origin) (grammar.climb level bound first) := by
  unfold Grammar.climb Grammar.operation
  infer_instance

/-- Behind an operand, the tokens are read up to `rest`. -/
def Grammar.Follows (grammar : Grammar) (known : Text → Prop) (level : Level)
    (tokens rest : List Token) : Prop :=
  ∀ bound shape state, Ready state → Awaits known tokens state →
    Parses True (grammar.climb level bound shape) state fun _ last => Awaits known rest last

omit operands declarations in
theorem Stops.lacks_equal (stops : Stops level tokens) : Lacks .equal tokens :=
  fun token next => (stops token next).1

omit operands declarations in
theorem Stops.lacks_leftBrace (stops : Stops level tokens) : Lacks .leftBrace tokens :=
  fun token next => (stops token next).2.1

omit operands declarations in
theorem Stops.tighter {other : Level} (stops : Stops level tokens)
    (below : level.rank ≤ other.rank) : Stops other tokens := by
  intro token next
  obtain ⟨noEqual, noBrace, looser⟩ := stops token next
  exact ⟨noEqual, noBrace, fun continuation strength found =>
    Nat.lt_of_lt_of_le (looser continuation strength found) below⟩

omit operands declarations in
/-- No operator is taken where the expression cannot go on. -/
theorem operation_quits (shape : Shape) (stops : Stops level state.pending) :
    grammar.operation level shape state = .ok (shape, false) state := by
  change (match Continuation.of? state.cursor.here.kind with
    | none => (pure (shape, false) : Compile (Shape × Bool))
    | some (continuation, strength) => _) state = _
  cases waiting : state.pending with
  | nil =>
    rw [Cursor.here_of_nothing waiting]
    rfl
  | cons token tail =>
    rw [(Cursor.here_of_pending waiting).1]
    cases found : Continuation.of? token.kind with
    | none => rfl
    | some pair =>
      have looser := (stops token (by rw [waiting]; rfl)).2.2 pair.1 pair.2 found
      dsimp only
      rw [if_neg (Nat.not_le.mpr looser)]
      rfl

omit operands declarations in
/-- Nothing more belongs to the expression. -/
theorem follows_nothing (stops : Stops level rest) : grammar.Follows known level rest rest := by
  intro bound shape state ready awaits
  cases bound with
  | zero => exact parses_throw
  | succ bound =>
    rw [Grammar.climb_succ]
    refine parses_ran (operation_quits shape (awaits.pending ▸ stops))
      (parses_ran (awaits.refusesIf fun _ => stops.lacks_equal) ?_)
    exact parses_pure ready awaits

omit declarations in
/-- An operator comes next. -/
theorem follows_operation {token : Token} {tail : List Token} {continuation : Continuation}
    {strength : Level} (found : Continuation.of? token.kind = some (continuation, strength))
    (above : level.rank ≤ strength.rank)
    (continues : ∀ shape middle, Ready middle → Awaits known tokens middle →
      Parses True (grammar.continuation shape (level.rank ≤ Level.assignment.rank) strength
        continuation) middle fun _ last => Awaits known tail last)
    (follows : grammar.Follows known level tail rest) :
    grammar.Follows known level (token :: tokens) rest := by
  intro bound shape state ready awaits
  cases bound with
  | zero => exact parses_throw
  | succ bound =>
    have goesOn : Parses True (grammar.operation level shape) state fun result last =>
        result.2 = true ∧ Awaits known tail last := by
      unfold Grammar.operation
      refine parses_ran rfl ?_
      rw [(Cursor.here_of_pending awaits.pending).1, found]
      dsimp only
      rw [if_pos above]
      refine parses_bind (awaits_advance ready awaits) fun _ first ready passed => ?_
      refine parses_bind (continues shape first ready passed.1) fun _ second ready awaits => ?_
      exact parses_pure ready ⟨rfl, awaits⟩
    rw [Grammar.climb_succ]
    refine parses_bind goesOn ?_
    rintro ⟨shape, _⟩ middle ready ⟨rfl, awaits⟩
    exact follows bound shape middle ready awaits

/-- A call, behind what is called. -/
def callSuffix : Rule :=
  .row [.word .leftParen, optional (.symbol .args), .word .rightParen]

omit declarations in
/-- The arguments of a call and what closes them. -/
theorem accepts_callSuffix (accepts : grammar.Accepts) (derives : Derives known callSuffix tokens) :
    ∃ paren behind, tokens = paren :: behind ∧ paren.kind = .leftParen ∧
      ∀ {rest : List Token} {state : State}, Ready state → Awaits known (behind ++ rest) state →
        Parses True grammar.arguments state fun _ last => Awaits known rest last := by
  simp only [callSuffix, derives_row_cons, derives_row_nil, derives_word] at derives
  obtain ⟨_, _, rfl, ⟨left, rfl, isLeft⟩, args, _, rfl, derivesArgs, _, _, rfl,
    ⟨right, rfl, isRight⟩, rfl⟩ := derives
  refine ⟨left, _, rfl, isLeft, fun ready awaits => ?_⟩
  exact accepts_arguments accepts isRight ready (by simpa using awaits) derivesArgs

omit declarations in
/-- A call of what has been read. -/
theorem follows_call (accepts : grammar.Accepts) {tail : List Token}
    (low : level.rank ≤ Level.unary.rank) (derives : Derives known callSuffix tokens)
    (follows : grammar.Follows known level tail rest) :
    grammar.Follows known level (tokens ++ tail) rest := by
  obtain ⟨paren, behind, rfl, isParen, arguments⟩ := accepts_callSuffix accepts derives
  refine follows_operation (by rw [isParen]; rfl) (Nat.le_trans low (by decide))
    (fun shape middle ready awaits => ?_) follows
  unfold Grammar.continuation Grammar.call
  refine parses_andThen (fun given origin => ?_) (arguments ready awaits)
    fun given first ready awaits => ?_
  · dsimp only
    split <;> infer_instance
  have ends : Keeps (Unmoved True first) _ := unmoved_call shape.arity given
  exact awaits_pass ready awaits

/-- What stands behind the name of a property, in front of `rest`: an assignment, a call, or
something else. -/
def Property (known : Text → Prop) (canAssign : Bool) (tokens rest : List Token) : Prop :=
  Assignment known canAssign tokens rest ∧ (tokens = [] → Lacks .leftParen rest) ∨
    Derives known callSuffix tokens

omit declarations in
/-- A property of what has been read. -/
theorem follows_property (accepts : grammar.Accepts) {dot name : Token} {tail : List Token}
    (low : level.rank ≤ Level.unary.rank) (isDot : dot.kind = .dot) (isName : name.kind = .identifier)
    (property : Property known (level.rank ≤ Level.assignment.rank) tokens tail)
    (follows : grammar.Follows known level tail rest) :
    grammar.Follows known level (dot :: name :: (tokens ++ tail)) rest := by
  refine follows_operation (by rw [isDot]; rfl) (Nat.le_trans low (by decide))
    (fun shape middle ready awaits => ?_) follows
  unfold Grammar.continuation Grammar.property
  refine parses_bind (awaits_expect ready awaits isName) fun _ first ready found => ?_
  refine parses_bind (awaits_pass ready found.2) fun constant second ready awaits => ?_
  rcases property with ⟨⟨rfl, noEqual⟩ | ⟨may, equal, value, rfl, isEqual, derives, stops⟩, noCall⟩
    | derives
  · refine parses_ran (awaits.refusesIf noEqual) ?_
    rw [if_neg Bool.false_ne_true]
    refine parses_ran (awaits.refuses (noCall rfl)) ?_
    rw [if_neg Bool.false_ne_true]
    exact awaits_pass ready awaits
  · rw [may]
    refine parses_bind (awaits_accept ready awaits isEqual) ?_
    rintro _ third ready ⟨rfl, awaits⟩
    refine parses_bind (accepts.operand ready awaits derives stops (by decide) (by decide))
      fun shape fourth ready awaits => ?_
    exact awaits_pass ready awaits
  · obtain ⟨paren, behind, rfl, isParen, arguments⟩ := accepts_callSuffix accepts derives
    refine parses_ran (awaits.refusesIf fun _ => lacks_cons (by rw [isParen]; decide)) ?_
    rw [if_neg Bool.false_ne_true]
    refine parses_bind (awaits_accept ready awaits isParen) ?_
    rintro _ third ready ⟨rfl, awaits⟩
    refine parses_bind (arguments ready awaits) fun given fourth ready awaits => ?_
    exact awaits_pass ready awaits

omit declarations in
/-- Calls and properties. A method call is read together with the name of the method. -/
theorem follows_suffixes (accepts : grammar.Accepts) {tail : List Token}
    (low : level.rank ≤ Level.unary.rank) (derives : Derives known (.many suffix) tokens)
    (noCall : Lacks .leftParen tail) (noEqual : Lacks .equal tail)
    (follows : grammar.Follows known level tail rest) :
    grammar.Follows known level (tokens ++ tail) rest := by
  suffices both : grammar.Follows known level (tokens ++ tail) rest ∧
      ∀ dot name : Token, dot.kind = .dot → name.kind = .identifier →
        grammar.Follows known level (dot :: name :: (tokens ++ tail)) rest from both.1
  generalize whole : Rule.many suffix = many at derives
  induction derives with
  | stop =>
    refine ⟨follows, fun dot name isDot isName => ?_⟩
    exact follows_property accepts low isDot isName
      (Or.inl ⟨Or.inl ⟨rfl, fun _ => noEqual⟩, fun _ => noCall⟩) follows
  | @again _ first more isSuffix _ _ ih =>
    cases whole
    obtain ⟨follows, named⟩ := ih rfl
    simp only [suffix, derives_oneOf, List.mem_cons, List.not_mem_nil, or_false,
      exists_eq_or_imp, exists_eq_left] at isSuffix
    rw [List.append_assoc]
    rcases isSuffix with isCall | isProperty
    · refine ⟨follows_call accepts low isCall follows, fun dot name isDot isName => ?_⟩
      exact follows_property accepts low isDot isName (Or.inr isCall) follows
    · simp only [derives_row_cons, derives_row_nil, derives_word] at isProperty
      obtain ⟨_, _, rfl, ⟨second, rfl, isSecond⟩, _, _, rfl, ⟨other, rfl, isOther⟩, rfl⟩ := isProperty
      have behind := named second other isSecond isOther
      have alone : ∀ canAssign, Property known canAssign [] (second :: other :: (more ++ tail)) := by
        refine fun canAssign => Or.inl ⟨Or.inl ⟨rfl, fun _ => ?_⟩, fun _ => ?_⟩
        · exact lacks_cons (by rw [isSecond]; decide)
        · exact lacks_cons (by rw [isSecond]; decide)
      have nested : ∀ dot name : Token, dot.kind = .dot → name.kind = .identifier →
          grammar.Follows known level (dot :: name :: ([] ++ (second :: other :: (more ++ tail)))) rest :=
        fun dot name isDot isName => follows_property accepts low isDot isName (alone _) behind
      exact ⟨behind, nested⟩
  | _ => cases whole

end Climbing

section Operands

variable {grammar : Grammar} {known : Text → Prop} {level : Level} {tokens tail rest : List Token}
  {state : State}
  [operands : ∀ origin level, Keeps (Changes origin) (grammar.operand level)]
  [declarations : ∀ origin, Keeps (Changes origin) grammar.declaration]

/-- An expression is read from the tokens up to `rest`. -/
def Grammar.Enters (grammar : Grammar) (known : Text → Prop) (level : Level)
    (tokens rest : List Token) : Prop :=
  ∀ state, Ready state → Awaits known tokens state →
    Parses True (grammar.parseOperand level) state fun _ last => Awaits known rest last

theorem enters_opening {token : Token} {opening : Opening}
    (found : Opening.of? token.kind = some opening)
    (opens : ∀ middle, Ready middle → Awaits known tokens middle → middle.cursor.previous = token →
      Parses True (grammar.opening (level.rank ≤ Level.assignment.rank) opening) middle
        fun _ last => Awaits known tail last)
    (follows : grammar.Follows known level tail rest) :
    grammar.Enters known level (token :: tokens) rest := by
  intro state ready awaits
  rw [Grammar.parseOperand_eq]
  refine parses_andThen (fun _ origin => ?_) (awaits_advance ready awaits)
    fun _ first ready passed => parses_ran rfl ?_
  · refine Keeps.andThen inferInstance fun token => ?_
    split <;> infer_instance
  rw [passed.2, found]
  refine parses_bind (opens first ready passed.1 passed.2) fun shape second ready awaits => ?_
  exact follows grammar.bound shape second ready awaits

/-- An operand that is a single word. -/
theorem enters_word {token : Token} {opening : Opening}
    (found : Opening.of? token.kind = some opening)
    [rests : ∀ origin, Keeps (Unmoved True origin)
      (grammar.opening (level.rank ≤ Level.assignment.rank) opening)]
    (follows : grammar.Follows known level tail rest) :
    grammar.Enters known level (token :: tail) rest :=
  enters_opening found (fun _ ready awaits _ => awaits_pass ready awaits) follows

/-- A variable, and perhaps an assignment to it. -/
theorem enters_variable (accepts : grammar.Accepts) {name : Token} (isName : name.kind = .identifier)
    (noBrace : Lacks .leftBrace (tokens ++ tail))
    (assignment : Assignment known (level.rank ≤ Level.assignment.rank) tokens tail)
    (follows : grammar.Follows known level tail rest) :
    grammar.Enters known level (name :: (tokens ++ tail)) rest := by
  refine enters_opening (by rw [isName]; rfl) (fun middle ready awaits _ => ?_) follows
  unfold Grammar.opening Grammar.identifier
  refine parses_ran rfl (parses_ran (awaits.check_lacks noBrace) (parses_ran rfl ?_))
  exact accepts_namedVariable accepts _ ready awaits assignment

theorem enters_receiver (accepts : grammar.Accepts) {word : Token} (isSelf : word.kind = .selfWord)
    (follows : grammar.Follows known level tail rest) :
    grammar.Enters known level (word :: tail) rest := by
  refine enters_opening (by rw [isSelf]; rfl) (fun middle ready awaits _ => ?_) follows
  unfold Grammar.opening Grammar.receiver
  refine parses_ran rfl ?_
  refine parses_ite (fun _ => (parses_error ready fun _ => rfl).never) fun _ => parses_ran rfl ?_
  have alone : Assignment known false [] tail := Or.inl ⟨rfl, fun may => by cases may⟩
  refine parses_bind (accepts_namedVariable accepts _ ready awaits alone) fun shape last ready awaits =>
    parses_ran rfl (parses_pure ready awaits)

theorem enters_grouping (accepts : grammar.Accepts) {left right : Token}
    (isLeft : left.kind = .leftParen) (isRight : right.kind = .rightParen)
    (derives : Derives known expression tokens) (follows : grammar.Follows known level tail rest) :
    grammar.Enters known level (left :: (tokens ++ right :: tail)) rest := by
  refine enters_opening (by rw [isLeft]; rfl) (fun middle ready awaits _ => ?_) follows
  unfold Grammar.opening
  refine parses_bind (accepts_expression accepts ready awaits derives
    (stops_cons (by rw [isRight]; rfl))) fun shape first ready awaits => ?_
  refine parses_bind (awaits_expect ready awaits isRight) fun _ last ready found => ?_
  exact parses_pure ready found.2

/-- The name of a known struct, and what stands in its braces. -/
theorem structLiteral_cases (derives : Derives known (.symbol .structLiteral) tokens) :
    ∃ name fields, tokens = name :: fields ∧ name.kind = .identifier ∧ known name.text ∧
      Derives known (.row [.word .leftBrace, braceList (.symbol .initialiser), .word .rightBrace])
        fields := by
  rw [derives_symbol, production, derives_row_cons] at derives
  obtain ⟨_, fields, rfl, isName, derives⟩ := derives
  obtain ⟨name, rfl, isName, isKnown⟩ := derives_structName.mp isName
  exact ⟨name, fields, rfl, isName, isKnown, derives⟩

theorem enters_structLiteral (accepts : grammar.Accepts)
    (derives : Derives known (.symbol .structLiteral) tokens)
    (follows : grammar.Follows known level tail rest) :
    grammar.Enters known level (tokens ++ tail) rest := by
  obtain ⟨name, fields, rfl, isName, isKnown, braces⟩ := structLiteral_cases derives
  refine enters_opening (by rw [isName]; rfl) (fun middle ready awaits isPrevious => ?_) follows
  have braced : check .leftBrace middle = .ok true middle := by
    rw [derives_row_cons] at braces
    obtain ⟨_, _, rfl, word, -⟩ := braces
    obtain ⟨brace, rfl, isBrace⟩ := derives_word.mp word
    rw [awaits.check]
    simp [isBrace]
  rw [← awaits.known, State.known, Option.isSome_iff_exists] at isKnown
  obtain ⟨id, struct⟩ := isKnown
  unfold Grammar.opening Grammar.identifier
  refine parses_ran rfl (parses_ran braced (parses_ran rfl ?_))
  dsimp only
  rw [isPrevious, if_pos rfl, struct]
  exact accepts_structLiteral accepts id false ready awaits braces

theorem enters_heapStruct (accepts : grammar.Accepts) {word : Token} (isNew : word.kind = .newWord)
    (derives : Derives known (.symbol .structLiteral) tokens)
    (follows : grammar.Follows known level tail rest) :
    grammar.Enters known level (word :: (tokens ++ tail)) rest := by
  obtain ⟨name, fields, rfl, isName, isKnown, braces⟩ := structLiteral_cases derives
  refine enters_opening (by rw [isNew]; rfl) (fun middle ready awaits _ => ?_) follows
  unfold Grammar.opening Grammar.heapStruct
  refine parses_andThen (fun name origin => ?_) (awaits_expect ready awaits isName) ?_
  · refine Keeps.andThen inferInstance fun state => ?_
    split <;> infer_instance
  rintro _ first ready ⟨rfl, waits⟩
  rw [← waits.known, State.known, Option.isSome_iff_exists] at isKnown
  obtain ⟨id, struct⟩ := isKnown
  refine parses_ran rfl ?_
  rw [struct]
  exact accepts_structLiteral accepts id true ready waits braces

theorem enters_function (accepts : grammar.Accepts) {word : Token} (isFn : word.kind = .fnWord)
    (derives : Derives known function tokens) (follows : grammar.Follows known level tail rest) :
    grammar.Enters known level (word :: (tokens ++ tail)) rest := by
  refine enters_opening (by rw [isFn]; rfl) (fun middle ready awaits _ => ?_) follows
  unfold Grammar.opening Grammar.functionLiteral
  refine parses_bind (accepts_function accepts .function _ ready awaits derives)
    fun made first ready awaits => ?_
  exact awaits_pass ready awaits

theorem enters_primary (accepts : grammar.Accepts)
    (derives : Derives known (.symbol (.operand .primary)) tokens) (noBrace : Lacks .leftBrace tail)
    (noEqual : Lacks .equal tail) (follows : grammar.Follows known level tail rest) :
    grammar.Enters known level (tokens ++ tail) rest := by
  have literals : ∀ (origin : State) (canAssign : Bool),
      Keeps (Unmoved True origin) (grammar.opening canAssign .literal) := by
    intro origin canAssign
    unfold Grammar.opening
    dsimp only
    refine Keeps.andThen inferInstance fun token => ?_
    split <;> infer_instance
  have numbers : ∀ (origin : State) (canAssign : Bool),
      Keeps (Unmoved True origin) (grammar.opening canAssign .number) := by
    intro origin canAssign
    unfold Grammar.opening
    infer_instance
  have strings : ∀ (origin : State) (canAssign : Bool),
      Keeps (Unmoved True origin) (grammar.opening canAssign .string) := by
    intro origin canAssign
    unfold Grammar.opening
    infer_instance
  rw [derives_symbol] at derives
  simp only [production, derives_oneOf, List.mem_cons, List.not_mem_nil, or_false,
    exists_eq_or_imp, exists_eq_left, derives_word, derives_row_cons, derives_row_nil] at derives
  rcases derives with ⟨token, rfl, isKind⟩ | ⟨token, rfl, isKind⟩ | ⟨token, rfl, isKind⟩
    | ⟨token, rfl, isKind⟩ | ⟨token, rfl, isKind⟩ | ⟨token, rfl, isKind⟩ | ⟨token, rfl, isKind⟩
    | ⟨_, _, rfl, ⟨left, rfl, isLeft⟩, inner, _, rfl, derives, _, _, rfl, ⟨right, rfl, isRight⟩, rfl⟩
    | literal | ⟨_, _, rfl, ⟨word, rfl, isNew⟩, literal, _, rfl, derives, rfl⟩
    | ⟨_, _, rfl, ⟨word, rfl, isFn⟩, made, _, rfl, derives, rfl⟩
  · exact enters_word (by rw [isKind]; rfl) follows
  · exact enters_word (by rw [isKind]; rfl) follows
  · exact enters_word (by rw [isKind]; rfl) follows
  · exact enters_word (by rw [isKind]; rfl) follows
  · exact enters_word (by rw [isKind]; rfl) follows
  · exact enters_receiver accepts isKind follows
  · exact enters_variable accepts isKind noBrace (Or.inl ⟨rfl, fun _ => noEqual⟩) follows
  · simpa using enters_grouping accepts isLeft isRight derives follows
  · exact enters_structLiteral accepts literal follows
  · simpa using enters_heapStruct accepts isNew derives follows
  · simpa using enters_function accepts isFn derives follows

theorem enters_call (accepts : grammar.Accepts) (low : level.rank ≤ Level.unary.rank)
    (derives : Derives known (.symbol (.operand .call)) tokens) (noBrace : Lacks .leftBrace tail)
    (noEqual : Lacks .equal tail) (noCall : Lacks .leftParen tail)
    (follows : grammar.Follows known level tail rest) :
    grammar.Enters known level (tokens ++ tail) rest := by
  rw [derives_symbol] at derives
  simp only [production, derives_row_cons, derives_row_nil] at derives
  obtain ⟨first, _, rfl, primary, suffixes, _, rfl, derivesSuffixes, rfl⟩ := derives
  -- neither a brace nor an assignment stands behind the first operand
  have begins : ∀ kind, kind ≠ .leftParen → kind ≠ .dot → Lacks kind tail →
      Lacks kind (suffixes ++ tail) := by
    intro kind noParen noDot lacks
    rcases derives_many.mp derivesSuffixes with rfl | ⟨_, _, rfl, isSuffix, -⟩
    · exact lacks
    simp only [suffix, derives_oneOf, List.mem_cons, List.not_mem_nil, or_false,
      exists_eq_or_imp, exists_eq_left, derives_row_cons, derives_word] at isSuffix
    rcases isSuffix with ⟨_, _, rfl, ⟨paren, rfl, isParen⟩, -⟩ | ⟨_, _, rfl, ⟨dot, rfl, isDot⟩, -⟩
    · exact lacks_cons (by rw [isParen]; exact noParen.symm)
    · exact lacks_cons (by rw [isDot]; exact noDot.symm)
  rw [List.append_nil, List.append_assoc]
  exact enters_primary accepts primary (begins _ (by decide) (by decide) noBrace)
    (begins _ (by decide) (by decide) noEqual)
    (follows_suffixes accepts low derivesSuffixes noCall noEqual follows)

omit operands declarations in
theorem Stops.lacks_leftParen (stops : Stops level tokens) (low : level.rank ≤ Level.unary.rank) :
    Lacks .leftParen tokens := by
  intro token next isParen
  have looser := (stops token next).2.2 .call .call (by rw [isParen]; rfl)
  exact absurd (Nat.lt_of_lt_of_le looser low) (by decide)

theorem enters_unary (accepts : grammar.Accepts) (low : level.rank ≤ Level.unary.rank)
    (derives : Derives known (.symbol (.operand .unary)) tokens) (stops : Stops .unary tail)
    (follows : grammar.Follows known level tail rest) :
    grammar.Enters known level (tokens ++ tail) rest := by
  rw [derives_symbol] at derives
  simp only [production, derives_oneOf, List.mem_cons, List.not_mem_nil, or_false,
    exists_eq_or_imp, exists_eq_left, derives_row_cons, derives_row_nil] at derives
  rcases derives with ⟨signs, _, rfl, isSign, inner, _, rfl, derives, rfl⟩ | call
  · obtain ⟨sign, rfl, isUnary⟩ : ∃ sign : Token, signs = [sign] ∧
        Opening.of? sign.kind = some .unary := by
      rcases isSign with isSign | isSign
      all_goals
        obtain ⟨sign, same, isKind⟩ := derives_word.mp isSign
        exact ⟨sign, same, by rw [isKind]; rfl⟩
    rw [List.append_nil]
    refine enters_opening isUnary (fun middle ready awaits _ => parses_ran rfl ?_) follows
    refine parses_bind (accepts.operand ready awaits derives stops (by decide) (by decide))
      fun shape first ready awaits => ?_
    exact awaits_pass ready awaits
  · exact enters_call accepts low call stops.lacks_leftBrace stops.lacks_equal
      (stops.lacks_leftParen (by decide)) follows

omit operands declarations in
/-- An operator begins nothing that binds more tightly. -/
theorem stops_continuation {token : Token} {continuation : Continuation} {strength inner : Level}
    (found : Continuation.of? token.kind = some (continuation, strength))
    (below : strength.rank < inner.rank) : Stops inner (token :: rest) := by
  rintro _ ⟨⟩
  refine ⟨?_, ?_, fun _ _ again => ?_⟩
  · intro isEqual
    rw [isEqual] at found
    cases found
  · intro isBrace
    rw [isBrace] at found
    cases found
  · rw [found] at again
    cases again
    exact below

omit operands declarations in
theorem stops_operator {operator : Token} {inner : Level}
    (isOperator : operator.kind ∈ operators level) (below : level.rank < inner.rank) :
    Stops inner (operator :: rest) := by
  obtain ⟨continuation, isFound⟩ := operator_strength isOperator
  exact stops_continuation isFound below

omit operands declarations in
theorem joinedOperator {operator : List Token}
    (derives : Derives known (.oneOf ((operators level).map .word)) operator) :
    ∃ token, operator = [token] ∧ token.kind ∈ operators level := by
  rw [derives_oneOf] at derives
  obtain ⟨rule, member, derives⟩ := derives
  obtain ⟨kind, isOperator, rfl⟩ := List.mem_map.mp member
  obtain ⟨token, rfl, rfl⟩ := derives_word.mp derives
  exact ⟨token, rfl, isOperator⟩

omit operands declarations in
/-- An operand ends before the operators of a looser level. -/
theorem stops_links (tight : level.rank ≤ Level.factor.rank)
    (derives : Derives known (.many (.row [.oneOf ((operators level).map .word),
      .symbol (.operand level.tighter)])) tokens) (stops : Stops level rest) :
    Stops level.tighter (tokens ++ rest) := by
  have next := rank_tighter (Nat.lt_of_le_of_lt tight (by decide))
  rcases derives_many.mp derives with rfl | ⟨_, _, rfl, isLink, -⟩
  · exact stops.tighter (by omega)
  · rw [derives_row_cons] at isLink
    obtain ⟨_, _, rfl, word, -⟩ := isLink
    obtain ⟨operator, rfl, isOperator⟩ := joinedOperator word
    exact stops_operator isOperator (by omega)

omit declarations in
theorem accepts_shortCircuit (accepts : grammar.Accepts) (left : Shape) (skip : Opcode)
    (ready : Ready state) (awaits : Awaits known (tokens ++ rest) state)
    (derives : Derives known (.symbol (.operand level)) tokens) (stops : Stops level rest)
    (loose : Level.assignment.rank ≤ level.rank) (tight : level.rank ≤ Level.unary.rank) :
    Parses True (grammar.shortCircuit left skip level) state fun _ last => Awaits known rest last := by
  change Parses True (do
    let exit ← emitJump skip
    emit .pop
    beginBranch
    let right ← grammar.operand level
    endBranch
    patchJump exit
    return left.merge right) state _
  refine parses_bind (awaits_pass ready awaits) fun exit first ready awaits => ?_
  refine parses_bind (awaits_pass ready awaits) fun _ second ready awaits => ?_
  refine parses_bind (awaits_pass ready awaits) fun _ third ready awaits => ?_
  refine parses_bind (accepts.operand ready awaits derives stops loose tight)
    fun right fourth ready awaits => ?_
  exact awaits_pass ready awaits

omit declarations in
/-- The operators of a level and their right operands. The right operand of `and` and `or` takes
all that follows on its level. -/
theorem follows_links (accepts : grammar.Accepts) {inner : Level}
    (loose : Level.or.rank ≤ inner.rank) (tight : inner.rank ≤ Level.factor.rank)
    (below : level.rank ≤ inner.rank)
    (derives : Derives known (.many (.row [.oneOf ((operators inner).map .word),
      .symbol (.operand inner.tighter)])) tokens) (stops : Stops inner tail)
    (follows : grammar.Follows known level tail rest) :
    grammar.Follows known level (tokens ++ tail) rest := by
  have next := rank_tighter (Nat.lt_of_le_of_lt tight (by decide))
  have high : inner.tighter.rank ≤ Level.unary.rank := by
    rw [next]
    exact Nat.succ_le_succ tight
  generalize whole : Rule.many _ = many at derives
  induction derives with
  | stop => exact follows
  | @again _ first more isLink links _ ih =>
    cases whole
    simp only [derives_row_cons, derives_row_nil] at isLink
    obtain ⟨_, _, rfl, word, right, _, rfl, derivesRight, rfl⟩ := isLink
    obtain ⟨operator, rfl, isOperator⟩ := joinedOperator word
    obtain ⟨continuation, found⟩ := operator_strength isOperator
    have joint : Derives known (.symbol (.operand inner)) (right ++ more) := by
      rw [derives_symbol, production_joined loose tight]
      have both := Derives.next derivesRight (.next links .none)
      rwa [List.append_nil] at both
    simp only [List.append_nil, List.cons_append, List.nil_append, List.append_assoc]
    rcases continuation_cases found with ⟨rfl, rfl, -⟩ | ⟨rfl, rfl, -⟩ | ⟨rfl, rfl, -⟩
      | ⟨rfl, rfl, -⟩ | ⟨rfl, -, -, -⟩
    · exact absurd tight (by decide)
    · exact absurd tight (by decide)
    · refine follows_operation found below (fun shape middle ready awaits => ?_) follows
      rw [← List.append_assoc] at awaits
      exact accepts_shortCircuit accepts shape _ ready awaits joint stops (by decide) (by decide)
    · refine follows_operation found below (fun shape middle ready awaits => ?_) follows
      rw [← List.append_assoc] at awaits
      exact accepts_shortCircuit accepts shape _ ready awaits joint stops (by decide) (by decide)
    · refine follows_operation found below (fun shape middle ready awaits => ?_) (ih rfl)
      unfold Grammar.continuation
      refine parses_ran rfl ?_
      refine parses_bind (accepts.operand ready awaits derivesRight
        (stops_links tight links stops)
        (by rw [next]; exact Nat.le_trans (by decide) (Nat.succ_le_succ loose)) high)
        fun shape first ready awaits => ?_
      exact awaits_pass ready awaits
  | _ => cases whole

/-- Operands of a level, wherever they stand in an expression. -/
theorem enters_operand (accepts : grammar.Accepts) {inner : Level}
    (loose : Level.or.rank ≤ inner.rank) (tight : inner.rank ≤ Level.unary.rank)
    (below : level.rank ≤ inner.rank) (derives : Derives known (.symbol (.operand inner)) tokens)
    (stops : Stops inner tail) (follows : grammar.Follows known level tail rest) :
    grammar.Enters known level (tokens ++ tail) rest := by
  induction apart : Level.unary.rank - inner.rank generalizing inner tokens tail with
  | zero =>
    have same : inner = .unary := by
      cases inner <;> simp_all [Level.rank]
    subst same
    exact enters_unary accepts below derives stops follows
  | succ count ih =>
    have high : inner.rank ≤ Level.factor.rank := by
      simp only [Level.rank] at apart ⊢
      omega
    have next := rank_tighter (Nat.lt_of_le_of_lt high (by decide))
    rw [derives_symbol, production_joined loose high] at derives
    simp only [joined, derives_row_cons, derives_row_nil] at derives
    obtain ⟨first, _, rfl, derivesFirst, links, _, rfl, derivesLinks, rfl⟩ := derives
    rw [List.append_nil, List.append_assoc]
    exact ih (by omega) (by omega) (by omega) derivesFirst (stops_links high derivesLinks stops)
      (follows_links accepts loose high below derivesLinks stops follows) (by omega)

/-- An assignment, or something without one. -/
theorem enters_assignment (accepts : grammar.Accepts)
    (derives : Derives known (.symbol (.operand .assignment)) tokens)
    (stops : Stops .assignment rest) :
    grammar.Enters known .assignment (tokens ++ rest) rest := by
  have ends : grammar.Follows known .assignment rest rest := follows_nothing stops
  rw [derives_symbol] at derives
  simp only [production, derives_oneOf, List.mem_cons, List.not_mem_nil, or_false,
    exists_eq_or_imp, exists_eq_left, derives_row_cons, derives_row_nil, derives_word,
    derives_optional] at derives
  rcases derives with ⟨target, _, rfl, isTarget, _, _, rfl, ⟨name, rfl, isName⟩, _, _, rfl,
    ⟨equal, rfl, isEqual⟩, value, _, rfl, derivesValue, rfl⟩ | or
  · have assignment : Assignment known (Level.assignment.rank ≤ Level.assignment.rank)
        (equal :: value) rest := Or.inr ⟨rfl, equal, value, rfl, isEqual, derivesValue, stops⟩
    rcases isTarget with rfl | ⟨call, _, rfl, derivesCall, _, _, rfl, ⟨dot, rfl, isDot⟩, rfl⟩
    · have whole := enters_variable accepts isName (lacks_cons (by rw [isEqual]; decide)) assignment
        ends
      simpa using whole
    · have property : Property known (Level.assignment.rank ≤ Level.assignment.rank)
          (equal :: value) rest := Or.inl ⟨assignment, fun empty => by cases empty⟩
      have behind := follows_property accepts (by decide) isDot isName property ends
      have whole := enters_call accepts (by decide) derivesCall
        (lacks_cons (by rw [isDot]; decide)) (lacks_cons (by rw [isDot]; decide))
        (lacks_cons (by rw [isDot]; decide)) behind
      simpa using whole
  · exact enters_operand accepts (by decide) (by decide) (by decide) or
      (stops.tighter (by decide)) ends

theorem accepts_parseOperand (accepts : grammar.Accepts) (ready : Ready state)
    (awaits : Awaits known (tokens ++ rest) state)
    (derives : Derives known (.symbol (.operand level)) tokens) (stops : Stops level rest)
    (loose : Level.assignment.rank ≤ level.rank) (tight : level.rank ≤ Level.unary.rank) :
    Parses True (grammar.parseOperand level) state fun _ last => Awaits known rest last := by
  rcases Nat.eq_or_lt_of_le loose with same | above
  · have isAssignment : level = .assignment := by
      cases level <;> simp_all [Level.rank]
    subst isAssignment
    exact enters_assignment accepts derives stops state ready awaits
  · exact enters_operand accepts above tight (Nat.le_refl _) derives stops (follows_nothing stops)
      state ready awaits

end Operands

end ScriptMachine.Compiler
