import ScriptMachine.Proofs.Compiler.Halting
import ScriptMachine.Proofs.Compiler.Retaining
import ScriptMachine.Proofs.Compiler.Units

set_option autoImplicit false
set_option synthInstance.maxSize 20000

/- The compiler comes to an end on every list of tokens whose last word needs nothing behind it. A
production that is nested in another one has a word less to read, and so it gets by with the depth
that is left; at the end, where no word is left, the last word is read again and must not nest. A
`new` does when the text of the end is the name of a struct, and then no depth is enough. -/
namespace ScriptMachine.Compiler

namespace Grammar

/-- The productions one level further down cope with at most `room` words. -/
class Copes (stream : Stream) (room : Nat) (grammar : Grammar) : Prop where
  bound : room < grammar.bound
  operand : ∀ level, Eats stream room (grammar.operand level)
  statement : Eats stream room grammar.statement
  declaration : Eats stream room grammar.declaration

/-- They cope where there is a word to read. -/
class Guarded (stream : Stream) (room : Nat) (grammar : Grammar) : Prop where
  bound : room < grammar.bound
  copes : 0 < room → Copes stream room grammar

instance (stream : Stream) (room : Nat) (grammar : Grammar) [copes : Copes stream room grammar] :
    Guarded stream room grammar :=
  ⟨copes.bound, fun _ => copes⟩

section Functions

variable {stream : Stream} {room : Nat} (grammar : Grammar) [guarded : Guarded stream room grammar]

instance advances_rounds {σ : Type} (body : σ → Compile (σ × Bool)) (value : σ)
    [each : ∀ value, Pays stream room (body value)] :
    Advances stream room (iterate grammar.bound value body) :=
  advances_iterate guarded.bound each value

instance advances_block : Advances stream room grammar.block := by
  have round := fun _ : Unit => pays_upTo .rightBrace () (fun _ => ())
    fun waiting => (guarded.copes waiting).declaration
  unfold block
  exact (advances_iterate guarded.bound round ()).andThen fun _ => inferInstance

instance advances_parameters : Advances stream room grammar.parameters := by
  unfold parameters
  dsimp only
  infer_instance

instance advances_function (kind : FunctionKind) (name : Text) :
    Advances stream room (grammar.function kind name) := by
  unfold Grammar.function
  infer_instance

end Functions

section Variables

/- A name needs no more than a word for what is assigned to it. -/

variable {stream : Stream} {room : Nat} (grammar : Grammar) [guarded : Guarded stream room grammar]

include guarded in
theorem advances_assigned {α : Type} {rest : Shape → Compile α}
    [goesOn : ∀ value, Advances stream room (rest value)] (waiting : 0 < room) :
    Advances stream room (grammar.expression >>= rest) := by
  have operand := (guarded.copes waiting).operand .assignment
  unfold expression
  infer_instance

instance advances_localVariable (slot : Nat) (canAssign : Bool) :
    Advances stream room (grammar.localVariable slot canAssign) := by
  unfold localVariable
  dsimp only
  exact advances_acceptIf grammar.advances_assigned inferInstance

instance advances_upvalueVariable (index : Nat) (canAssign : Bool) :
    Advances stream room (grammar.upvalueVariable index canAssign) := by
  unfold upvalueVariable
  exact advances_acceptIf grammar.advances_assigned inferInstance

instance advances_globalVariable (name : Token) (canAssign : Bool) :
    Advances stream room (grammar.globalVariable name canAssign) := by
  have assigns : ∀ value : Shape, Advances stream room (modify fun state : State =>
      let known := (state.globals[name.text]?.map Global.shape).getD {}
      { state with
        globals := state.globals.insert name.text ⟨known.merge value.stored, true⟩ } :
      Compile Unit) :=
    fun _ => advances_modify (fun _ => rfl) fun _ _ => rfl
  unfold globalVariable
  refine Advances.andThen inferInstance fun constant => ?_
  refine advances_acceptIf grammar.advances_assigned ?_
  refine Advances.andThen inferInstance fun _ => Advances.andThen inferInstance fun state => ?_
  split <;> infer_instance

instance advances_namedVariable (name : Token) (canAssign : Bool) :
    Advances stream room (grammar.namedVariable name canAssign) := by
  unfold namedVariable
  refine Advances.andThen inferInstance fun found => ?_
  split
  · infer_instance
  · refine Advances.andThen inferInstance fun captured => ?_
    split <;> infer_instance

instance advances_receiver : Advances stream room grammar.receiver := by
  unfold receiver
  infer_instance

instance advances_functionLiteral : Advances stream room grammar.functionLiteral := by
  unfold functionLiteral
  infer_instance

end Variables

section Expressions

variable {stream : Stream} {room : Nat} (grammar : Grammar) [copes : Copes stream room grammar]

instance eats_expression : Eats stream room grammar.expression :=
  copes.operand .assignment

instance advances_operand (level : Level) : Advances stream room (grammar.operand level) := by
  have operand := copes.operand level
  infer_instance

instance advances_arguments : Advances stream room grammar.arguments := by
  unfold arguments
  dsimp only
  infer_instance

instance advances_initialiser (type : StructType) (onHeap : Bool) (layout : List Nat) :
    Advances stream room (grammar.initialiser type onHeap layout) := by
  unfold initialiser
  refine Advances.andThen inferInstance fun field => ?_
  dsimp only
  cases type.findField field.text <;> infer_instance

instance advances_structLiteral (id : StructId) (onHeap : Bool) :
    Advances stream room (grammar.structLiteral id onHeap) := by
  unfold structLiteral
  dsimp only
  infer_instance

end Expressions

section Openings

variable {stream : Stream} {room : Nat} (grammar : Grammar)

/-- A struct literal takes a brace behind the name, which is not there at the end. -/
instance advances_identifier [guarded : Guarded stream room grammar] (canAssign : Bool) :
    Advances stream room (grammar.identifier canAssign) := by
  unfold identifier
  refine Advances.andThen inferInstance fun name => ?_
  refine advances_check (fun waiting => ?_) ?_
  · have copes := guarded.copes waiting
    refine Advances.andThen inferInstance fun state => ?_
    dsimp only
    split <;> infer_instance
  · refine Advances.andThen inferInstance fun state => ?_
    exact inferInstanceAs (Advances stream room (grammar.namedVariable name canAssign))

instance advances_heapStruct [copes : Copes stream room grammar] :
    Advances stream room grammar.heapStruct := by
  unfold heapStruct
  refine Advances.andThen inferInstance fun name => ?_
  refine Advances.andThen inferInstance fun state => ?_
  split <;> infer_instance

/-- The openings that need nothing behind them. -/
theorem advances_leaf [guarded : Guarded stream room grammar] (canAssign : Bool) {opening : Opening}
    (leaf : opening ≠ .grouping ∧ opening ≠ .unary ∧ opening ≠ .heapStruct) :
    Advances stream room (grammar.opening canAssign opening) := by
  obtain ⟨noGrouping, noUnary, noStruct⟩ := leaf
  cases opening with
  | grouping => exact absurd rfl noGrouping
  | unary => exact absurd rfl noUnary
  | heapStruct => exact absurd rfl noStruct
  | «variable» => exact inferInstanceAs (Advances stream room (grammar.identifier canAssign))
  | receiver => exact inferInstanceAs (Advances stream room grammar.receiver)
  | function => exact inferInstanceAs (Advances stream room grammar.functionLiteral)
  | string | number =>
    unfold Grammar.opening
    infer_instance
  | literal =>
    unfold Grammar.opening
    refine Advances.andThen inferInstance fun token => ?_
    dsimp only
    split <;> infer_instance

instance advances_opening [copes : Copes stream room grammar] (canAssign : Bool)
    (opening : Opening) : Advances stream room (grammar.opening canAssign opening) := by
  cases opening with
  | heapStruct => exact inferInstanceAs (Advances stream room grammar.heapStruct)
  | grouping | unary =>
    unfold Grammar.opening
    infer_instance
  | «variable» | string | number | literal | receiver | function =>
    exact grammar.advances_leaf canAssign (by decide)

end Openings

section Continuations

variable {stream : Stream} {room : Nat} (grammar : Grammar)

section Behind

variable [copes : Copes stream room grammar]

instance advances_shortCircuit (left : Shape) (skip : Opcode) (level : Level) :
    Advances stream room (grammar.shortCircuit left skip level) := by
  unfold shortCircuit
  infer_instance

instance advances_call (callee : Shape) : Advances stream room (grammar.call callee) := by
  unfold Grammar.call
  refine Advances.andThen inferInstance fun given => ?_
  dsimp only
  split <;> infer_instance

instance advances_property (target : Shape) (canAssign : Bool) :
    Advances stream room (grammar.property target canAssign) := by
  unfold property
  infer_instance

instance advances_continuation (left : Shape) (canAssign : Bool) (level : Level)
    (continuation : Continuation) :
    Advances stream room (grammar.continuation left canAssign level continuation) := by
  unfold Grammar.continuation
  split <;> infer_instance

end Behind

/-- One round of what follows an operand; nothing follows at the end. -/
instance pays_continuations [guarded : Guarded stream room grammar] (level : Level)
    (canAssign : Bool) (shape : Shape) : Pays stream room (do
      match Continuation.of? (← here).kind with
      | none => return (shape, false)
      | some (continuation, strength) =>
        if level.rank ≤ strength.rank then
          advance
          return (← grammar.continuation shape canAssign strength continuation, true)
        else
          return (shape, false) : Compile (Shape × Bool)) where
  halts {state} place within := by
    refine halts_ran rfl ?_
    by_cases isFinish : state.cursor.here.kind = .finish
    · rw [isFinish]
      exact ⟨place, Nat.le_refl _, fun more => by cases more⟩
    · have waiting := place.left_pos isFinish
      have copes := guarded.copes (by omega)
      have nears : ∀ found : Option (Continuation × Level), Nears stream room (match found with
          | none => return (shape, false)
          | some (continuation, strength) =>
            if level.rank ≤ strength.rank then do
              advance
              return (← grammar.continuation shape canAssign strength continuation, true)
            else
              return (shape, false) : Compile (Shape × Bool)) := by
        intro found
        split <;> infer_instance
      exact (nears (Continuation.of? state.cursor.here.kind)).pays place within waiting

end Continuations

end Grammar

/-- The last word can stand last. What a struct is named by is not the text of the token at the end,
where a `new` would look it up. -/
structure Stream.Safe (stream : Stream) : Prop where
  last : ∀ word, stream.words.getLast? = some word →
    word.kind ≠ .leftParen ∧ word.kind ≠ .minus ∧ word.kind ≠ .bang
  named : stream.EndsNew → ∀ word name, [word, name] <:+: stream.words →
    word.kind = .structWord → name.text ≠ stream.finish.text

namespace Grammar

section Operands

variable {stream : Stream} {room : Nat} (grammar : Grammar)

/-- The words that begin something nested. -/
theorem of?_nests {kind : TokenKind} {opening : Opening} (found : Opening.of? kind = some opening) :
    (opening = .grouping → kind = .leftParen) ∧
      (opening = .unary → kind = .minus ∨ kind = .bang) ∧
      (opening = .heapStruct → kind = .newWord) := by
  cases kind <;> cases found <;> decide

/-- The struct that the last word asks for is looked for under the name of the end. -/
theorem halts_heapStruct_end {state : State} (place : stream.At state) (nothing : state.left = 0)
    (endsNew : stream.EndsNew) :
    Halts grammar.heapStruct state fun _ after => stream.At after ∧ after.left ≤ state.left := by
  unfold heapStruct
  refine halts_bind (halts_expect place _) fun name middle expected => ?_
  obtain ⟨isHere, place', fewer⟩ := expected
  refine halts_ran rfl ?_
  rw [isHere, place.here_finish nothing, place'.unknown endsNew]
  have complains : Advances stream state.left (do
      errorAt stream.finish (.undefinedStruct stream.finish.text)
      return {} : Compile Shape) := inferInstance
  exact (complains.halts place' fewer).fewer fewer

/-- At the end the last word is taken for an operand once more. -/
theorem halts_opening_end (safe : stream.Safe) [guarded : Guarded stream 0 grammar] {state : State}
    (place : stream.At state) (nothing : state.left = 0) {opening : Opening}
    (found : Opening.of? state.cursor.previous.kind = some opening) (canAssign : Bool) :
    Halts (grammar.opening canAssign opening) state fun _ after =>
      stream.At after ∧ after.left ≤ state.left := by
  have last : stream.words.getLast? = some state.cursor.previous := by
    rcases place.previous_last nothing with last | isFinish
    · exact last
    · rw [isFinish] at found
      cases found
  obtain ⟨noParen, noMinus, noBang⟩ := safe.last _ last
  obtain ⟨grouping, unary, heapStruct⟩ := of?_nests found
  by_cases isStruct : opening = .heapStruct
  · rw [isStruct]
    exact grammar.halts_heapStruct_end place nothing ⟨_, last, heapStruct isStruct⟩
  · have leaf : opening ≠ .grouping ∧ opening ≠ .unary ∧ opening ≠ .heapStruct := by
      refine ⟨fun isGrouping => noParen (grouping isGrouping), fun isUnary => ?_, isStruct⟩
      exact (unary isUnary).elim noMinus noBang
    exact (grammar.advances_leaf canAssign leaf).halts place (Nat.le_of_eq nothing)

/-- An operand passes a word before anything is nested in it. -/
theorem eats_parseOperand (safe : stream.Safe) (bound : 0 < grammar.bound)
    (copes : ∀ less < room, Copes stream less grammar) (level : Level) :
    Eats stream room (grammar.parseOperand level) where
  halts {state} place within := by
    unfold parseOperand
    refine halts_bind (halts_advance place) fun _ next advanced => ?_
    rcases advanced with ⟨nothing, rfl⟩ | stepped
    · have guarded : Guarded stream 0 grammar := ⟨bound, fun waiting => by cases waiting⟩
      refine halts_ran rfl ?_
      split
      · have complains : Advances stream 0 (do
            error (.expected (ascii "expression"))
            return {} : Compile Shape) := inferInstance
        exact (complains.halts place (Nat.le_of_eq nothing)).fewer (by omega)
      · next opening found =>
        dsimp only
        refine halts_bind (grammar.halts_opening_end safe place nothing found _) ?_
        rintro first middle ⟨place, fewer⟩
        exact (@Advances.halts _ stream 0 _ inferInstance _ place (by omega)).fewer (by omega)
    · have fewer := stepped.left
      have copes := copes next.left (by omega)
      refine Halts.fewer (@Advances.halts _ stream next.left _
        (Advances.andThen inferInstance fun token => ?rest) _ stepped.place (Nat.le_refl _))
        (by omega)
      split
      · infer_instance
      · dsimp only
        infer_instance

end Operands

section Statements

variable {stream : Stream} {room : Nat} (grammar : Grammar)

section Nested

variable [copes : Copes stream room grammar]

instance advances_statement : Advances stream room grammar.statement := by
  have statement := copes.statement
  infer_instance

instance advances_defineGlobal (name : Text) (shape : Shape) : Advances stream room
    (modify fun state : State =>
      { state with globals := state.globals.insert name ⟨shape, false⟩ } : Compile Unit) :=
  advances_modify (fun _ => rfl) fun _ _ => rfl

instance advances_varDeclaration : Advances stream room grammar.varDeclaration := by
  unfold varDeclaration
  dsimp only
  infer_instance

instance advances_expressionStatement : Advances stream room grammar.expressionStatement := by
  unfold expressionStatement
  infer_instance

instance advances_printStatement : Advances stream room grammar.printStatement := by
  unfold printStatement
  infer_instance

instance advances_ifStatement : Advances stream room grammar.ifStatement := by
  unfold ifStatement
  infer_instance

instance advances_whileStatement : Advances stream room grammar.whileStatement := by
  unfold whileStatement
  infer_instance

instance advances_forCondition : Advances stream room grammar.forCondition := by
  unfold forCondition
  infer_instance

instance advances_forIncrement (condition : Nat) :
    Advances stream room (grammar.forIncrement condition) := by
  unfold forIncrement
  infer_instance

instance advances_forStatement : Advances stream room grammar.forStatement := by
  have leaves : ∀ exit : Option Nat, Advances stream room (match exit with
      | some exit => do
        patchJump exit
        emit .pop
        endScope
      | none => endScope : Compile Unit) := by
    intro exit
    cases exit <;> dsimp only <;> infer_instance
  unfold forStatement
  dsimp only
  infer_instance

instance advances_returnStatement : Advances stream room grammar.returnStatement := by
  have complains : ∀ (keyword : Token) (struct : Option StructId), Advances stream room (do
      let name ← match struct with
        | some id => structName id
        | none => pure (ascii "struct")
      errorAt keyword (.returnedStruct name)
      let _ ← expect .semicolon "';' after return value"
      emit .return : Compile Unit) := by
    intro keyword struct
    cases struct <;> dsimp only <;> infer_instance
  unfold returnStatement
  dsimp only
  infer_instance

end Nested

theorem eats_parseStatement (operands : ∀ level, Eats stream room (grammar.operand level))
    (copes : ∀ less < room, Copes stream less grammar) :
    Eats stream room grammar.parseStatement := by
  have statement : Eats stream room grammar.expressionStatement := by
    have operand := operands .assignment
    unfold expressionStatement expression
    infer_instance
  unfold parseStatement
  iterate 6
    refine eats_take (fun less fewer => ?_) ?_
    · have copes := copes less fewer
      infer_instance
  exact statement

end Statements

section Declarations

variable {stream : Stream} {room : Nat} (grammar : Grammar)

theorem advances_staged {change : Staged → Staged}
    (structs : ∀ staged, (change staged).structs = staged.structs) :
    Advances stream room (modifyStaged change) := by
  refine advances_modify (fun _ => rfl) fun state name => ?_
  simp only [State.findStruct, structs]

instance (struct : Text) (fields : List Text) :
    Advances stream room (fieldDeclaration struct fields) := by
  unfold fieldDeclaration
  dsimp only
  infer_instance

instance (trait : TraitType) (struct : StructId) (name : Text) (method : Token)
    (prototype : ObjectId) (arity : Nat) :
    Advances stream room (stageMethod trait struct name method prototype arity) := by
  have stages : ∀ method : StagedMethod, Advances stream room
      (modifyStaged fun staged => { staged with methods := staged.methods ++ [method] }) :=
    fun _ => advances_staged fun _ => rfl
  unfold stageMethod
  split
  · infer_instance
  · split
    · infer_instance
    · refine Advances.andThen inferInstance fun state => ?_
      split <;> infer_instance

instance (header : ImplHeader) (provided : List Text) :
    Advances stream room (stageImpl header provided) := by
  have stages : ∀ impl : StructId × Text, Advances stream room
      (modifyStaged fun staged => { staged with impls := staged.impls ++ [impl] }) :=
    fun _ => advances_staged fun _ => rfl
  unfold stageImpl
  split <;> infer_instance

/-- What an impl is for, behind the names in its header. -/
instance advances_implTarget (traitName typeName : Token) : Advances stream room (do
    let trait := (← get).findTrait traitName.text
    if trait.isNone then
      errorAt traitName (.undefinedTrait traitName.text)
    let struct := (← get).findStruct typeName.text
    if struct.isNone then
      errorAt typeName (.undefinedStruct typeName.text)
    match trait, struct with
    | some trait, some struct =>
      if (← get).implements struct trait.name then
        errorAt traitName (.alreadyImplemented trait.name (← structName struct))
    | _, _ => pure ()
    return { trait, struct, typeName } : Compile ImplHeader) := by
  refine Advances.andThen inferInstance fun state => ?_
  extract_lets trait afterTrait
  have fromTrait : ∀ value, Advances stream room (afterTrait value) := by
    intro value
    refine Advances.andThen inferInstance fun state => ?_
    clear_value trait
    generalize state.findStruct typeName.text = struct
    cases trait <;> cases struct <;> dsimp only <;> infer_instance
  clear_value afterTrait
  infer_instance

instance : Advances stream room implHeader := by
  unfold implHeader
  infer_instance

section Bodies

variable [guarded : Guarded stream room grammar]

instance advances_signatureArity : Advances stream room grammar.signatureArity := by
  unfold signatureArity
  infer_instance

/-- One entry of a body that is a list of functions. -/
theorem eats_entry {α : Type} {what : String} {provided : α} {entry : Compile α}
    (reads : Advances stream room entry) : Eats stream room (do
      if !(← accept .fnWord) then
        errorHere (.expected (ascii what))
        advance
        return provided
      else
        entry : Compile α) :=
  eats_unless (fun _ fewer => reads.smaller (Nat.le_of_lt fewer))
    (Eats.behind inferInstance fun _ => inferInstance)

instance eats_signature (trait : Text) (signatures : List Signature) :
    Eats stream room (grammar.signature trait signatures) := by
  unfold signature
  exact eats_entry inferInstance

instance advances_traitDeclaration : Advances stream room grammar.traitDeclaration := by
  have stages : ∀ trait : TraitType, Advances stream room
      (modifyStaged fun staged => { staged with traits := staged.traits ++ [trait] }) :=
    fun _ => advances_staged fun _ => rfl
  have rounds : ∀ (name : Text) (signatures : List Signature), Pays stream room (do
      if (← check .rightBrace) || (← atEnd) then return (signatures, false)
      return (← grammar.signature name signatures, true) : Compile (List Signature × Bool)) :=
    fun name signatures => pays_upTo .rightBrace signatures id fun _ => inferInstance
  unfold traitDeclaration
  dsimp only
  infer_instance

instance eats_implMethod (header : ImplHeader) (provided : List Text) :
    Eats stream room (grammar.implMethod header provided) := by
  unfold implMethod
  refine eats_entry (Advances.andThen inferInstance fun method => ?_)
  refine Advances.andThen inferInstance fun made => ?_
  dsimp only
  cases header.trait <;> cases header.struct <;> dsimp only <;> infer_instance

instance advances_implDeclaration : Advances stream room grammar.implDeclaration := by
  have types : ∀ struct : Option StructId, Advances stream room
      (modify fun state : State => { state with implType := struct } : Compile Unit) :=
    fun _ => advances_modify (fun _ => rfl) fun _ _ => rfl
  have rounds : ∀ (header : ImplHeader) (provided : List Text), Pays stream room (do
      if (← check .rightBrace) || (← atEnd) then return (provided, false)
      return (← grammar.implMethod header provided, true) : Compile (List Text × Bool)) :=
    fun header provided => pays_upTo .rightBrace provided id fun _ => inferInstance
  unfold implDeclaration
  dsimp only
  infer_instance

instance advances_fnDeclaration : Advances stream room grammar.fnDeclaration := by
  unfold fnDeclaration
  dsimp only
  infer_instance

end Bodies

section Structs

variable {state : State}

/-- The struct that is named behind a `struct` word is not the one a last `new` looks for. -/
theorem nameable_here (safe : stream.Safe) (place : stream.At state)
    (behind : ∃ word rest, state.cursor.passed = word :: rest ∧ word.kind = .structWord)
    (endsNew : stream.EndsNew) : state.cursor.here.text ≠ stream.finish.text := by
  obtain ⟨word, rest, passed, isStruct⟩ := behind
  have words := place.words
  rw [passed, List.reverse_cons, List.append_assoc, List.singleton_append] at words
  by_cases isFinish : state.cursor.here.kind = .finish
  · have nothing : state.cursor.unread = [] := wordsOf_finish isFinish
    obtain ⟨last, isLast, isNew⟩ := endsNew
    rw [← words, nothing, List.getLast?_append, List.getLast?_singleton] at isLast
    cases isLast
    rw [isStruct] at isNew
    cases isNew
  · rw [place.unread_here isFinish] at words
    refine safe.named endsNew word _ ⟨rest.reverse, wordsOf state.cursor.ahead, ?_⟩ isStruct
    rw [← words]
    simp

/-- Declaring a struct under a name that the last word does not look for. -/
theorem advances_stageStruct {type : StructType}
    (nameable : stream.EndsNew → type.name ≠ stream.finish.text) : Advances stream room
    (modifyStaged fun staged => { staged with structs := staged.structs.push type }) where
  halts {state} place _ := by
    refine ⟨⟨place.words, place.finish, place.legible, fun endsNew => ?_⟩, Nat.le_refl _⟩
    refine Option.not_isSome_iff_eq_none.mp fun isKnown => ?_
    have named : state.known stream.finish.text ∨ type.name = stream.finish.text := by
      rw [← congrFun (known_pushed state type)]
      exact isKnown
    rcases named with before | isNew
    · rw [State.known, place.unknown endsNew] at before
      cases before
    · exact nameable endsNew isNew

theorem halts_structDeclaration (safe : stream.Safe) [guarded : Guarded stream room grammar]
    (place : stream.At state) (within : state.left ≤ room)
    (behind : ∃ word rest, state.cursor.passed = word :: rest ∧ word.kind = .structWord) :
    Halts grammar.structDeclaration state fun _ after =>
      stream.At after ∧ after.left ≤ state.left := by
  unfold structDeclaration
  refine halts_ran rfl ?_
  extract_lets fields declares
  -- the check before the name may complain, which leaves the cursor where it is
  have checked : ∀ middle : State, stream.At middle → middle.cursor = state.cursor →
      Halts (declares ()) middle fun _ after => stream.At after ∧ after.left ≤ state.left := by
    intro middle place cursor
    have same : middle.left = state.left := left_of_cursor cursor
    refine halts_bind (halts_expect place _) fun name next expected => ?_
    obtain ⟨isHere, place', fewer⟩ := expected
    have nameable : stream.EndsNew → name.text ≠ stream.finish.text := by
      rw [isHere]
      exact nameable_here safe place (cursor ▸ behind)
    have stages : ∀ fields, Advances stream room (modifyStaged fun staged =>
        { staged with structs := staged.structs.push { name := name.text, fields } }) :=
      fun _ => advances_stageStruct nameable
    dsimp only
    exact (@Advances.halts _ stream room _ inferInstance _ place' (by omega)).fewer (by omega)
  split
  · refine halts_bind (halts_ran rfl (halts_errorAt _ _)) ?_
    rintro _ middle ⟨cursor, known⟩
    exact checked middle (place.of_same cursor known) cursor
  · exact checked state place rfl

/-- A declaration passes a word before anything is nested in it. -/
theorem eats_checked {α : Type} {kind : TokenKind} {test : State → Bool} {yes no : Compile α}
    (takes : ∀ less < room, Advances stream less yes) (skips : Eats stream room no) :
    Eats stream room (do
      if (← check kind) && test (← get) then
        advance
        yes
      else no) where
  halts {state} place within := by
    refine halts_ran rfl (halts_ran rfl ?_)
    split
    · next holds =>
      simp only [Bool.and_eq_true, bne_iff_ne] at holds
      have waiting := place.left_pos holds.1.2
      refine halts_bind (halts_advance place) fun _ next advanced => ?_
      rcases advanced with ⟨nothing, -⟩ | stepped
      · omega
      · have fewer := stepped.left
        exact ((takes next.left (by omega)).halts stepped.place (Nat.le_refl _)).fewer (by omega)
    · exact skips.halts place within

theorem eats_parseDeclaration (safe : stream.Safe) (bound : room < grammar.bound)
    (operands : ∀ level, Eats stream room (grammar.operand level))
    (copes : ∀ less < room, Copes stream less grammar) :
    Eats stream room grammar.parseDeclaration := by
  have statement := grammar.eats_parseStatement operands copes
  have recovers : ∀ less ≤ room, Advances stream less (do
      if (← get).panicking then
        synchronize grammar.bound : Compile Unit) := by
    intro less fits
    have skips : Advances stream less (synchronize grammar.bound) :=
      advances_synchronize (Nat.lt_of_le_of_lt fits bound)
    infer_instance
  -- behind its word every declaration but that of a struct is like any other production
  have behind : ∀ {action : Compile Unit}, (∀ less < room, Advances stream less action) →
      ∀ less < room, Advances stream less (action >>= fun _ => do
        if (← get).panicking then
          synchronize grammar.bound) :=
    fun advances less fewer =>
      (advances less fewer).andThen fun _ => recovers less (Nat.le_of_lt fewer)
  have within : ∀ {action : Compile Unit},
      (∀ less, Copes stream less grammar → Advances stream less action) →
      ∀ less < room, Advances stream less action :=
    fun advances less fewer => advances less (copes less fewer)
  have others := recovers room (Nat.le_refl _)
  unfold parseDeclaration
  dsimp only
  refine ⟨fun {state} place fits => halts_bind (halts_accept place) fun found next accepted => ?_⟩
  rcases accepted with ⟨rfl, isStruct, stepped⟩ | ⟨rfl, rfl⟩
  · have fewer := stepped.left
    have copes := copes next.left (by omega)
    have passed : ∃ word rest, next.cursor.passed = word :: rest ∧ word.kind = .structWord :=
      ⟨_, _, stepped.passed, isStruct⟩
    refine halts_bind (grammar.halts_structDeclaration safe stepped.place (Nat.le_refl _) passed) ?_
    rintro _ middle ⟨place, fewest⟩
    exact ((recovers middle.left (by omega)).halts place (Nat.le_refl _)).fewer (by omega)
  · refine @Eats.halts _ stream room _ ?_ _ place fits
    refine eats_take (behind (within fun _ _ => inferInstance)) ?_
    refine eats_take (behind (within fun _ _ => inferInstance)) ?_
    refine eats_checked (behind (within fun _ _ => inferInstance)) ?_
    refine eats_take (behind (within fun _ _ => inferInstance)) ?_
    infer_instance

end Structs

end Declarations

end Grammar

section Units

variable {stream : Stream}

/-- The depth that is needed goes with twice the words, since a declaration that is nested in an
operand takes two levels and a word. -/
theorem eats_levels (safe : stream.Safe) (depth : Nat) :
    (∀ room, 2 * room + 2 ≤ depth → ∀ level, Eats stream room (operandAt depth level)) ∧
      (∀ room, 2 * room + 3 ≤ depth → Eats stream room (statementAt depth)) ∧
      ∀ room, 2 * room + 3 ≤ depth → Eats stream room (declarationAt depth) := by
  induction depth with
  | zero => exact ⟨fun _ deep => by omega, fun _ deep => by omega, fun _ deep => by omega⟩
  | succ depth ih =>
    obtain ⟨operands, statements, declarations⟩ := ih
    let grammar : Grammar := ⟨depth, operandAt depth, statementAt depth, declarationAt depth⟩
    have copes : ∀ {room}, 2 * room + 1 ≤ depth → ∀ less < room,
        Grammar.Copes stream less grammar := fun deep less fewer =>
      ⟨show less < depth by omega, operands less (by omega), statements less (by omega),
        declarations less (by omega)⟩
    simp only [operandAt, statementAt, declarationAt]
    refine ⟨fun room deep level => ?_, fun room deep => ?_, fun room deep => ?_⟩
    · exact grammar.eats_parseOperand safe (show 0 < depth by omega) (copes (by omega)) level
    · exact grammar.eats_parseStatement (operands room (by omega)) (copes (by omega))
    · exact grammar.eats_parseDeclaration safe (show room < depth by omega)
        (operands room (by omega)) (copes (by omega))

/-- What a token list comes to, once it has been closed. -/
def Stream.of (tokens : List Token) : Stream where
  words := wordsOf (Cursor.closed tokens)
  finish := (finishOf? (Cursor.closed tokens)).getD ⟨.finish, [], 1, 1⟩

theorem finishOf?_closed (tokens : List Token) :
    finishOf? (Cursor.closed tokens) = some (Stream.of tokens).finish := by
  have present : (finishOf? (Cursor.closed tokens)).isSome := by
    rw [finishOf?, List.find?_isSome]
    unfold Cursor.closed
    split
    · exact ⟨_, List.mem_singleton_self _, rfl⟩
    · next last isLast =>
      split
      · next isFinish => exact ⟨last, List.mem_of_getLast? isLast, isFinish⟩
      · exact ⟨_, List.mem_append_right _ (List.mem_singleton_self _), rfl⟩
  obtain ⟨token, found⟩ := Option.isSome_iff_exists.mp present
  rw [Stream.of, found]
  rfl

theorem start_tokens (tokens : List Token) : (Cursor.start tokens).passed = [] ∧
    (Cursor.start tokens).here :: (Cursor.start tokens).ahead = Cursor.closed tokens := by
  unfold Cursor.start
  split
  · next split => exact ⟨rfl, split.symm⟩
  · next empty =>
    have finish := finishOf?_closed tokens
    rw [empty] at finish
    cases finish

theorem words_le (tokens : List Token) : (Stream.of tokens).words.length ≤ tokens.length + 1 := by
  have closed : (Cursor.closed tokens).length ≤ tokens.length + 1 := by
    unfold Cursor.closed
    split
    · simp
    · split <;> simp
  refine Nat.le_trans (List.length_filter_le _ _) (Nat.le_trans ?_ closed)
  exact (List.takeWhile_sublist _).length_le

theorem halts_unit {tokens : List Token} (safe : (Stream.of tokens).Safe) {state : State}
    (starts : state.cursor = .start tokens)
    (unknown : (Stream.of tokens).EndsNew →
      state.findStruct (Stream.of tokens).finish.text = none) :
    Halts (unit (depthFor tokens.length)) state fun _ _ => True := by
  obtain ⟨passed, waiting⟩ := start_tokens tokens
  have finish : state.cursor.finish? = some (Stream.of tokens).finish := by
    rw [starts, Cursor.finish?, waiting, finishOf?_closed]
  have short := words_le tokens
  unfold unit
  refine halts_bind (halts_settle state) ?_
  rintro _ next ⟨cursor, known⟩
  obtain ⟨passedToo, unread, finishToo, legible⟩ := state.cursor.settled_spec (by rw [finish]; rfl)
  rw [← cursor] at passedToo unread finishToo legible
  have words : next.cursor.unread = (Stream.of tokens).words := by
    rw [unread, starts, Cursor.unread, waiting]
    rfl
  have place : (Stream.of tokens).At next := by
    refine ⟨?_, finishToo.trans finish, legible, fun endsNew => (known _).trans (unknown endsNew)⟩
    rw [passedToo, words, starts, passed]
    rfl
  have deep : 2 * (Stream.of tokens).words.length + 3 ≤ depthFor tokens.length := by
    unfold depthFor
    omega
  have declares := (eats_levels safe (depthFor tokens.length)).2.2 _ deep
  have round : ∀ _ : Unit, Pays (Stream.of tokens) (Stream.of tokens).words.length (do
      if ← atEnd then return ((), false)
      declarationAt (depthFor tokens.length)
      return ((), true) : Compile (Unit × Bool)) := by
    intro _
    refine pays_unlessEnd ?ends fun _ => inferInstance
    rfl
  have enough : (Stream.of tokens).words.length < depthFor tokens.length := by omega
  have rounds := advances_iterate enough round ()
  have whole := rounds.andThen fun _ => (inferInstance : Advances _ _ emitReturnNil)
  refine (whole.halts place ?_).mono fun _ _ _ => trivial
  rw [State.left, words]

variable {heap : Heap} {registry : Registry} {outside : List ObjectId} {tokens : List Token}

/-- The tokens of a unit have come to an end, or there was no room for an object. -/
theorem compile_ends (heap : Heap) (outside : List ObjectId) (safe : (Stream.of tokens).Safe)
    (unknown : (Stream.of tokens).EndsNew →
      registry.findStruct (Stream.of tokens).finish.text = none) :
    (∃ id start state, Heap.newFunction (fun _ => outside) heap = .ok id start ∧
      unit (depthFor tokens.length) (.begun start registry outside tokens id) = .ok () state ∧
      compile heap registry outside tokens = finish state) ∨
    ∃ after failure,
      compile heap registry outside tokens = (after, .error (.exhausted failure)) := by
  unfold compile
  cases allocated : Heap.newFunction (fun _ => outside) heap with
  | error failure after => exact Or.inr ⟨after, failure, rfl⟩
  | ok id start =>
    let begun : State := .begun start registry outside tokens id
    have nowhere : (Stream.of tokens).EndsNew →
        begun.findStruct (Stream.of tokens).finish.text = none := fun endsNew => by
      simp [begun, State.findStruct, State.begun, unknown endsNew]
    have halts : Halts _ begun _ := halts_unit safe rfl nowhere
    unfold Halts at halts
    dsimp only
    rw [← State.begun]
    cases ran : unit (depthFor tokens.length) (.begun start registry outside tokens id) with
    | ok _ state => exact Or.inl ⟨id, start, state, rfl, ran, rfl⟩
    | error stop state =>
      rw [ran] at halts
      cases stop with
      | exhausted failure => exact Or.inr ⟨state.heap, failure, rfl⟩
      | diverged => exact absurd rfl halts

/-- No token list keeps the compiler going that ends in a word that can stand last. -/
theorem compile_terminates (safe : (Stream.of tokens).Safe)
    (unknown : (Stream.of tokens).EndsNew →
      registry.findStruct (Stream.of tokens).finish.text = none) (after : Heap) :
    compile heap registry outside tokens ≠ (after, .error .diverged) := by
  intro ran
  rcases compile_ends heap outside safe unknown with
    ⟨_, _, state, -, -, finished⟩ | ⟨_, _, exhausted⟩
  · rw [finished, finish] at ran
    split at ran
    · split at ran <;> cases ran
    · cases ran
  · rw [exhausted] at ran
    cases ran

/-- Over tables without a double name, such a unit has a script or diagnostics. -/
theorem compile_outcome (tidy : heap.Tidy)
    (structs : (registry.structs.toList.map StructType.name).Nodup)
    (traits : (registry.traits.map TraitType.name).Nodup) (worded : (Cursor.start tokens).Worded)
    (safe : (Stream.of tokens).Safe)
    (unknown : (Stream.of tokens).EndsNew →
      registry.findStruct (Stream.of tokens).finish.text = none) :
    (∃ after compiled, compile heap registry outside tokens = (after, .ok compiled)) ∨
    (∃ after found, found ≠ [] ∧
      compile heap registry outside tokens = (after, .error (.diagnostics found))) ∨
    ∃ after failure,
      compile heap registry outside tokens = (after, .error (.exhausted failure)) := by
  rcases compile_ends heap outside safe unknown with
    ⟨id, start, state, allocated, ran, finished⟩ | exhausted
  · rw [finished, finish]
    split
    · next quiet =>
      have isTidy := tidy_newFunction tidy allocated
      have ends := ends_unit isTidy (newFunction_eq allocated).2.2 ran (Array.isEmpty_iff.mp quiet)
      obtain ⟨committed, isCommitted, -⟩ := (ends.tables structs traits worded).commits
      rw [isCommitted]
      exact Or.inl ⟨_, _, rfl⟩
    · next reported =>
      refine Or.inr (Or.inl ⟨_, _, ?_, rfl⟩)
      simpa using reported
  · exact Or.inr (Or.inr exhausted)

end Units

section Divergence

/- Where the name at the end of the tokens is that of a struct, a last `new` makes a literal of it,
and the values of its fields begin with the last word again. -/

variable {state : State}

/-- The action comes to no end at the depth it is given. -/
def Diverges {α : Type} (action : Compile α) (state : State) : Prop :=
  ∃ after, action state = .error .diverged after

theorem ran_bind {α β : Type} {first : Compile β} {rest : β → Compile α} {value : β}
    {middle : State} (ran : first state = .ok value middle) :
    (first >>= rest) state = rest value middle := by
  simp only [bind, EStateM.bind, ran]

theorem diverges_first {α β : Type} {first : Compile β} {rest : β → Compile α}
    (diverges : Diverges first state) : Diverges (first >>= rest) state := by
  obtain ⟨after, ran⟩ := diverges
  exact ⟨after, by simp only [bind, EStateM.bind, ran]⟩

theorem diverges_ran {α β : Type} {first : Compile β} {rest : β → Compile α} {value : β}
    {middle : State} (ran : first state = .ok value middle)
    (diverges : Diverges (rest value) middle) : Diverges (first >>= rest) state := by
  rwa [Diverges, ran_bind ran]

/-- At the end behind `new`, with a struct of the name that is looked for. -/
structure Stuck (state : State) : Prop where
  ends : state.cursor.here.kind = .finish
  behind : state.cursor.previous.kind = .newWord
  named : (state.findStruct state.cursor.here.text).isSome

theorem Stuck.of_same (stuck : Stuck state) {other : State} (cursor : other.cursor = state.cursor)
    (known : ∀ name, other.findStruct name = state.findStruct name) : Stuck other := by
  refine ⟨?_, ?_, ?_⟩
  · rw [cursor]
    exact stuck.ends
  · rw [cursor]
    exact stuck.behind
  · rw [known, cursor]
    exact stuck.named

/-- A problem is reported on the spot. -/
theorem Stuck.errorAt (stuck : Stuck state) (token : Token) (problem : Problem) :
    ∃ after, errorAt token problem state = .ok () after ∧ Stuck after ∧
      after.cursor.here = state.cursor.here := by
  have halts : Halts _ state _ := halts_errorAt token problem
  obtain ⟨after, ran⟩ : ∃ after, Compiler.errorAt token problem state = .ok () after := ⟨_, rfl⟩
  unfold Halts at halts
  rw [ran] at halts
  exact ⟨after, ran, stuck.of_same halts.1 halts.2, congrArg Cursor.here halts.1⟩

/-- Whatever is looked for is not there. -/
theorem Stuck.check (stuck : Stuck state) (kind : TokenKind) :
    check kind state = .ok false state := by
  have missed : (state.cursor.here.kind == kind && state.cursor.here.kind != .finish) = false := by
    simp [stuck.ends]
  exact congrArg (EStateM.Result.ok · state) missed

theorem Stuck.expect (stuck : Stuck state) (kind : TokenKind) (what : String) :
    ∃ after, expect kind what state = .ok state.cursor.here after ∧ Stuck after ∧
      after.cursor.here = state.cursor.here := by
  obtain ⟨after, ran, stuck', same⟩ := stuck.errorAt state.cursor.here (.expected (ascii what))
  refine ⟨after, ?_, stuck', same⟩
  unfold Compiler.expect
  rw [ran_bind (stuck.check kind)]
  have reported : errorHere (.expected (ascii what)) state = .ok () after := ran
  change (errorHere (.expected (ascii what)) >>= fun _ => here) state = _
  rw [ran_bind reported]
  exact congrArg (EStateM.Result.ok · after) same

section Literals

variable {grammar : Grammar}

theorem Stuck.initialiser (stuck : Stuck state)
    (values : ∀ {state}, Stuck state → Diverges grammar.expression state) (type : StructType)
    (onHeap : Bool) (layout : List Nat) :
    Diverges (grammar.initialiser type onHeap layout) state := by
  -- a problem with the field is reported before its value
  have value : ∀ {state}, Stuck state → ∀ rest : Shape → Compile (List Nat), Diverges (do
      let _ ← Compiler.expect .equal "'=' after field name"
      let value ← grammar.expression
      rest value) state := by
    intro state stuck rest
    obtain ⟨middle, ran, stuck, -⟩ := stuck.expect .equal "'=' after field name"
    exact diverges_ran ran (diverges_first (values stuck))
  unfold Grammar.initialiser
  obtain ⟨named, ran, stuckToo, -⟩ := stuck.expect .identifier "field name in struct literal"
  refine diverges_ran ran ?_
  dsimp only
  cases type.findField state.cursor.here.text with
  | none =>
    obtain ⟨reported, ran, stuckToo, -⟩ := stuckToo.errorAt state.cursor.here
      (.unknownField type.name state.cursor.here.text)
    exact diverges_ran ran (value stuckToo _)
  | some slot =>
    dsimp only
    split
    · obtain ⟨reported, ran, stuckToo, -⟩ := stuckToo.errorAt state.cursor.here
        (.fieldTwice state.cursor.here.text)
      exact diverges_ran ran (value stuckToo _)
    · exact value stuckToo _

theorem Stuck.structLiteral (stuck : Stuck state)
    (values : ∀ {state}, Stuck state → Diverges grammar.expression state) (id : StructId)
    (onHeap : Bool) : Diverges (grammar.structLiteral id onHeap) state := by
  unfold Grammar.structLiteral
  refine diverges_ran rfl ?_
  dsimp only
  obtain ⟨opened, ran, stuckToo, -⟩ := stuck.expect .leftBrace "'\x7b' after struct name"
  refine diverges_ran ran (diverges_ran (stuckToo.check .rightBrace) (diverges_first ?_))
  cases grammar.bound with
  | zero => exact ⟨opened, rfl⟩
  | succ bound =>
    rw [iterate]
    refine diverges_first (diverges_ran (stuckToo.check .rightBrace) (diverges_first ?_))
    exact stuckToo.initialiser values _ onHeap []

end Literals

/-- No depth is enough for an operand in such a place. -/
theorem Stuck.operandAt (stuck : Stuck state) (depth : Nat) (level : Level) :
    Diverges (operandAt depth level) state := by
  induction depth generalizing state level with
  | zero => exact ⟨state, rfl⟩
  | succ depth ih =>
    let grammar : Grammar :=
      ⟨depth, Compiler.operandAt depth, statementAt depth, declarationAt depth⟩
    have stays : advance state = .ok () state := by
      unfold advance
      have ends : atEnd state = .ok true state :=
        congrArg (EStateM.Result.ok · state) (by simp [stuck.ends])
      rw [ran_bind ends]
      rfl
    have values : ∀ {state}, Stuck state → Diverges grammar.expression state :=
      fun stuck => ih stuck .assignment
    have literal : Diverges grammar.heapStruct state := by
      unfold Grammar.heapStruct
      obtain ⟨named, ran, stuckToo, same⟩ := stuck.expect .identifier "struct name after 'new'"
      refine diverges_ran ran (diverges_ran rfl ?_)
      obtain ⟨id, known⟩ := Option.isSome_iff_exists.mp stuckToo.named
      rw [same] at known
      rw [known]
      exact stuckToo.structLiteral values id true
    change Diverges (grammar.parseOperand level) state
    unfold Grammar.parseOperand
    refine diverges_ran stays (diverges_ran rfl ?_)
    rw [stuck.behind]
    exact diverges_first literal

/-- A struct without a name leads there: its text is that of the end. -/
example : (match (compileSource (Heap.empty {}) {} [] (ascii "struct \"\"; print new")).2 with
    | .error .diverged => true
    | _ => false) = true := by decide +kernel

end Divergence

end ScriptMachine.Compiler
