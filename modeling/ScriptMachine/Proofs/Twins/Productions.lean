import ScriptMachine.Proofs.Twins.Functions

set_option autoImplicit false
set_option synthInstance.maxSize 20000

/- Every production keeps pace. -/
namespace ScriptMachine.Compiler

variable {α : Type} {pairs more : Pairing} {left right : State}

instance (id : StructId) : Even (structName id) :=
  even_get (fun twin => by rw [twin.structName]) fun _ => inferInstance

namespace Grammar

section Functions

variable (grammar : Grammar) [declarations : Even grammar.declaration]

instance even_block : Even grammar.block := by
  unfold block
  infer_instance

omit declarations in
instance even_parameters : Even grammar.parameters := by
  have counts : Even (modifyBody fun body => { body with arity := body.arity + 1 }) :=
    even_body fun _ _ _ => rfl
  unfold parameters
  refine Even.seq inferInstance fun closed => ?_
  split
  · refine @even_iterate _ _ _ _ fun _ => Even.seq counts fun _ => ?_
    exact even_draft (fun twin => by rw [twin.body.arity]) fun _ => inferInstance
  · infer_instance

/-- A function on both sides, of which nothing but its prototype is new. -/
theorem coupled_function (kind : FunctionKind) (name : Text) (paced : Paced pairs [] [] left right) :
    Coupled (grammar.function kind name) (grammar.function kind name) left right
      fun result result' left' right' => ∃ more,
        Proceeds pairs left right more [result.1] [result'.1] left' right' ∧
          Readied more left' right' result result' := by
  unfold Grammar.function
  refine Even.andThen paced fun _ _ _ _ one => Even.andThen one.paced fun _ _ _ _ two => ?_
  refine Even.andThen two.paced fun _ _ _ _ three => Even.andThen three.paced fun _ _ _ _ four => ?_
  refine Even.andThen four.paced fun _ _ _ _ five => Even.andThen five.paced fun _ _ _ _ six => ?_
  refine Even.andThen six.paced fun _ _ _ _ seven => Even.andThen seven.paced fun _ more _ _ eight => ?_
  have before := (((one.trans two).trans (three.trans four)).trans (five.trans six)).trans
    (seven.trans eight)
  refine (coupled_endFunction eight.paced).mono fun result result' left' right' ended => ?_
  exact ⟨more, before.trans ended.1, ended.2⟩

/-- A function that the code makes a closure of. -/
theorem even_closure {rest : Nat → Compile α} (kind : FunctionKind) (name : Text)
    (goesOn : ∀ arity, Even (rest arity)) : Even (do
      let (prototype, arity) ← grammar.function kind name
      emitOperand .closure (← makeConstant (.ref prototype))
      rest arity) where
  coupled {pairs left right} paced := by
    refine coupled_bind ((coupled_function grammar kind name paced).mono
      fun result result' left' right' made => ?_)
    obtain ⟨more, proceeds, ready⟩ := made
    have same := ready.arity
    obtain ⟨prototype, arity⟩ := result
    obtain ⟨prototype', arity'⟩ := result'
    obtain rfl : arity' = arity := same
    refine coupled_bind ((coupled_makeConstant proceeds.paced (.ref ready.joined)).mono
      fun index index' left'' right'' filed => ?_)
    obtain ⟨rfl, most, next⟩ := filed
    refine Even.andThen next.paced fun _ _ _ _ emitted => ?_
    exact (goesOn arity').finish ((proceeds.trans next).trans emitted)

end Functions

section Expressions

variable (grammar : Grammar) [operands : ∀ level, Even (grammar.operand level)]
  [declarations : Even grammar.declaration]

instance even_expression : Even grammar.expression :=
  operands .assignment

instance even_arguments : Even grammar.arguments := by
  unfold arguments
  dsimp only
  infer_instance

instance even_initialiser (type : StructType) (onHeap : Bool) (layout : List Nat) :
    Even (grammar.initialiser type onHeap layout) := by
  unfold initialiser
  refine Even.seq inferInstance fun field => ?_
  dsimp only
  cases type.findField field.text <;> infer_instance

omit operands declarations in
/-- A literal looks at the name and the fields of its type only. -/
theorem initialiser_congr {type type' : StructType} (same : type.Twin pairs type') :
    grammar.initialiser type' = grammar.initialiser type := by
  funext onHeap layout
  simp only [initialiser, StructType.findField, same.fields, same.name]

instance even_structLiteral (id : StructId) (onHeap : Bool) :
    Even (grammar.structLiteral id onHeap) := by
  have lays : ∀ slots : List Nat, Even
      (modifyBody fun body => { body with layouts := body.layouts.push slots }) :=
    fun _ => even_body fun _ _ _ => rfl
  have types : ∀ {pairs : Pairing} {left right : State}, State.Twin pairs left right →
      grammar.initialiser ((right.struct? id).getD default)
        = grammar.initialiser ((left.struct? id).getD default) := by
    intro pairs left right twin
    have same := twin.struct? id
    generalize left.struct? id = one at same
    generalize right.struct? id = other at same
    cases same with
    | none => rfl
    | some same => exact grammar.initialiser_congr same
  unfold structLiteral
  refine even_get (fun twin => by simp only [types twin]) fun state => ?_
  refine Even.seq inferInstance fun _ => Even.seq inferInstance fun closed => ?_
  have ends : ∀ layout : List Nat, Even (do
      let _ ← expect .rightBrace "'\x7d' after struct literal fields"
      let index := (← draft).body.layouts.size
      let slots := layout.reverse
      modifyBody fun body => { body with layouts := body.layouts.push slots }
      emitWith (if onHeap then .heapStruct else .stackStruct) id index
      return {
        placement := if onHeap then .heap else .stack
        fresh := !onHeap
        holdsLiteral := !onHeap
        struct := some id } : Compile Shape) :=
    fun layout => Even.seq inferInstance fun _ =>
      even_draft (fun twin => by rw [twin.body.layouts]) fun _ => inferInstance
  dsimp only at ends ⊢
  infer_instance

instance even_localVariable (slot : Nat) (canAssign : Bool) :
    Even (grammar.localVariable slot canAssign) := by
  have shapes : ∀ value : Shape, Even
      (modifyDraft fun draft => draft.modifyLocal slot fun found =>
        let always := found.branch == draft.branchDepth && !found.captured
        { found with shape := if always then value.stored else found.shape.merge value.stored }) :=
    fun _ => even_scope fun _ _ _ => rfl
  unfold localVariable
  refine Even.seq inferInstance fun assigned => ?_
  split
  · dsimp only
    infer_instance
  · exact Even.seq inferInstance fun _ =>
      even_draft (fun twin => by rw [twin.locals]) fun _ => inferInstance

instance even_upvalueVariable (index : Nat) (canAssign : Bool) :
    Even (grammar.upvalueVariable index canAssign) := by
  unfold upvalueVariable
  infer_instance

/-- A change of what is known of the globals. -/
theorem even_globals (change : Std.HashMap Text Global → Std.HashMap Text Global) :
    Even (modify fun state : State => { state with globals := change state.globals } : Compile Unit) :=
  even_modify (fun twin => { twin with globals := by rw [twin.globals] }) (fun _ => rfl) (fun _ => rfl)
    (fun _ => rfl) (fun _ => rfl) fun _ => rfl

instance even_globalVariable (name : Token) (canAssign : Bool) :
    Even (grammar.globalVariable name canAssign) := by
  have assigns : ∀ value : Shape, Even (modify fun state : State =>
      let known := (state.globals[name.text]?.map Global.shape).getD {}
      { state with
        globals := state.globals.insert name.text ⟨known.merge value.stored, true⟩ } :
      Compile Unit) :=
    fun value => even_globals fun globals =>
      globals.insert name.text
        ⟨((globals[name.text]?.map Global.shape).getD {}).merge value.stored, true⟩
  unfold globalVariable
  refine Even.seq inferInstance fun constant => Even.seq inferInstance fun assigned => ?_
  dsimp only
  split
  · infer_instance
  · refine Even.seq inferInstance fun _ => even_get (fun twin => by rw [twin.globals]) fun state => ?_
    split <;> infer_instance

instance even_namedVariable (name : Token) (canAssign : Bool) :
    Even (grammar.namedVariable name canAssign) := by
  unfold namedVariable
  refine Even.seq inferInstance fun found => ?_
  split
  · infer_instance
  · refine Even.seq inferInstance fun captured => ?_
    split <;> infer_instance

instance even_identifier (canAssign : Bool) : Even (grammar.identifier canAssign) := by
  unfold identifier
  refine Even.seq inferInstance fun name => Even.seq inferInstance fun braced => ?_
  refine even_get (fun twin => by rw [twin.findStruct]) fun state => ?_
  dsimp only
  split <;> infer_instance

instance even_receiver : Even grammar.receiver := by
  have kinds : ∀ {pairs : Pairing} {left right : State}, State.Twin pairs left right →
      (right.draft :: right.enclosing).any (fun draft => draft.kind == .method)
        = (left.draft :: left.enclosing).any fun draft => draft.kind == .method := by
    intro pairs left right twin
    have around := twin.enclosing
    simp only [List.any_cons, twin.draft.kind]
    congr 1
    generalize left.enclosing = ours at around
    generalize right.enclosing = theirs at around
    induction around with
    | nil => rfl
    | cons same _ ih => simp only [List.any_cons, same.kind, ih]
  unfold receiver
  refine even_get (fun twin => by rw [kinds twin]) fun state => ?_
  split
  · infer_instance
  · refine Even.seq inferInstance fun token => Even.seq inferInstance fun shape => ?_
    exact even_get (fun twin => by rw [twin.draft.kind, twin.implType]) fun _ => inferInstance

instance even_heapStruct : Even grammar.heapStruct := by
  unfold heapStruct
  refine Even.seq inferInstance fun name => even_get (fun twin => by rw [twin.findStruct]) fun state => ?_
  split <;> infer_instance

instance even_functionLiteral : Even grammar.functionLiteral := by
  exact even_closure grammar .function (ascii "anonymous")
    (fun arity => (inferInstance : Even (pure { arity := some arity } : Compile Shape)))

instance even_opening (canAssign : Bool) (opening : Opening) : Even (grammar.opening canAssign opening) := by
  unfold Grammar.opening
  split
  case h_6 =>
    refine Even.seq inferInstance fun token => ?_
    dsimp only
    split <;> infer_instance
  all_goals infer_instance

instance even_shortCircuit (left : Shape) (skip : Opcode) (level : Level) :
    Even (grammar.shortCircuit left skip level) := by
  have begins : Even
      (modifyDraft fun draft => { draft with branchDepth := draft.branchDepth + 1 }) :=
    even_scope fun _ _ _ => rfl
  have ends : Even
      (modifyDraft fun draft => { draft with branchDepth := draft.branchDepth - 1 }) :=
    even_scope fun _ _ _ => rfl
  unfold shortCircuit
  infer_instance

instance even_call (callee : Shape) : Even (grammar.call callee) := by
  unfold Grammar.call
  refine Even.seq inferInstance fun given => ?_
  dsimp only
  split <;> infer_instance

omit grammar operands declarations in
/-- The methods that a unit can call are in use. -/
theorem mem_roots_of_findMethod {state : State} {struct : StructId} {name : Text} {method : Method}
    (bare : ∀ type ∈ state.staged.structs, type.methods = [])
    (registered : ∀ id ∈ state.registry.roots, id ∈ state.outside)
    (found : state.findMethod struct name = some method) : method.closure ∈ state.roots := by
  rw [State.findMethod, Option.orElse_eq_orElse, Option.orElse_eq_or, Option.or_eq_some_iff] at found
  rcases found with ofType | ⟨_, ofStaged⟩
  · obtain ⟨type, isType, isMethod⟩ := Option.bind_eq_some_iff.mp ofType
    have listed : (name, method) ∈ type.methods := by
      obtain ⟨before, after, split, _⟩ := List.lookup_eq_some_iff.mp isMethod
      rw [split]
      exact List.mem_append_right _ List.mem_cons_self
    rw [State.struct?, Option.orElse_eq_orElse, Option.orElse_eq_or, Option.or_eq_some_iff] at isType
    rcases isType with isType | ⟨_, isType⟩
    · refine mem_roots_of_outside (registered _ (List.mem_flatMap.mpr ⟨type, ?_, ?_⟩))
      · exact Array.mem_toList_iff.mpr (Array.mem_of_getElem? isType)
      · exact List.mem_map.mpr ⟨_, listed, rfl⟩
    · rw [bare type (Array.mem_of_getElem? isType)] at listed
      cases listed
  · obtain ⟨staged, isStaged, rfl⟩ := Option.map_eq_some_iff.mp ofStaged
    exact List.mem_append_right _ (List.mem_map.mpr ⟨staged, List.mem_of_find?_eq_some isStaged, rfl⟩)

omit grammar operands declarations in
/-- The number of parameters of a method is the same on both sides, as its code is there. -/
theorem methodArity_twin {method method' : Method} {struct : StructId} {name : Text}
    (paced : Paced pairs [] [] left right) (same : method.Twin pairs method')
    (here : left.findMethod struct name = some method)
    (there : right.findMethod struct name = some method') :
    right.methodArity method' = left.methodArity method := by
  have twin := paced.twin
  have present : ∀ {state : State} {id : ObjectId}, Backed [] state →
      Heap.Reaches state.heap.objects state.roots id → ∃ object, state.heap.get? id = some object :=
    fun backed reached => Option.isSome_iff_exists.mp (backed.stocked _ reached)
  have root : Heap.Reaches left.heap.objects left.roots method.closure :=
    .root (mem_roots_of_findMethod twin.staged.bare paced.backed.registered here)
  have root' : Heap.Reaches right.heap.objects right.roots method'.closure :=
    .root (mem_roots_of_findMethod (twin.staged.structs ▸ twin.staged.bare) paced.backed'.registered there)
  obtain ⟨object, found⟩ := present paced.backed root
  obtain ⟨other, found'⟩ := present paced.backed' root'
  have alike := twin.heap.alike same.closure found found'
  simp only [State.methodArity, Heap.closurePrototype?, found, found']
  cases alike with
  | closure code _ =>
    obtain ⟨body, isBody⟩ := present paced.backed (root.next found List.mem_cons_self)
    obtain ⟨body', isBody'⟩ := present paced.backed' (root'.next found' List.mem_cons_self)
    have bodies := twin.heap.alike code isBody isBody'
    simp only [Heap.prototype?, isBody, isBody']
    cases bodies with
    | function same => rw [Option.map_some, Option.map_some, same.arity]
    | string | closure | onStack | closed | record | native => rfl
  | string | function | onStack | closed | record | native => rfl

instance even_checkMethodArity (target : Shape) (name : Text) (given : Nat) :
    Even (checkMethodArity target name given) where
  coupled {pairs left right} paced := by
    have twin := paced.twin
    have arity : (do
        let struct ← target.struct
        let type ← right.struct? struct
        if (type.findField name).isSome then none
        else (right.findMethod struct name).bind right.methodArity : Option Nat) = (do
        let struct ← target.struct
        let type ← left.struct? struct
        if (type.findField name).isSome then none
        else (left.findMethod struct name).bind left.methodArity) := by
      cases target.struct with
      | none => rfl
      | some struct =>
        have types := twin.struct? struct
        simp only [Option.bind_eq_bind, Option.bind_some]
        generalize left.struct? struct = one at types
        generalize right.struct? struct = other at types
        cases types with
        | none => rfl
        | @some type type' same =>
          have arities : (right.findMethod struct name).bind right.methodArity
              = (left.findMethod struct name).bind left.methodArity := by
            have methods := twin.findMethod struct name
            cases here : left.findMethod struct name with
            | none =>
              rw [here] at methods
              generalize right.findMethod struct name = other at methods
              cases methods
              rfl
            | some method =>
              cases there : right.findMethod struct name with
              | none =>
                rw [here, there] at methods
                cases methods
              | some method' =>
                rw [here, there] at methods
                obtain same | _ := methods
                exact methodArity_twin paced same here there
          have isField : type'.findField name = type.findField name := by
            rw [StructType.findField, same.fields]
            rfl
          simp only [Option.bind_some]
          rw [isField, arities]
    unfold checkMethodArity
    refine coupled_bind (.both ?_)
    dsimp only at arity ⊢
    rw [arity]
    split
    · exact Even.finish paced.stays
    · exact Even.finish paced.stays

instance even_property (target : Shape) (canAssign : Bool) : Even (grammar.property target canAssign) := by
  unfold property
  infer_instance

instance even_continuation (left : Shape) (canAssign : Bool) (level : Level)
    (continuation : Continuation) :
    Even (grammar.continuation left canAssign level continuation) := by
  unfold Grammar.continuation
  split <;> infer_instance

/-- One round of what follows an operand. -/
instance even_round (level : Level) (canAssign : Bool) (shape : Shape) : Even (do
    match Continuation.of? (← here).kind with
    | none => return (shape, false)
    | some (continuation, strength) =>
      if level.rank ≤ strength.rank then
        advance
        return (← grammar.continuation shape canAssign strength continuation, true)
      else
        return (shape, false) : Compile (Shape × Bool)) := by
  refine Even.seq inferInstance fun token => ?_
  split <;> infer_instance

instance even_parseOperand (level : Level) : Even (grammar.parseOperand level) := by
  unfold parseOperand
  refine Even.seq inferInstance fun _ => Even.seq inferInstance fun token => ?_
  split
  · infer_instance
  · dsimp only
    infer_instance

end Expressions

section Statements

variable (grammar : Grammar) [operands : ∀ level, Even (grammar.operand level)]
  [statements : Even grammar.statement] [declarations : Even grammar.declaration]

include operands

instance even_varDeclaration : Even grammar.varDeclaration := by
  have defines : ∀ (name : Text) (shape : Shape), Even (modify fun state : State =>
      { state with globals := state.globals.insert name ⟨shape, false⟩ } : Compile Unit) :=
    fun name shape => even_globals fun globals => globals.insert name ⟨shape, false⟩
  unfold varDeclaration
  dsimp only
  infer_instance

instance even_expressionStatement : Even grammar.expressionStatement := by
  unfold expressionStatement
  infer_instance

instance even_printStatement : Even grammar.printStatement := by
  unfold printStatement
  infer_instance

include statements

instance even_ifStatement : Even grammar.ifStatement := by
  unfold ifStatement
  dsimp only
  infer_instance

instance even_whileStatement : Even grammar.whileStatement := by
  unfold whileStatement
  infer_instance

omit statements in
instance even_forCondition : Even grammar.forCondition := by
  unfold forCondition
  infer_instance

omit statements in
instance even_forIncrement (condition : Nat) : Even (grammar.forIncrement condition) := by
  unfold forIncrement
  infer_instance

instance even_forStatement : Even grammar.forStatement := by
  have tail : ∀ exit : Option Nat, Even (do
      match exit with
      | some exit =>
        patchJump exit
        emit .pop
      | none => pure ()
      endScope : Compile Unit) := by
    intro exit
    cases exit <;> dsimp only <;> infer_instance
  unfold forStatement
  dsimp only
  infer_instance

omit statements in
instance even_returnStatement : Even grammar.returnStatement := by
  have rejects : ∀ (keyword : Token) (struct : Option StructId), Even (do
      let name ← match struct with
        | some id => structName id
        | none => pure (ascii "struct")
      errorAt keyword (.returnedStruct name)
      let _ ← expect .semicolon "';' after return value"
      emit .return : Compile Unit) := by
    intro keyword struct
    cases struct <;> dsimp only <;> infer_instance
  unfold returnStatement
  refine Even.seq inferInstance fun keyword => even_draft (fun twin => by rw [twin.kind]) fun draft => ?_
  dsimp only at rejects ⊢
  infer_instance

instance even_parseStatement : Even grammar.parseStatement := by
  unfold parseStatement
  infer_instance

end Statements

section Declarations

variable (grammar : Grammar) [operands : ∀ level, Even (grammar.operand level)]
  [statements : Even grammar.statement] [declarations : Even grammar.declaration]

/-- A change of the declarations of a unit other than its methods. -/
theorem even_modifyStaged {change : Staged → Staged}
    (twins : ∀ {pairs : Pairing} {staged staged' : Staged}, staged.Twin pairs staged' →
      (change staged).Twin pairs (change staged'))
    (methods : ∀ staged, (change staged).methods = staged.methods) : Even (modifyStaged change) :=
  even_modify (fun twin => { twin with staged := twins twin.staged }) (fun _ => rfl) (fun _ => rfl)
    (fun _ => rfl) (fun state => by simp only [State.roots, methods]) fun _ => rfl

instance even_stageStruct (name : Text) (fields : List Text) : Even
    (modifyStaged fun staged => { staged with structs := staged.structs.push { name, fields } }) := by
  refine even_modifyStaged (fun {pairs staged staged'} twin => ⟨twin.methods, fun type member => ?_, ?_⟩)
    fun _ => rfl
  · rcases Array.mem_push.mp member with old | rfl
    · exact twin.bare type old
    · rfl
  · dsimp only
    rw [twin.rest]

instance even_stageTrait (trait : TraitType) : Even
    (modifyStaged fun staged => { staged with traits := staged.traits ++ [trait] }) :=
  even_modifyStaged (fun twin => ⟨twin.methods, twin.bare, by dsimp only; rw [twin.rest]⟩) fun _ => rfl

instance even_fileImpl (impl : StructId × Text) : Even
    (modifyStaged fun staged => { staged with impls := staged.impls ++ [impl] }) :=
  even_modifyStaged (fun twin => ⟨twin.methods, twin.bare, by dsimp only; rw [twin.rest]⟩) fun _ => rfl

omit grammar operands statements declarations in
instance even_fieldDeclaration (struct : Text) (fields : List Text) :
    Even (fieldDeclaration struct fields) := by
  have typed : ∀ field : Token, Even (do
      if ← accept .colon then
        let type ← expect .identifier "type name after ':'"
        if type.text != struct && ((← get).findStruct type.text).isNone then
          errorAt type (.undefinedStruct type.text)
      return fields ++ [field.text] : Compile (List Text)) := by
    refine fun field => Even.seq inferInstance fun annotated => ?_
    dsimp only
    split
    · exact Even.seq inferInstance fun type =>
        even_get (fun twin => by rw [twin.findStruct]) fun _ => inferInstance
    · infer_instance
  unfold fieldDeclaration
  dsimp only at typed ⊢
  infer_instance

instance even_structDeclaration : Even grammar.structDeclaration := by
  have body : ∀ (name : Token), Even (do
      let duplicate := ((← get).findStruct name.text).isSome
      if duplicate then
        errorAt name (.structRedefined name.text)
      let _ ← expect .leftBrace "'\x7b' after struct name"
      let mut fields := []
      if !(← check .rightBrace) then
        fields ← iterate grammar.bound [] fun fields => do
          if ← check .rightBrace then return (fields, false)
          let fields ← fieldDeclaration name.text fields
          return (fields, ← accept .comma)
      let _ ← expect .rightBrace "'\x7d' after struct fields"
      let type : StructType := { name := name.text, fields }
      if !duplicate && (← atTopLevel) then
        modifyStaged fun staged => { staged with structs := staged.structs.push type } : Compile Unit) :=
    fun name => even_get (fun twin => by rw [twin.findStruct]) fun _ => by
      dsimp only
      infer_instance
  unfold structDeclaration
  dsimp only at body ⊢
  infer_instance

instance even_signatureArity : Even grammar.signatureArity := by
  unfold signatureArity
  infer_instance

instance even_signature (trait : Text) (signatures : List Signature) :
    Even (grammar.signature trait signatures) := by
  unfold Grammar.signature
  infer_instance

instance even_traitDeclaration : Even grammar.traitDeclaration := by
  have body : ∀ (name : Token), Even (do
      let duplicate := ((← get).findTrait name.text).isSome
      if duplicate then
        errorAt name (.traitRedefined name.text)
      let _ ← expect .leftBrace "'\x7b' after trait name"
      let methods ← iterate grammar.bound [] fun signatures => do
        if (← check .rightBrace) || (← atEnd) then return (signatures, false)
        return (← grammar.signature name.text signatures, true)
      let _ ← expect .rightBrace "'\x7d' after trait body"
      if !duplicate && (← atTopLevel) then
        modifyStaged fun staged =>
          { staged with traits := staged.traits ++ [{ name := name.text, methods }] } : Compile Unit) :=
    fun name => even_get (fun twin => by rw [twin.findTrait]) fun _ => by
      dsimp only
      infer_instance
  unfold traitDeclaration
  dsimp only at body ⊢
  infer_instance

omit grammar operands statements declarations in
instance even_implHeader : Even implHeader := by
  unfold implHeader
  refine Even.seq inferInstance fun traitName => Even.seq inferInstance fun _ =>
    Even.seq inferInstance fun typeName => ?_
  refine even_get (fun twin => by simp only [twin.findTrait]) fun state => ?_
  extract_lets trait afterTrait
  have fromTrait : ∀ value, Even (afterTrait value) := by
    intro value
    refine even_get (fun twin => by simp only [twin.findStruct]) fun state => ?_
    clear_value trait
    generalize state.findStruct typeName.text = struct
    have implemented : ∀ (trait : TraitType) (struct : StructId), Even (do
        if (← get).implements struct trait.name then
          errorAt traitName (.alreadyImplemented trait.name (← structName struct))
        return { trait := some trait, struct := some struct, typeName } : Compile ImplHeader) :=
      fun trait struct => even_get (fun twin => by simp only [twin.implements]) fun _ => inferInstance
    dsimp only at implemented
    cases trait <;> cases struct <;> dsimp only <;> infer_instance
  clear_value afterTrait
  infer_instance

omit grammar operands statements declarations in
/-- A method is staged with a closure that is in use from then on. Until then its prototype is held. -/
theorem coupled_stageMethod {trait : TraitType} {struct : StructId} {structName : Text} {method : Token}
    {result result' : ObjectId × Nat} (paced : Paced pairs [result.1] [result'.1] left right)
    (ready : Readied pairs left right result result') :
    Coupled (stageMethod trait struct structName method result.1 result.2)
      (stageMethod trait struct structName method result'.1 result'.2) left right
      fun _ _ left' right' => ∃ more, Proceeds pairs left right more [] [] left' right' := by
  have dropped : Paced pairs [] [] left right := ⟨paced.twin, paced.backed.drop, paced.backed'.drop⟩
  have complains : ∀ problem, Coupled (errorAt method problem) (errorAt method problem) left right
      fun _ _ left' right' => ∃ more, Proceeds pairs left right more [] [] left' right' :=
    fun problem => (Even.finish dropped.stays).mono fun _ _ _ _ ended => ended.2
  have twin := paced.twin
  unfold stageMethod
  split
  · exact complains _
  · next signature _ =>
    rw [ready.arity]
    split
    · exact complains _
    · refine coupled_bind (.both ?_)
      have methods := twin.findMethod struct method.text
      generalize left.findMethod struct method.text = one at methods
      generalize right.findMethod struct method.text = other at methods
      cases methods with
      | some same =>
        dsimp only
        rw [same.trait]
        exact complains _
      | none =>
        refine coupled_bind (coupled_allocating fun a b heap heap' made made' => ?_)
        obtain ⟨body, isBody⟩ := ready.here
        obtain ⟨body', isBody'⟩ := ready.there
        obtain ⟨more, goes, joined⟩ := twin.heap.newClosure ready.joined isBody isBody' made made'
        have moved := twin.withHeap goes
        refine .both ⟨more, goes, { moved with staged := ⟨?_, moved.staged.bare, ?_⟩ },
          paced.backed.stage twin.heap.tidy isBody made, paced.backed'.stage twin.heap.tidy' isBody' made'⟩
        · exact List.rel_append moved.staged.methods (.cons ⟨rfl, rfl, rfl, joined⟩ .nil)
        · dsimp only
          rw [moved.staged.rest]

/-- What becomes of a method behind its body. -/
theorem coupled_provide (header : ImplHeader) (provided : List Text) (method : Token)
    {result result' : ObjectId × Nat} (paced : Paced pairs [result.1] [result'.1] left right)
    (ready : Readied pairs left right result result') :
    Coupled (do
        if provided.contains method.text then
          errorAt method (.methodTwice method.text)
          return provided
        else
          match header.trait, header.struct with
          | some trait, some struct =>
            stageMethod trait struct (← structName struct) method result.1 result.2
          | _, _ => pure ()
          return method.text :: provided)
      (do
        if provided.contains method.text then
          errorAt method (.methodTwice method.text)
          return provided
        else
          match header.trait, header.struct with
          | some trait, some struct =>
            stageMethod trait struct (← structName struct) method result'.1 result'.2
          | _, _ => pure ()
          return method.text :: provided) left right
      fun a b left' right' => b = a ∧ ∃ more, Proceeds pairs left right more [] [] left' right' := by
  have dropped : Paced pairs [] [] left right := ⟨paced.twin, paced.backed.drop, paced.backed'.drop⟩
  split
  · exact Even.finish dropped.stays
  · obtain ⟨trait, struct, typeName⟩ := header
    cases trait with
    | none => exact Even.finish dropped.stays
    | some trait =>
      cases struct with
      | none => exact Even.finish dropped.stays
      | some struct =>
        refine coupled_bind (.both ?_)
        rw [paced.twin.structName]
        refine coupled_bind ((coupled_stageMethod paced ready).mono fun _ _ left' right' staged => ?_)
        obtain ⟨more, proceeds⟩ := staged
        exact even_pure_of_proceeds proceeds

instance even_implMethod (header : ImplHeader) (provided : List Text) :
    Even (grammar.implMethod header provided) := by
  unfold implMethod
  refine Even.seq inferInstance fun isMethod => ?_
  split
  · infer_instance
  · refine Even.seq inferInstance fun method => ⟨fun {pairs left right} paced => ?_⟩
    refine coupled_bind ((coupled_function grammar .method _ paced).mono
      fun result result' left' right' made => ?_)
    obtain ⟨more, proceeds, ready⟩ := made
    refine (coupled_provide header provided method proceeds.paced ready).mono
      fun a b left'' right'' ended => ?_
    obtain ⟨same, most, next⟩ := ended
    exact ⟨same, most, proceeds.trans next⟩

omit grammar operands statements declarations in
instance even_stageImpl (header : ImplHeader) (provided : List Text) : Even (stageImpl header provided) := by
  unfold stageImpl
  split <;> infer_instance

instance even_implDeclaration : Even grammar.implDeclaration := by
  have types : ∀ struct : Option StructId, Even
      (modify fun state : State => { state with implType := struct } : Compile Unit) :=
    fun struct => even_modify (fun twin => { twin with implType := rfl }) (fun _ => rfl) (fun _ => rfl)
      (fun _ => rfl) (fun _ => rfl) fun _ => rfl
  unfold implDeclaration
  dsimp only
  infer_instance

instance even_fnDeclaration : Even grammar.fnDeclaration := by
  have defines : ∀ (name : Text) (shape : Shape), Even (modify fun state : State =>
      { state with globals := state.globals.insert name ⟨shape, false⟩ } : Compile Unit) :=
    fun name shape => even_globals fun globals => globals.insert name ⟨shape, false⟩
  unfold fnDeclaration
  refine Even.seq inferInstance fun name => Even.seq inferInstance fun isGlobal => ?_
  have tail : ∀ arity : Nat, Even (do
      let shape : Shape := { arity := some arity }
      if isGlobal then
        modify fun state : State => { state with globals := state.globals.insert name.text ⟨shape, false⟩ }
        emitOperand .defineGlobal (← textConstant name.text)
      else
        shapeNewest shape : Compile Unit) := by
    intro arity
    dsimp only
    infer_instance
  have compiled := even_closure grammar .function name.text tail
  extract_lets body
  have goesOn : ∀ value, Even (body value) := fun _ => compiled
  clear_value body
  infer_instance

instance even_parseDeclaration : Even grammar.parseDeclaration := by
  have recovers : Even (do if (← get).panicking then synchronize grammar.bound : Compile Unit) :=
    even_get (fun twin => by rw [twin.panicking]) fun _ => inferInstance
  unfold parseDeclaration
  extract_lets recover
  have goesOn : ∀ value, Even (recover value) := fun _ => recovers
  clear_value recover
  refine Even.seq inferInstance fun isStruct => ?_
  split
  · infer_instance
  refine Even.seq inferInstance fun isTrait => ?_
  split
  · infer_instance
  refine Even.seq inferInstance fun isImpl => ?_
  split
  · infer_instance
  · exact Even.seq inferInstance fun isFunction =>
      even_get (fun twin => by rw [twin.cursor]) fun _ => inferInstance

end Declarations

end Grammar

end ScriptMachine.Compiler
