import Mathlib.Logic.Relation
import ScriptMachine.Compiler
import ScriptMachine.Proofs.Invariant

set_option autoImplicit false
-- A production is one long sequence of actions, each of which is an instance to be found.
set_option synthInstance.maxSize 20000

/- All that a compilation can do to its state, one change at a time. Whatever each change keeps is
kept by every production, and by a unit as a whole, also when the unit is rejected or stops. -/
namespace ScriptMachine.Compiler

/-- What has been declared stays declared. -/
structure Staged.Extends (before after : Staged) : Prop where
  structs : before.structs.toList <+: after.structs.toList
  traits : before.traits <+: after.traits
  impls : before.impls <+: after.impls
  methods : before.methods <+: after.methods

theorem Staged.Extends.refl (staged : Staged) : staged.Extends staged :=
  ⟨List.prefix_rfl, List.prefix_rfl, List.prefix_rfl, List.prefix_rfl⟩

theorem Staged.Extends.trans {first second third : Staged} (one : first.Extends second)
    (two : second.Extends third) : first.Extends third :=
  ⟨one.structs.trans two.structs, one.traits.trans two.traits, one.impls.trans two.impls,
    one.methods.trans two.methods⟩

/-- One change of the state. Code and scopes change in many ways; heap, constants, declarations,
diagnostics and the drafts around the current one only as listed. -/
inductive Change : State → State → Prop where
  | report {state : State} (diagnostic : Diagnostic) :
      Change state { state with
        panicking := true
        diagnostics := state.diagnostics.push diagnostic }
  | calm {state : State} : Change state { state with panicking := false }
  | move {state : State} : Change state { state with cursor := state.cursor.moved }
  | settle {state : State} : Change state { state with cursor := state.cursor.settled }
  | function {state : State} :
      Change state { state with
        heap := stateLeft (Heap.newFunction (fun _ => state.roots) state.heap) }
  | string {state : State} (text : Text) :
      Change state { state with
        heap := stateLeft (Heap.intern (fun _ => state.roots) text state.heap) }
  | closure {state : State} (prototype : ObjectId) :
      Change state { state with
        heap := stateLeft
          (Heap.newClosure (fun _ => prototype :: state.roots) prototype state.heap) }
  | scope {state : State} (locals : List Variable) (scopeDepth branchDepth : Nat) :
      Change state { state with draft := { state.draft with locals, scopeDepth, branchDepth } }
  | body {state : State} (body : Prototype) : body.constants = state.draft.body.constants →
      body.captures = state.draft.body.captures →
      Change state { state with draft := { state.draft with body } }
  | constant {state : State} {value : Value} : value.node? = none →
      Change state { state with
        draft := { state.draft with
          body := { state.draft.body with
            constants := state.draft.body.constants.push value } } }
  | capture {state : State} (name : Text) :
      Change state { state with
        draft := (Compiler.capture name state.draft state.enclosing).draft
        enclosing := (Compiler.capture name state.draft state.enclosing).enclosing }
  | enter {state : State} {draft : Draft} {heap : Heap} :
      Heap.newFunction (fun _ => state.roots) state.heap = .ok draft.id heap →
      draft.body.constants = #[] → draft.body.captures = #[] →
      Change state { state with heap, draft, enclosing := state.draft :: state.enclosing }
  | leave {state : State} :
      Change state { state with
        heap := state.heap.set state.draft.id (.function state.draft.body)
        draft := state.enclosing.head?.getD state.draft
        enclosing := state.enclosing.tail }
  | declare {state : State} (globals : Std.HashMap Text Global) (implType : Option StructId)
      {staged : Staged} : state.staged.Extends staged →
      Change state { state with globals, implType, staged }

namespace Draft

/-- Drafts that differ in what is known of the values of their locals only. -/
structure Alike (before after : Draft) : Prop where
  id : after.id = before.id
  kind : after.kind = before.kind
  name : after.name = before.name
  body : after.body = before.body
  scopeDepth : after.scopeDepth = before.scopeDepth
  locals : after.locals.map (fun found => (found.name, found.depth, found.captured))
    = before.locals.map fun found => (found.name, found.depth, found.captured)

theorem alike_modify (draft : Draft) (index : Nat) {change : Variable → Variable}
    (same : ∀ found, ((change found).name, (change found).depth, (change found).captured)
      = (found.name, found.depth, found.captured)) :
    draft.Alike { draft with locals := draft.locals.modify index change } := by
  refine ⟨rfl, rfl, rfl, rfl, rfl, List.ext_getElem? fun position => ?_⟩
  rw [List.getElem?_map, List.getElem?_map, List.getElem?_modify]
  cases draft.locals[position]? with
  | none => rfl
  | some found =>
    simp only [Option.map_some]
    split
    · exact congrArg some (same found)
    · rfl

end Draft

/-- Invariants that moving through the tokens, reporting and learning about values leave alone. -/
class Indifferent (inv : State → Prop) : Prop where
  report : ∀ {state : State} (diagnostic : Diagnostic), inv state →
    inv { state with panicking := true, diagnostics := state.diagnostics.push diagnostic }
  calm : ∀ {state : State}, inv state → inv { state with panicking := false }
  move : ∀ {state : State}, inv state → inv { state with cursor := state.cursor.moved }
  settle : ∀ {state : State}, inv state → inv { state with cursor := state.cursor.settled }
  draft : ∀ {state : State} {draft : Draft}, state.draft.Alike draft → inv state →
    inv { state with draft }

/-- Any number of changes. -/
abbrev Changes : State → State → Prop :=
  Relation.ReflTransGen Change

section Rules

variable {α σ : Type} {origin : State} {inv : State → Prop}

theorem keeps_change {change : State → State} (each : ∀ state, Change state (change state)) :
    Keeps (Changes origin) (modify change : Compile Unit) :=
  keeps_modify fun state reached => reached.tail (each state)

instance (bound : Nat) (value : σ) (body : σ → Compile (σ × Bool))
    [each : ∀ value, Keeps inv (body value)] : Keeps inv (iterate bound value body) := by
  induction bound generalizing value with
  | zero =>
    rw [iterate]
    infer_instance
  | succ bound ih =>
    rw [iterate]
    infer_instance

instance (list : List α) (init : σ) (body : α → σ → Compile (ForInStep σ))
    [each : ∀ item value, Keeps inv (body item value)] : Keeps inv (forIn list init body) := by
  induction list generalizing init with
  | nil =>
    rw [List.forIn_nil]
    infer_instance
  | cons item rest ih =>
    rw [List.forIn_cons]
    refine Keeps.andThen inferInstance fun step => ?_
    split <;> infer_instance

end Rules

instance (origin : State) : Indifferent (Changes origin) where
  report diagnostic reached := reached.tail (.report diagnostic)
  calm reached := reached.tail .calm
  move reached := reached.tail .move
  settle reached := reached.tail .settle
  draft {state draft} alike reached := by
    have same : draft = { state.draft with
        locals := draft.locals, scopeDepth := draft.scopeDepth, branchDepth := draft.branchDepth } := by
      dsimp only
      rw [← alike.id, ← alike.kind, ← alike.name, ← alike.body]
    rw [same]
    exact reached.tail (.scope _ _ _)

section Tokens

variable {inv : State → Prop} [Indifferent inv]

instance (token : Token) (problem : Problem) : Keeps inv (errorAt token problem) := by
  refine keeps_modify fun state holds => ?_
  split
  · exact holds
  · exact Indifferent.report _ holds

instance : Keeps inv here := by
  unfold here
  infer_instance

instance : Keeps inv previous := by
  unfold previous
  infer_instance

instance (problem : Problem) : Keeps inv (error problem) := by
  unfold error
  infer_instance

instance (problem : Problem) : Keeps inv (errorHere problem) := by
  unfold errorHere
  infer_instance

instance : Keeps inv settle := by
  have moves : Keeps inv
      (modify fun state => { state with cursor := state.cursor.settled } : Compile Unit) :=
    keeps_modify fun _ => Indifferent.settle
  unfold settle
  infer_instance

instance : Keeps inv atEnd := by
  unfold atEnd
  infer_instance

instance (kind : TokenKind) : Keeps inv (check kind) := by
  unfold check
  infer_instance

instance : Keeps inv step := by
  have moves : Keeps inv
      (modify fun state => { state with cursor := state.cursor.moved } : Compile Unit) :=
    keeps_modify fun _ => Indifferent.move
  unfold step
  infer_instance

instance : Keeps inv advance := by
  unfold advance
  infer_instance

instance (kind : TokenKind) : Keeps inv (accept kind) := by
  unfold accept
  infer_instance

instance (allowed : Bool) (kind : TokenKind) : Keeps inv (acceptIf allowed kind) := by
  unfold acceptIf
  infer_instance

instance (kind : TokenKind) (what : String) : Keeps inv (expect kind what) := by
  unfold expect
  infer_instance

instance (bound : Nat) : Keeps inv (synchronize bound) := by
  have calms : Keeps inv
      (modify fun state => { state with panicking := false } : Compile Unit) :=
    keeps_modify fun _ => Indifferent.calm
  unfold synchronize
  infer_instance

instance : Keeps inv draft := by
  unfold draft
  infer_instance

instance : Keeps inv position := by
  unfold position
  infer_instance

instance : Keeps inv atTopLevel := by
  unfold atTopLevel
  infer_instance

theorem keeps_alike {change : Draft → Draft} (alike : ∀ draft : Draft, draft.Alike (change draft)) :
    Keeps inv (modifyDraft change) :=
  keeps_modify fun _ => Indifferent.draft (alike _)

instance (shape : Shape) : Keeps inv (shapeNewest shape) :=
  keeps_alike fun draft => draft.alike_modify 0 fun _ => rfl

instance : Keeps inv beginBranch :=
  keeps_alike fun _ => ⟨rfl, rfl, rfl, rfl, rfl, rfl⟩

instance : Keeps inv endBranch :=
  keeps_alike fun _ => ⟨rfl, rfl, rfl, rfl, rfl, rfl⟩

instance (found : Variable) : Keeps inv (checkReadable found) := by
  unfold checkReadable
  infer_instance

instance (name : Text) : Keeps inv (resolveLocal name) := by
  unfold resolveLocal
  refine Keeps.andThen inferInstance fun draft => ?_
  split <;> infer_instance

instance (id : StructId) : Keeps inv (structName id) := by
  unfold structName
  infer_instance

namespace Grammar

instance (target : Shape) (name : Text) (given : Nat) :
    Keeps inv (checkMethodArity target name given) := by
  unfold checkMethodArity
  refine Keeps.andThen inferInstance fun state => ?_
  dsimp only
  split <;> infer_instance

instance (struct : Text) (fields : List Text) : Keeps inv (fieldDeclaration struct fields) := by
  unfold fieldDeclaration
  dsimp only
  infer_instance

/-- What an impl is for, behind the names in its header. -/
instance keeps_implTarget (traitName typeName : Token) : Keeps inv (do
    let trait := (← get).findTrait traitName.text
    if trait.isNone then
      errorAt traitName (.undefinedTrait traitName.text)
    let struct := (← get).findStruct typeName.text
    if struct.isNone then
      errorAt typeName (.undefinedStruct typeName.text)
    match trait, struct with
    | some trait, some struct =>
      if (← get).implements struct trait.name then
        errorAt traitName (.alreadyImplemented trait.name (← structName struct))
    | _, _ => pure ()
    return { trait, struct, typeName } : Compile ImplHeader) := by
  refine Keeps.andThen inferInstance fun state => ?_
  extract_lets trait afterTrait
  have fromTrait : ∀ value, Keeps inv (afterTrait value) := by
    intro value
    refine Keeps.andThen inferInstance fun state => ?_
    clear_value trait
    generalize state.findStruct typeName.text = struct
    cases trait <;> cases struct <;> dsimp only <;> infer_instance
  clear_value afterTrait
  infer_instance

instance : Keeps inv implHeader := by
  unfold implHeader
  infer_instance

instance (grammar : Grammar) : Keeps inv grammar.signatureArity := by
  unfold signatureArity
  infer_instance

instance (grammar : Grammar) (trait : Text) (signatures : List Signature) :
    Keeps inv (grammar.signature trait signatures) := by
  unfold Grammar.signature
  infer_instance

end Grammar

end Tokens

section Drafts

variable {origin : State}

theorem keeps_allocating {α : Type} {pinned : List ObjectId}
    {action : (Unit → List ObjectId) → Heap.Action α}
    (each : ∀ state, Change state { state with
      heap := stateLeft (action (fun _ => pinned ++ state.roots) state.heap) }) :
    Keeps (Changes origin) (allocating pinned action) where
  left {state} reached := by
    have next := each state
    unfold allocating
    cases ran : action (fun _ => pinned ++ state.roots) state.heap <;>
      · rw [ran] at next
        exact reached.tail next

instance : Keeps (Changes origin) (allocating [] Heap.newFunction) :=
  keeps_allocating fun _ => .function

instance (text : Text) : Keeps (Changes origin) (allocating [] (Heap.intern · text)) :=
  keeps_allocating fun _ => .string text

instance (prototype : ObjectId) :
    Keeps (Changes origin) (allocating [prototype] (Heap.newClosure · prototype)) :=
  keeps_allocating fun _ => .closure prototype

/-- A change of scopes only. -/
theorem keeps_scope {change : Draft → Draft}
    (same : ∀ draft, change draft = { draft with
      locals := (change draft).locals
      scopeDepth := (change draft).scopeDepth
      branchDepth := (change draft).branchDepth }) :
    Keeps (Changes origin) (modifyDraft change) :=
  keeps_change fun state => by
    rw [same]
    exact .scope _ _ _

/-- A change of the code, but not of its constants and captures. -/
theorem keeps_body {change : Prototype → Prototype}
    (same : ∀ body, (change body).constants = body.constants ∧
      (change body).captures = body.captures) :
    Keeps (Changes origin) (modifyBody change) :=
  keeps_change fun _ => .body _ (same _).1 (same _).2

instance (op : Opcode) (a b : Int) : Keeps (Changes origin) (emitWith op a b) := by
  have emits : ∀ line, Keeps (Changes origin) (modifyBody fun body =>
      { body with code := body.code.push ⟨op, a, b⟩, lines := body.lines.push line }) :=
    fun _ => keeps_body fun _ => ⟨rfl, rfl⟩
  unfold emitWith
  infer_instance

instance (op : Opcode) : Keeps (Changes origin) (emit op) := by
  unfold emit
  infer_instance

instance (op : Opcode) (a : Int) : Keeps (Changes origin) (emitOperand op a) := by
  unfold emitOperand
  infer_instance

instance (op : Opcode) : Keeps (Changes origin) (emitJump op) := by
  unfold emitJump
  infer_instance

instance (jump : Nat) : Keeps (Changes origin) (patchJump jump) :=
  keeps_body fun _ => ⟨rfl, rfl⟩

instance (target : Nat) : Keeps (Changes origin) (emitLoop target) := by
  unfold emitLoop
  infer_instance

instance : Keeps (Changes origin) emitReturnNil := by
  unfold emitReturnNil
  infer_instance

theorem keeps_makeConstant {value : Value} (isPlain : value.node? = none) :
    Keeps (Changes origin) (makeConstant value) := by
  have pushes : Keeps (Changes origin)
      (modifyBody fun body => { body with constants := body.constants.push value }) :=
    keeps_change fun _ => .constant isPlain
  unfold makeConstant
  refine Keeps.andThen inferInstance fun state => ?_
  dsimp only
  split <;> infer_instance

instance (object : ObjectId) : Keeps (Changes origin) (makeConstant (.ref object)) :=
  keeps_makeConstant rfl

instance (number : Float) : Keeps (Changes origin) (makeConstant (.number number)) :=
  keeps_makeConstant rfl

instance (text : Text) : Keeps (Changes origin) (textConstant text) := by
  unfold textConstant
  infer_instance

instance : Keeps (Changes origin) beginScope :=
  keeps_scope fun _ => rfl

instance keeps_dropLocals (count : Nat) : Keeps (Changes origin)
    (modifyDraft fun draft => { draft with locals := draft.locals.drop count }) :=
  keeps_scope fun _ => rfl

instance keeps_newLocal (name : Text) : Keeps (Changes origin) (modifyDraft fun draft =>
    { draft with
      locals := { name, depth := none, branch := draft.branchDepth } :: draft.locals }) :=
  keeps_scope fun _ => rfl

instance : Keeps (Changes origin) endScope := by
  have leaves : Keeps (Changes origin)
      (modifyDraft fun draft => { draft with scopeDepth := draft.scopeDepth - 1 }) :=
    keeps_scope fun _ => rfl
  unfold endScope
  dsimp only
  infer_instance

instance (name : Token) : Keeps (Changes origin) (declareLocal name) := by
  unfold declareLocal
  dsimp only
  infer_instance

instance : Keeps (Changes origin) markInitialized := by
  refine keeps_scope fun draft => ?_
  split <;> rfl

instance (name : Text) : Keeps (Changes origin) (resolveUpvalue name) := by
  have captures : Keeps (Changes origin) (modify fun state : State =>
      { state with
        draft := (capture name state.draft state.enclosing).draft
        enclosing := (capture name state.draft state.enclosing).enclosing } : Compile Unit) :=
    keeps_change fun _ => .capture name
  have opened : resolveUpvalue name = (do
      let state ← get
      modify fun state : State =>
        { state with
          draft := (capture name state.draft state.enclosing).draft
          enclosing := (capture name state.draft state.enclosing).enclosing }
      for problem in (capture name state.draft state.enclosing).problems do
        error problem
      return (capture name state.draft state.enclosing).index) := rfl
  rw [opened]
  infer_instance

end Drafts

namespace Grammar

section Productions

variable {origin : State} (grammar : Grammar)
  [operands : ∀ level, Keeps (Changes origin) (grammar.operand level)]
  [statements : Keeps (Changes origin) grammar.statement]
  [declarations : Keeps (Changes origin) grammar.declaration]

include operands in
instance keeps_expression : Keeps (Changes origin) grammar.expression :=
  operands .assignment

include declarations in
instance keeps_block : Keeps (Changes origin) grammar.block := by
  unfold block
  infer_instance

omit grammar in
/-- The draft of a new function, whose prototype has just been allocated, around nothing yet. -/
def openDraft (kind : FunctionKind) (name : Text) : Compile Unit := do
  let id ← allocating [] Heap.newFunction
  modify fun state =>
    let receiver : Variable :=
      { name := if kind == .method then ascii "self" else []
        depth := some 0
        shape := .unknownOf state.implType }
    { state with
      draft := { id, kind, name, body := { isMethod := kind == .method }, locals := [receiver] }
      enclosing := state.draft :: state.enclosing }

theorem beginFunction_eq (kind : FunctionKind) (name : Text) :
    beginFunction kind name = (do
      openDraft kind name
      let nameId ← allocating [] (Heap.intern · name)
      modifyBody fun body => { body with name := some nameId }) := by
  unfold beginFunction openDraft
  rw [bind_assoc]

instance keeps_openDraft (kind : FunctionKind) (name : Text) :
    Keeps (Changes origin) (openDraft kind name) where
  left {state} reached := by
    simp only [openDraft, bind, EStateM.bind, allocating]
    cases ran : Heap.newFunction (fun _ => [] ++ state.roots) state.heap with
    | ok id heap => exact reached.tail (.enter ran rfl rfl)
    | error failure heap =>
      have left : heap = stateLeft (Heap.newFunction (fun _ => state.roots) state.heap) :=
        (congrArg stateLeft ran).symm
      rw [left]
      exact reached.tail .function

instance keeps_beginFunction (kind : FunctionKind) (name : Text) :
    Keeps (Changes origin) (beginFunction kind name) := by
  have names : ∀ id : ObjectId, Keeps (Changes origin)
      (modifyBody fun body => { body with name := some id }) :=
    fun _ => keeps_body fun _ => ⟨rfl, rfl⟩
  rw [beginFunction_eq]
  infer_instance

instance keeps_endFunction : Keeps (Changes origin) endFunction := by
  refine keeps_modifyGet fun state reached => ?_
  dsimp only
  split
  · next isLast =>
    have left := @Change.leave state
    rw [isLast] at left
    exact reached.tail (by rw [isLast]; exact left)
  · next outer rest around =>
    have left := @Change.leave state
    rw [around] at left
    exact reached.tail left

instance keeps_parameters : Keeps (Changes origin) grammar.parameters := by
  have counts : Keeps (Changes origin)
      (modifyBody fun body => { body with arity := body.arity + 1 }) :=
    keeps_body fun _ => ⟨rfl, rfl⟩
  unfold parameters
  dsimp only
  infer_instance

instance keeps_function (kind : FunctionKind) (name : Text) :
    Keeps (Changes origin) (grammar.function kind name) := by
  unfold Grammar.function
  infer_instance

end Productions

section Expressions

variable {origin : State} (grammar : Grammar)
  [operands : ∀ level, Keeps (Changes origin) (grammar.operand level)]
  [declarations : Keeps (Changes origin) grammar.declaration]

instance keeps_arguments : Keeps (Changes origin) grammar.arguments := by
  unfold arguments
  dsimp only
  infer_instance

instance keeps_initialiser (type : StructType) (onHeap : Bool) (layout : List Nat) :
    Keeps (Changes origin) (grammar.initialiser type onHeap layout) := by
  unfold initialiser
  refine Keeps.andThen inferInstance fun field => ?_
  dsimp only
  cases type.findField field.text <;> infer_instance

instance keeps_structLiteral (id : StructId) (onHeap : Bool) :
    Keeps (Changes origin) (grammar.structLiteral id onHeap) := by
  have lays : ∀ slots : List Nat, Keeps (Changes origin)
      (modifyBody fun body => { body with layouts := body.layouts.push slots }) :=
    fun _ => keeps_body fun _ => ⟨rfl, rfl⟩
  unfold structLiteral
  dsimp only
  infer_instance

instance keeps_localVariable (slot : Nat) (canAssign : Bool) :
    Keeps (Changes origin) (grammar.localVariable slot canAssign) := by
  have shapes : ∀ value : Shape, Keeps (Changes origin)
      (modifyDraft fun draft => draft.modifyLocal slot fun found =>
        let always := found.branch == draft.branchDepth && !found.captured
        { found with shape := if always then value.stored else found.shape.merge value.stored }) :=
    fun _ => keeps_scope fun _ => rfl
  unfold localVariable
  dsimp only
  infer_instance

instance keeps_upvalueVariable (index : Nat) (canAssign : Bool) :
    Keeps (Changes origin) (grammar.upvalueVariable index canAssign) := by
  unfold upvalueVariable
  infer_instance

instance keeps_globalVariable (name : Token) (canAssign : Bool) :
    Keeps (Changes origin) (grammar.globalVariable name canAssign) := by
  have assigns : ∀ value : Shape, Keeps (Changes origin) (modify fun state : State =>
      let known := (state.globals[name.text]?.map Global.shape).getD {}
      { state with
        globals := state.globals.insert name.text ⟨known.merge value.stored, true⟩ } :
      Compile Unit) :=
    fun _ => keeps_change fun state => .declare _ state.implType (.refl _)
  unfold globalVariable
  refine Keeps.andThen inferInstance fun constant => ?_
  refine Keeps.andThen inferInstance fun assigned => ?_
  dsimp only
  split
  · infer_instance
  · refine Keeps.andThen inferInstance fun _ => ?_
    refine Keeps.andThen inferInstance fun state => ?_
    split <;> infer_instance

instance keeps_namedVariable (name : Token) (canAssign : Bool) :
    Keeps (Changes origin) (grammar.namedVariable name canAssign) := by
  unfold namedVariable
  refine Keeps.andThen inferInstance fun found => ?_
  split
  · infer_instance
  · refine Keeps.andThen inferInstance fun captured => ?_
    split <;> infer_instance

instance keeps_identifier (canAssign : Bool) :
    Keeps (Changes origin) (grammar.identifier canAssign) := by
  unfold identifier
  refine Keeps.andThen inferInstance fun name => ?_
  refine Keeps.andThen inferInstance fun braced => ?_
  refine Keeps.andThen inferInstance fun state => ?_
  dsimp only
  split <;> infer_instance

instance keeps_receiver : Keeps (Changes origin) grammar.receiver := by
  unfold receiver
  infer_instance

instance keeps_heapStruct : Keeps (Changes origin) grammar.heapStruct := by
  unfold heapStruct
  refine Keeps.andThen inferInstance fun name => ?_
  refine Keeps.andThen inferInstance fun state => ?_
  split <;> infer_instance

instance keeps_functionLiteral : Keeps (Changes origin) grammar.functionLiteral := by
  unfold functionLiteral
  infer_instance

instance keeps_opening (canAssign : Bool) (opening : Opening) :
    Keeps (Changes origin) (grammar.opening canAssign opening) := by
  unfold Grammar.opening
  split
  case h_6 =>
    refine Keeps.andThen inferInstance fun token => ?_
    dsimp only
    split <;> infer_instance
  all_goals infer_instance

instance keeps_shortCircuit (left : Shape) (skip : Opcode) (level : Level) :
    Keeps (Changes origin) (grammar.shortCircuit left skip level) := by
  have begins : Keeps (Changes origin)
      (modifyDraft fun draft => { draft with branchDepth := draft.branchDepth + 1 }) :=
    keeps_scope fun _ => rfl
  have ends : Keeps (Changes origin)
      (modifyDraft fun draft => { draft with branchDepth := draft.branchDepth - 1 }) :=
    keeps_scope fun _ => rfl
  unfold shortCircuit
  infer_instance

instance keeps_call (callee : Shape) : Keeps (Changes origin) (grammar.call callee) := by
  unfold Grammar.call
  refine Keeps.andThen inferInstance fun given => ?_
  dsimp only
  split <;> infer_instance

instance keeps_property (target : Shape) (canAssign : Bool) :
    Keeps (Changes origin) (grammar.property target canAssign) := by
  unfold property
  infer_instance

instance keeps_continuation (left : Shape) (canAssign : Bool) (level : Level)
    (continuation : Continuation) :
    Keeps (Changes origin) (grammar.continuation left canAssign level continuation) := by
  unfold Grammar.continuation
  split <;> infer_instance

/-- One round of what follows an operand. -/
instance keeps_round (level : Level) (canAssign : Bool) (shape : Shape) :
    Keeps (Changes origin) (do
      match Continuation.of? (← here).kind with
      | none => return (shape, false)
      | some (continuation, strength) =>
        if level.rank ≤ strength.rank then
          advance
          return (← grammar.continuation shape canAssign strength continuation, true)
        else
          return (shape, false) : Compile (Shape × Bool)) := by
  refine Keeps.andThen inferInstance fun token => ?_
  split <;> infer_instance

instance keeps_parseOperand (level : Level) :
    Keeps (Changes origin) (grammar.parseOperand level) := by
  unfold parseOperand
  refine Keeps.andThen inferInstance fun _ => ?_
  refine Keeps.andThen inferInstance fun token => ?_
  split
  · infer_instance
  · dsimp only
    infer_instance

end Expressions

section Statements

variable {origin : State} (grammar : Grammar)
  [operands : ∀ level, Keeps (Changes origin) (grammar.operand level)]
  [statements : Keeps (Changes origin) grammar.statement]
  [declarations : Keeps (Changes origin) grammar.declaration]

include operands

instance keeps_varDeclaration : Keeps (Changes origin) grammar.varDeclaration := by
  have defines : ∀ (name : Text) (shape : Shape), Keeps (Changes origin) (modify fun state : State =>
      { state with globals := state.globals.insert name ⟨shape, false⟩ } : Compile Unit) :=
    fun _ _ => keeps_change fun state => .declare _ state.implType (.refl _)
  unfold varDeclaration
  dsimp only
  infer_instance

instance keeps_expressionStatement : Keeps (Changes origin) grammar.expressionStatement := by
  unfold expressionStatement
  infer_instance

instance keeps_printStatement : Keeps (Changes origin) grammar.printStatement := by
  unfold printStatement
  infer_instance

include statements

instance keeps_ifStatement : Keeps (Changes origin) grammar.ifStatement := by
  unfold ifStatement
  dsimp only
  infer_instance

instance keeps_whileStatement : Keeps (Changes origin) grammar.whileStatement := by
  unfold whileStatement
  infer_instance

omit statements in
instance keeps_forCondition : Keeps (Changes origin) grammar.forCondition := by
  unfold forCondition
  infer_instance

omit statements in
instance keeps_forIncrement (condition : Nat) :
    Keeps (Changes origin) (grammar.forIncrement condition) := by
  unfold forIncrement
  infer_instance

instance keeps_forStatement : Keeps (Changes origin) grammar.forStatement := by
  have tail : ∀ exit : Option Nat, Keeps (Changes origin) (do
      match exit with
      | some exit =>
        patchJump exit
        emit .pop
      | none => pure ()
      endScope : Compile Unit) := by
    intro exit
    cases exit <;> dsimp only <;> infer_instance
  unfold forStatement
  dsimp only
  infer_instance

omit statements in
instance keeps_returnStatement : Keeps (Changes origin) grammar.returnStatement := by
  have rejects : ∀ (keyword : Token) (struct : Option StructId), Keeps (Changes origin) (do
      let name ← match struct with
        | some id => structName id
        | none => pure (ascii "struct")
      errorAt keyword (.returnedStruct name)
      let _ ← expect .semicolon "';' after return value"
      emit .return : Compile Unit) := by
    intro keyword struct
    cases struct <;> dsimp only <;> infer_instance
  unfold returnStatement
  dsimp only at rejects ⊢
  infer_instance

instance keeps_parseStatement : Keeps (Changes origin) grammar.parseStatement := by
  unfold parseStatement
  infer_instance

end Statements

section Declarations

variable {origin : State} (grammar : Grammar)
  [operands : ∀ level, Keeps (Changes origin) (grammar.operand level)]
  [statements : Keeps (Changes origin) grammar.statement]
  [declarations : Keeps (Changes origin) grammar.declaration]

theorem keeps_modifyStaged {change : Staged → Staged}
    (extended : ∀ staged : Staged, staged.Extends (change staged)) :
    Keeps (Changes origin) (modifyStaged change) :=
  keeps_change fun state => .declare state.globals state.implType (extended state.staged)

instance keeps_stageStruct (type : StructType) : Keeps (Changes origin)
    (modifyStaged fun staged => { staged with structs := staged.structs.push type }) :=
  keeps_modifyStaged fun staged => { Staged.Extends.refl staged with structs := by simp }

instance keeps_stageTrait (trait : TraitType) : Keeps (Changes origin)
    (modifyStaged fun staged => { staged with traits := staged.traits ++ [trait] }) :=
  keeps_modifyStaged fun staged =>
    { Staged.Extends.refl staged with traits := List.prefix_append _ _ }

instance keeps_stageAnswer (method : StagedMethod) : Keeps (Changes origin)
    (modifyStaged fun staged => { staged with methods := staged.methods ++ [method] }) :=
  keeps_modifyStaged fun staged =>
    { Staged.Extends.refl staged with methods := List.prefix_append _ _ }

instance keeps_fileImpl (impl : StructId × Text) : Keeps (Changes origin)
    (modifyStaged fun staged => { staged with impls := staged.impls ++ [impl] }) :=
  keeps_modifyStaged fun staged =>
    { Staged.Extends.refl staged with impls := List.prefix_append _ _ }

instance keeps_structDeclaration : Keeps (Changes origin) grammar.structDeclaration := by
  unfold structDeclaration
  dsimp only
  infer_instance

instance keeps_traitDeclaration : Keeps (Changes origin) grammar.traitDeclaration := by
  unfold traitDeclaration
  dsimp only
  infer_instance

instance keeps_stageMethod (trait : TraitType) (struct : StructId) (name : Text) (method : Token)
    (prototype : ObjectId) (arity : Nat) :
    Keeps (Changes origin) (stageMethod trait struct name method prototype arity) := by
  unfold stageMethod
  split
  · infer_instance
  · split
    · infer_instance
    · refine Keeps.andThen inferInstance fun state => ?_
      split <;> infer_instance

instance keeps_implMethod (header : ImplHeader) (provided : List Text) :
    Keeps (Changes origin) (grammar.implMethod header provided) := by
  unfold implMethod
  dsimp only
  cases header.trait <;> cases header.struct <;> dsimp only <;> infer_instance

omit grammar in
instance keeps_stageImpl (header : ImplHeader) (provided : List Text) :
    Keeps (Changes origin) (stageImpl header provided) := by
  unfold stageImpl
  split <;> infer_instance

instance keeps_implDeclaration : Keeps (Changes origin) grammar.implDeclaration := by
  have types : ∀ struct : Option StructId, Keeps (Changes origin)
      (modify fun state : State => { state with implType := struct } : Compile Unit) :=
    fun struct => keeps_change fun state => .declare state.globals struct (.refl _)
  unfold implDeclaration
  dsimp only
  infer_instance

instance keeps_fnDeclaration : Keeps (Changes origin) grammar.fnDeclaration := by
  have defines : ∀ (name : Text) (shape : Shape), Keeps (Changes origin) (modify fun state : State =>
      { state with globals := state.globals.insert name ⟨shape, false⟩ } : Compile Unit) :=
    fun _ _ => keeps_change fun state => .declare _ state.implType (.refl _)
  unfold fnDeclaration
  dsimp only
  infer_instance

instance keeps_parseDeclaration : Keeps (Changes origin) grammar.parseDeclaration := by
  unfold parseDeclaration
  dsimp only
  infer_instance

end Declarations

end Grammar

section Captures

theorem addCapture_constants (draft : Draft) (capture : Capture) :
    (addCapture draft capture).1.body.constants = draft.body.constants := by
  unfold addCapture
  split
  · rfl
  · dsimp only
    split <;> rfl

theorem addCapture_id (draft : Draft) (capture : Capture) :
    (addCapture draft capture).1.id = draft.id := by
  unfold addCapture
  split
  · rfl
  · dsimp only
    split <;> rfl

/-- Capturing a variable changes the captures and the locals of drafts, and nothing else. -/
theorem capture_map {β : Type} (view : Draft → β)
    (captures : ∀ draft capture, view (addCapture draft capture).1 = view draft)
    (locals : ∀ draft slot change, view (draft.modifyLocal slot change) = view draft)
    (name : Text) (draft : Draft) (enclosing : List Draft) :
    ((capture name draft enclosing).draft :: (capture name draft enclosing).enclosing).map view
      = (draft :: enclosing).map view := by
  induction enclosing generalizing draft with
  | nil => rfl
  | cons outer rest ih =>
    unfold capture
    split
    · simp only [List.map_cons, captures, locals]
    · have around := ih outer
      simp only [List.map_cons] at around
      dsimp only
      split <;> simp only [List.map_cons, captures, around]

end Captures

section Units

variable {origin : State}

theorem keeps_grammar (depth : Nat) :
    (∀ level, Keeps (Changes origin) (operandAt depth level)) ∧
      Keeps (Changes origin) (statementAt depth) ∧ Keeps (Changes origin) (declarationAt depth) := by
  induction depth with
  | zero =>
    simp only [operandAt, statementAt, declarationAt]
    exact ⟨fun _ => inferInstance, inferInstance, inferInstance⟩
  | succ depth ih =>
    obtain ⟨operands, statements, declarations⟩ := ih
    simp only [operandAt, statementAt, declarationAt]
    exact ⟨fun _ => inferInstance, inferInstance, inferInstance⟩

instance (depth : Nat) : Keeps (Changes origin) (unit depth) := by
  have declares : Keeps (Changes origin) (declarationAt depth) := (keeps_grammar depth).2.2
  unfold unit
  infer_instance

/-- The complaint about a struct that cannot be returned. -/
theorem changes_returnedStruct (origin : State) (keyword : Token) (struct : Option StructId) :
    Keeps (Changes origin) (do
      let name ← match struct with
        | some id => structName id
        | none => pure (ascii "struct")
      errorAt keyword (.returnedStruct name)
      let _ ← expect .semicolon "';' after return value"
      emit .return : Compile Unit) := by
  cases struct <;> dsimp only <;> infer_instance

/-- The end of a loop that may have had a condition. -/
theorem changes_leaveLoop (origin : State) (exit : Option Nat) : Keeps (Changes origin)
    (match exit with
      | some exit => do
        patchJump exit
        emit .pop
        endScope
      | none => endScope : Compile Unit) := by
  cases exit <;> dsimp only <;> infer_instance

/-- What every change keeps holds when a unit has been compiled, or has stopped. -/
theorem unit_keeps {inv : State → Prop} (each : ∀ before after, Change before after → inv before →
    inv after) {state : State} (starts : inv state) (depth : Nat) :
    inv (stateLeft (unit depth state)) := by
  have changes : ∀ after, Changes state after → inv after := by
    intro after reached
    induction reached with
    | refl => exact starts
    | tail _ last ih => exact each _ _ last ih
  exact changes _ (Keeps.left .refl)

end Units

end ScriptMachine.Compiler
