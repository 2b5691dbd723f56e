import ScriptMachine.Proofs.Compiler.Quiet
import ScriptMachine.Proofs.Syntax.Rules

set_option autoImplicit false
set_option synthInstance.maxSize 20000

/- Following a compilation through its tokens, up to its first complaint. Most actions of a
production leave the tokens alone; what they may complain about is never the order of the tokens. -/
namespace ScriptMachine

/-- Whether a problem is one with a token or with the order of the tokens, and not with their
meaning. -/
@[reducible] def Problem.isSyntax : Problem → Bool
  | .malformed _ | .expected _ | .invalidAssignmentTarget => true
  | _ => false

namespace Compiler

/-- The tokens from the current one to the end of the unit. -/
def Cursor.pending (cursor : Cursor) : List Token :=
  (cursor.here :: cursor.ahead).takeWhile fun token => token.kind != .finish

namespace State

def pending (state : State) : List Token :=
  state.cursor.pending

/-- The functions being compiled, from the inside out, and how deep in blocks each one is. -/
def nesting (state : State) : List (FunctionKind × Nat) :=
  (state.draft :: state.enclosing).map fun draft => (draft.kind, draft.scopeDepth)

/-- The names of the structs that may be used. -/
def known (state : State) (name : Text) : Prop :=
  (state.findStruct name).isSome

end State

/-- Nothing has been complained about, and there are tokens to the end. -/
structure Ready (state : State) : Prop where
  quiet : Quiet state
  calm : state.panicking = false
  ends : state.cursor.Ends

/-- There has been a complaint. If `strict` holds, the first one is not about syntax. -/
def Excused (strict : Prop) (state : State) : Prop :=
  ∃ first, state.diagnostics[0]? = some first ∧ (strict → first.problem.isSyntax = false)

/-- Both states are in the same function and block, and know the same structs. -/
structure Stays (before after : State) : Prop where
  nesting : after.nesting = before.nesting
  known : after.known = before.known

theorem Stays.refl (state : State) : Stays state state :=
  ⟨rfl, rfl⟩

theorem Stays.trans {first second third : State} (one : Stays first second)
    (two : Stays second third) : Stays first third :=
  ⟨two.nesting.trans one.nesting, two.known.trans one.known⟩

/-- Nor has the cursor moved. -/
structure Rests (before after : State) : Prop extends Stays before after where
  cursor : after.cursor = before.cursor

theorem Rests.refl (state : State) : Rests state state :=
  ⟨.refl state, rfl⟩

theorem Rests.trans {first second third : State} (one : Rests first second)
    (two : Rests second third) : Rests first third :=
  ⟨one.toStays.trans two.toStays, two.cursor.trans one.cursor⟩

theorem Rests.pending {before after : State} (rests : Rests before after) :
    after.pending = before.pending := by
  rw [State.pending, rests.cursor, State.pending]

section Rules

variable {strict : Prop} {α β σ : Type} {state : State}

theorem Change.excused {before after : State} (change : Change before after)
    (excused : Excused strict before) : Excused strict after := by
  obtain ⟨first, isFirst, fine⟩ := excused
  refine ⟨first, ?_, fine⟩
  cases change with
  | report diagnostic =>
    obtain ⟨inside, _⟩ := Array.getElem?_eq_some_iff.mp isFirst
    rw [← isFirst]
    exact Array.getElem?_push_lt inside ▸ (Array.getElem?_eq_getElem inside).symm
  | _ => exact isFirst

theorem excused_of_changes {before after : State} (changes : Changes before after)
    (excused : Excused strict before) : Excused strict after := by
  induction changes with
  | refl => exact excused
  | tail _ last ih => exact last.excused ih

/-- Unless the action stops or there is a complaint, it ends with `done`. -/
def Parses (strict : Prop) (action : Compile α) (state : State) (done : α → State → Prop) : Prop :=
  ∀ result last, action state = .ok result last →
    (Ready last ∧ done result last) ∨ Excused strict last

theorem Parses.mono {action : Compile α} {done weaker : α → State → Prop}
    (parses : Parses strict action state done)
    (implies : ∀ result last, Ready last → done result last → weaker result last) :
    Parses strict action state weaker := by
  intro result last ran
  rcases parses result last ran with ⟨ready, holds⟩ | excused
  · exact Or.inl ⟨ready, implies result last ready holds⟩
  · exact Or.inr excused

theorem parses_pure {value : α} {done : α → State → Prop} (ready : Ready state)
    (holds : done value state) : Parses strict (pure value) state done := by
  intro result last ran
  cases ran
  exact Or.inl ⟨ready, holds⟩

theorem parses_throw {stop : Stop} {done : α → State → Prop} :
    Parses strict (throw stop) state done := by
  intro result last ran
  cases ran

/-- A complaint is not taken back, so a sequence is followed as long as there is none. -/
theorem parses_bind {first : Compile β} {rest : β → Compile α} {between : β → State → Prop}
    {done : α → State → Prop} [keeps : ∀ value origin, Keeps (Changes origin) (rest value)]
    (begins : Parses strict first state between)
    (continues : ∀ value middle, Ready middle → between value middle →
      Parses strict (rest value) middle done) : Parses strict (first >>= rest) state done := by
  intro result last ran
  simp only [bind, EStateM.bind] at ran
  cases begun : first state with
  | error stop middle =>
    rw [begun] at ran
    cases ran
  | ok value middle =>
    rw [begun] at ran
    rcases begins value middle begun with ⟨ready, holds⟩ | excused
    · exact continues value middle ready holds result last ran
    · exact Or.inr (excused_of_changes (changes_of_ran ran) excused)

/-- A sequence that begins with a complaint. -/
theorem Parses.never {first : Compile β} {rest : β → Compile α} {done : α → State → Prop}
    [keeps : ∀ value origin, Keeps (Changes origin) (rest value)]
    (begins : Parses strict first state fun _ _ => False) :
    Parses strict (first >>= rest) state done :=
  parses_bind begins fun _ _ _ impossible => impossible.elim

/-- A sequence whose rest is too involved for an instance to be found. -/
theorem parses_andThen {first : Compile β} {rest : β → Compile α} {between : β → State → Prop}
    {done : α → State → Prop} (keeps : ∀ value origin, Keeps (Changes origin) (rest value))
    (begins : Parses strict first state between)
    (continues : ∀ value middle, Ready middle → between value middle →
      Parses strict (rest value) middle done) : Parses strict (first >>= rest) state done :=
  parses_bind begins continues

/-- What is known to run needs no such care. -/
theorem parses_ran {first : Compile β} {rest : β → Compile α} {done : α → State → Prop} {value : β}
    {middle : State} (ran : first state = .ok value middle)
    (next : Parses strict (rest value) middle done) : Parses strict (first >>= rest) state done := by
  intro result last whole
  simp only [bind, EStateM.bind, ran] at whole
  exact next result last whole

theorem parses_ite {test : Prop} [Decidable test] {yes no : Compile α} {done : α → State → Prop}
    (whenTrue : test → Parses strict yes state done)
    (whenFalse : ¬ test → Parses strict no state done) :
    Parses strict (if test then yes else no) state done := by
  split
  · next holds => exact whenTrue holds
  · next fails => exact whenFalse fails

/-- A loop keeps its invariant until it has done what it is for. -/
theorem parses_iterate (inv : σ → State → Prop) {done : σ → State → Prop}
    {body : σ → Compile (σ × Bool)}
    [keeps : ∀ value origin, Keeps (Changes origin) (body value)]
    (each : ∀ value state, Ready state → inv value state →
      Parses strict (body value) state fun result last =>
        if result.2 = true then inv result.1 last else done result.1 last)
    (bound : Nat) (value : σ) (ready : Ready state) (starts : inv value state) :
    Parses strict (iterate bound value body) state done := by
  induction bound generalizing value state with
  | zero => exact parses_throw
  | succ bound ih =>
    rw [iterate]
    refine parses_bind (each value state ready starts) fun result middle ready holds => ?_
    obtain ⟨next, more⟩ := result
    cases more with
    | true => exact ih next ready holds
    | false => exact parses_pure ready holds

end Rules

section Resting

variable {strict : Prop} {origin : State} {α : Type}

/-- The cursor has stayed where it was, as long as there has been no complaint. -/
def Unmoved (strict : Prop) (origin state : State) : Prop :=
  (Quiet state ∧ state.panicking = false ∧ Rests origin state) ∨ Excused strict state

theorem parses_still {state : State} {action : Compile α}
    [rests : Keeps (Unmoved strict state) action] (ready : Ready state) :
    Parses strict action state fun _ last => Rests state last := by
  intro result last ran
  have left := rests.left (Or.inl ⟨ready.quiet, ready.calm, .refl state⟩)
  rw [ran] at left
  refine left.imp_left fun ⟨quiet, calm, rests⟩ => ⟨⟨quiet, calm, ?_⟩, rests⟩
  have same : last.cursor = state.cursor := rests.cursor
  rw [same]
  exact ready.ends

theorem keeps_unmoved {change : State → State}
    (diagnostics : ∀ state, (change state).diagnostics = state.diagnostics)
    (panicking : ∀ state, (change state).panicking = state.panicking)
    (rests : ∀ state, Rests state (change state)) :
    Keeps (Unmoved strict origin) (modify change : Compile Unit) := by
  refine keeps_modify fun state unmoved => ?_
  unfold Unmoved Quiet Excused at *
  rw [diagnostics, panicking]
  exact unmoved.imp_left fun ⟨quiet, calm, rested⟩ => ⟨quiet, calm, rested.trans (rests state)⟩

/-- Found for every problem that is not one of syntax, by computing `isSyntax`. -/
class Meaning (isSyntax : Bool) : Prop where
  out : isSyntax = false

instance : Meaning false :=
  ⟨rfl⟩

/-- Complaining about the meaning of tokens. -/
instance (token : Token) (problem : Problem) [meaning : Meaning problem.isSyntax] :
    Keeps (Unmoved strict origin) (errorAt token problem) := by
  refine keeps_modify fun state unmoved => ?_
  split
  · exact unmoved
  refine Or.inr ?_
  rcases unmoved with ⟨quiet, -, -⟩ | excused
  · refine ⟨⟨token.line, token.column, problem, state.draft.name⟩, ?_, fun _ => meaning.out⟩
    have empty : state.diagnostics = #[] := quiet
    simp only [empty]
    rfl
  · exact (Change.report _).excused excused

instance : Keeps (Unmoved strict origin) here := by
  unfold here
  infer_instance

instance : Keeps (Unmoved strict origin) previous := by
  unfold previous
  infer_instance

instance (problem : Problem) [meaning : Meaning problem.isSyntax] :
    Keeps (Unmoved strict origin) (error problem) := by
  unfold error
  infer_instance

instance (problem : Problem) [meaning : Meaning problem.isSyntax] :
    Keeps (Unmoved strict origin) (errorHere problem) := by
  unfold errorHere
  infer_instance

instance : Keeps (Unmoved strict origin) draft := by
  unfold draft
  infer_instance

instance : Keeps (Unmoved strict origin) position := by
  unfold position
  infer_instance

instance : Keeps (Unmoved strict origin) atTopLevel := by
  unfold atTopLevel
  infer_instance

theorem keeps_unmovedDraft {change : Draft → Draft}
    (kind : ∀ draft, (change draft).kind = draft.kind)
    (depth : ∀ draft, (change draft).scopeDepth = draft.scopeDepth) :
    Keeps (Unmoved strict origin) (modifyDraft change) := by
  refine keeps_unmoved (fun _ => rfl) (fun _ => rfl) fun state => ⟨⟨?_, rfl⟩, rfl⟩
  simp only [State.nesting, List.map_cons, kind, depth]

instance (change : Prototype → Prototype) : Keeps (Unmoved strict origin) (modifyBody change) :=
  keeps_unmovedDraft (fun _ => rfl) fun _ => rfl

instance (op : Opcode) (a b : Int) : Keeps (Unmoved strict origin) (emitWith op a b) := by
  unfold emitWith
  infer_instance

instance (op : Opcode) : Keeps (Unmoved strict origin) (emit op) := by
  unfold emit
  infer_instance

instance (op : Opcode) (a : Int) : Keeps (Unmoved strict origin) (emitOperand op a) := by
  unfold emitOperand
  infer_instance

instance (op : Opcode) : Keeps (Unmoved strict origin) (emitJump op) := by
  unfold emitJump
  infer_instance

instance (jump : Nat) : Keeps (Unmoved strict origin) (patchJump jump) := by
  unfold patchJump
  infer_instance

instance (target : Nat) : Keeps (Unmoved strict origin) (emitLoop target) := by
  unfold emitLoop
  infer_instance

instance : Keeps (Unmoved strict origin) emitReturnNil := by
  unfold emitReturnNil
  infer_instance

instance (pinned : List ObjectId) (action : (Unit → List ObjectId) → Heap.Action α) :
    Keeps (Unmoved strict origin) (allocating pinned action) where
  left {state} unmoved := by
    have moved : ∀ heap : Heap, Unmoved strict origin { state with heap } := fun heap =>
      unmoved.imp_left fun ⟨quiet, calm, rests⟩ => ⟨quiet, calm, rests.trans ⟨⟨rfl, rfl⟩, rfl⟩⟩
    unfold allocating
    cases action (fun _ => pinned ++ state.roots) state.heap <;> exact moved _

instance (value : Value) : Keeps (Unmoved strict origin) (makeConstant value) := by
  unfold makeConstant
  refine Keeps.andThen inferInstance fun state => ?_
  dsimp only
  split <;> infer_instance

instance (text : Text) : Keeps (Unmoved strict origin) (textConstant text) := by
  unfold textConstant
  infer_instance

instance (shape : Shape) : Keeps (Unmoved strict origin) (shapeNewest shape) :=
  keeps_unmovedDraft (fun _ => rfl) fun _ => rfl

instance : Keeps (Unmoved strict origin) beginBranch :=
  keeps_unmovedDraft (fun _ => rfl) fun _ => rfl

instance : Keeps (Unmoved strict origin) endBranch :=
  keeps_unmovedDraft (fun _ => rfl) fun _ => rfl

instance : Keeps (Unmoved strict origin) markInitialized :=
  keeps_unmovedDraft (fun draft => by split <;> rfl) fun draft => by split <;> rfl

instance (name : Token) : Keeps (Unmoved strict origin) (declareLocal name) := by
  have pushes : Keeps (Unmoved strict origin) (modifyDraft fun draft =>
      { draft with
        locals := { name := name.text, depth := none, branch := draft.branchDepth }
          :: draft.locals }) :=
    keeps_unmovedDraft (fun _ => rfl) fun _ => rfl
  unfold declareLocal
  dsimp only
  infer_instance

instance (found : Variable) : Keeps (Unmoved strict origin) (checkReadable found) := by
  unfold checkReadable
  infer_instance

instance (name : Text) : Keeps (Unmoved strict origin) (resolveLocal name) := by
  unfold resolveLocal
  refine Keeps.andThen inferInstance fun draft => ?_
  split <;> infer_instance

theorem addCapture_complaints (draft : Draft) (capture : Capture) :
    ∀ problem ∈ (addCapture draft capture).2.2, problem.isSyntax = false := by
  unfold addCapture
  split
  · simp
  · dsimp only
    split <;> simp [Problem.isSyntax]

theorem capture_complaints (name : Text) (draft : Draft) (enclosing : List Draft) :
    ∀ problem ∈ (capture name draft enclosing).problems, problem.isSyntax = false := by
  induction enclosing generalizing draft with
  | nil => simp [capture]
  | cons outer rest ih =>
    unfold capture
    split
    · next slot found _ =>
      intro problem member
      rcases List.mem_append.mp member with unreadable | full
      · split at unreadable
        · rw [List.mem_singleton.mp unreadable]
        · cases unreadable
      · exact addCapture_complaints _ _ _ full
    · dsimp only
      split
      · simp
      · intro problem member
        rcases List.mem_append.mp member with around | full
        · exact ih outer _ around
        · exact addCapture_complaints _ _ _ full

theorem addCapture_nesting (draft : Draft) (capture : Capture) :
    ((addCapture draft capture).1.kind, (addCapture draft capture).1.scopeDepth)
      = (draft.kind, draft.scopeDepth) := by
  unfold addCapture
  split
  · rfl
  · dsimp only
    split <;> rfl

theorem keeps_complaints (problems : List Problem)
    (meaning : ∀ problem ∈ problems, problem.isSyntax = false) :
    Keeps (Unmoved strict origin) (forIn problems PUnit.unit fun problem _ => do
      error problem
      pure (ForInStep.yield PUnit.unit) : Compile PUnit) := by
  induction problems with
  | nil =>
    rw [List.forIn_nil]
    infer_instance
  | cons problem rest ih =>
    have here : Meaning problem.isSyntax := ⟨meaning problem List.mem_cons_self⟩
    have rest := ih fun other member => meaning other (List.mem_cons_of_mem _ member)
    rw [List.forIn_cons]
    refine Keeps.andThen inferInstance fun step => ?_
    split <;> infer_instance

instance (name : Text) : Keeps (Unmoved strict origin) (resolveUpvalue name) where
  left {state} unmoved := by
    have complains := @keeps_complaints strict origin _
      (capture_complaints name state.draft state.enclosing)
    have moved : Unmoved strict origin { state with
        draft := (capture name state.draft state.enclosing).draft
        enclosing := (capture name state.draft state.enclosing).enclosing } := by
      refine unmoved.imp_left fun ⟨quiet, calm, rests⟩ =>
        ⟨quiet, calm, rests.trans ⟨⟨?_, rfl⟩, rfl⟩⟩
      exact capture_map _ addCapture_nesting (fun _ _ _ => rfl) name state.draft state.enclosing
    have whole : Keeps (Unmoved strict origin) (do
        for problem in (capture name state.draft state.enclosing).problems do
          error problem
        return (capture name state.draft state.enclosing).index : Compile (Option Nat)) :=
      inferInstance
    exact whole.left moved

instance (id : StructId) : Keeps (Unmoved strict origin) (structName id) := by
  unfold structName
  infer_instance

instance (target : Shape) (name : Text) (given : Nat) :
    Keeps (Unmoved strict origin) (Grammar.checkMethodArity target name given) := by
  unfold Grammar.checkMethodArity
  refine Keeps.andThen inferInstance fun state => ?_
  dsimp only
  split <;> infer_instance

theorem keeps_unmovedStaged {change : Staged → Staged}
    (structs : ∀ staged, (change staged).structs = staged.structs) :
    Keeps (Unmoved strict origin) (modifyStaged change) := by
  refine keeps_unmoved (fun _ => rfl) (fun _ => rfl) fun state => ⟨⟨rfl, ?_⟩, rfl⟩
  funext name
  simp only [State.known, State.findStruct, structs]

instance (trait : TraitType) (struct : StructId) (name : Text) (method : Token)
    (prototype : ObjectId) (arity : Nat) :
    Keeps (Unmoved strict origin) (Grammar.stageMethod trait struct name method prototype arity) := by
  have stages : ∀ method : StagedMethod, Keeps (Unmoved strict origin)
      (modifyStaged fun staged => { staged with methods := staged.methods ++ [method] }) :=
    fun _ => keeps_unmovedStaged fun _ => rfl
  unfold Grammar.stageMethod
  split
  · infer_instance
  · split
    · infer_instance
    · refine Keeps.andThen inferInstance fun state => ?_
      split <;> infer_instance

instance (header : Grammar.ImplHeader) (provided : List Text) :
    Keeps (Unmoved strict origin) (Grammar.stageImpl header provided) := by
  have stages : ∀ impl : StructId × Text, Keeps (Unmoved strict origin)
      (modifyStaged fun staged => { staged with impls := staged.impls ++ [impl] }) :=
    fun _ => keeps_unmovedStaged fun _ => rfl
  unfold Grammar.stageImpl
  split <;> infer_instance

/-- A word that stands for a value. -/
theorem unmoved_literal (kind : TokenKind) : Keeps (Unmoved strict origin) (do
    match kind with
    | .trueWord => emit .true
    | .falseWord => emit .false
    | _ => emit .nil
    return {} : Compile Shape) := by
  dsimp only
  split <;> infer_instance

/-- The end of a call. -/
theorem unmoved_call (arity : Option Nat) (given : Nat) : Keeps (Unmoved strict origin) (do
    match arity with
    | some arity =>
      if given != arity then
        error (.wrongArity arity given)
    | none => pure ()
    emitOperand .call given
    return .anything : Compile Shape) := by
  dsimp only
  split <;> infer_instance

/-- What an impl is for, behind the names in its header. -/
instance unmoved_implTarget (traitName typeName : Token) : Keeps (Unmoved strict origin) (do
    let trait := (← get).findTrait traitName.text
    if trait.isNone then
      errorAt traitName (.undefinedTrait traitName.text)
    let struct := (← get).findStruct typeName.text
    if struct.isNone then
      errorAt typeName (.undefinedStruct typeName.text)
    match trait, struct with
    | some trait, some struct =>
      if (← get).implements struct trait.name then
        errorAt traitName (.alreadyImplemented trait.name (← structName struct))
    | _, _ => pure ()
    return { trait, struct, typeName } : Compile Grammar.ImplHeader) := by
  refine Keeps.andThen inferInstance fun state => ?_
  extract_lets trait afterTrait
  have fromTrait : ∀ value, Keeps (Unmoved strict origin) (afterTrait value) := by
    intro value
    refine Keeps.andThen inferInstance fun state => ?_
    clear_value trait
    generalize state.findStruct typeName.text = struct
    cases trait <;> cases struct <;> dsimp only <;> infer_instance
  clear_value afterTrait
  infer_instance

/-- What is done with a method of an impl, behind its body. -/
instance unmoved_implAnswer (header : Grammar.ImplHeader) (provided : List Text) (method : Token)
    (prototype : ObjectId) (arity : Nat) : Keeps (Unmoved strict origin) (do
      if provided.contains method.text then
        errorAt method (.methodTwice method.text)
        return provided
      else
        match header.trait, header.struct with
        | some trait, some struct =>
          Grammar.stageMethod trait struct (← structName struct) method prototype arity
        | _, _ => pure ()
        return method.text :: provided : Compile (List Text)) := by
  dsimp only
  cases header.trait <;> cases header.struct <;> dsimp only <;> infer_instance

instance (trait : TraitType) : Keeps (Unmoved strict origin)
    (modifyStaged fun staged => { staged with traits := staged.traits ++ [trait] }) :=
  keeps_unmovedStaged fun _ => rfl

instance (struct : Option StructId) : Keeps (Unmoved strict origin)
    (modify fun state : State => { state with implType := struct } : Compile Unit) :=
  keeps_unmoved (fun _ => rfl) (fun _ => rfl) fun _ => ⟨⟨rfl, rfl⟩, rfl⟩

instance (name : Text) (shape : Shape) : Keeps (Unmoved strict origin)
    (modify fun state : State =>
      { state with globals := state.globals.insert name ⟨shape, false⟩ } : Compile Unit) :=
  keeps_unmoved (fun _ => rfl) (fun _ => rfl) fun _ => ⟨⟨rfl, rfl⟩, rfl⟩

/-- An assignment to a local changes what is known about its values. -/
instance unmoved_reshape (slot : Nat) (value : Shape) : Keeps (Unmoved strict origin)
    (modifyDraft fun draft => draft.modifyLocal slot fun found =>
      { found with
        shape := if (found.branch == draft.branchDepth && !found.captured) = true then value.stored
          else found.shape.merge value.stored }) :=
  keeps_unmovedDraft (fun _ => rfl) fun _ => rfl

instance changes_reshape (slot : Nat) (value : Shape) : Keeps (Changes origin)
    (modifyDraft fun draft => draft.modifyLocal slot fun found =>
      { found with
        shape := if (found.branch == draft.branchDepth && !found.captured) = true then value.stored
          else found.shape.merge value.stored }) :=
  keeps_scope fun _ => rfl

/-- And so does one to a global. -/
instance unmoved_reassign (name : Text) (value : Shape) : Keeps (Unmoved strict origin)
    (modify fun state : State => { state with
      globals := state.globals.insert name
        ⟨((state.globals[name]?.map Global.shape).getD {}).merge value.stored, true⟩ } :
      Compile Unit) :=
  keeps_unmoved (fun _ => rfl) (fun _ => rfl) fun _ => ⟨⟨rfl, rfl⟩, rfl⟩

instance changes_reassign (name : Text) (value : Shape) : Keeps (Changes origin)
    (modify fun state : State => { state with
      globals := state.globals.insert name
        ⟨((state.globals[name]?.map Global.shape).getD {}).merge value.stored, true⟩ } :
      Compile Unit) :=
  keeps_change fun state => .declare _ state.implType (.refl _)

instance keeps_getGlobal (inv : State → Prop) (name : Text) (constant : Int)
    [emits : Keeps inv (emitOperand .getGlobal constant)] : Keeps inv (do
      emitOperand .getGlobal constant
      match (← get).globals[name]? with
      | none => return {}
      | some known =>
        return { known.shape.stored with
          arity := if known.reassigned = true then none else known.shape.arity } :
        Compile Shape) := by
  refine Keeps.andThen inferInstance fun _ => Keeps.andThen inferInstance fun state => ?_
  split <;> infer_instance

instance changes_implType (origin : State) (struct : Option StructId) : Keeps (Changes origin)
    (modify fun state : State => { state with implType := struct } : Compile Unit) :=
  keeps_change fun state => .declare state.globals struct (.refl _)

theorem changes_implAnswer (origin : State) (header : Grammar.ImplHeader) (provided : List Text)
    (method : Token) (made : ObjectId × Nat) : Keeps (Changes origin) (do
      if provided.contains method.text then
        errorAt method (.methodTwice method.text)
        return provided
      else
        match header.trait, header.struct with
        | some trait, some struct =>
          Grammar.stageMethod trait struct (← structName struct) method made.1 made.2
        | _, _ => pure ()
        return method.text :: provided : Compile (List Text)) := by
  dsimp only
  cases header.trait <;> cases header.struct <;> dsimp only <;> infer_instance

end Resting

/-- The name of a struct that has just been staged. -/
theorem known_pushed (state : State) (type : StructType) :
    ({ state with staged := { state.staged with
      structs := state.staged.structs.push type } } : State).known =
        fun name => state.known name ∨ type.name = name := by
  funext name
  cases found : state.registry.findStruct name <;>
    simp [State.known, State.findStruct, found, Array.findIdx?_isSome]

section Tokens

variable {strict : Prop} {state : State} {kind : TokenKind} {token : Token} {rest : List Token}

theorem Cursor.here_of_pending {cursor : Cursor} (waiting : cursor.pending = token :: rest) :
    cursor.here = token ∧ token.kind ≠ .finish := by
  unfold Cursor.pending at waiting
  rw [List.takeWhile_cons] at waiting
  split at waiting
  · next inside =>
    obtain ⟨rfl, -⟩ := List.cons.inj waiting
    exact ⟨rfl, by simpa using inside⟩
  · cases waiting

theorem Cursor.here_of_nothing {cursor : Cursor} (waiting : cursor.pending = []) :
    cursor.here.kind = .finish := by
  unfold Cursor.pending at waiting
  rw [List.takeWhile_cons] at waiting
  split at waiting
  · cases waiting
  · next outside => simpa using outside

/-- Behind a token of the unit there is another one, and be it the last. -/
theorem Cursor.Ends.ahead {cursor : Cursor} (ends : cursor.Ends)
    (inside : cursor.here.kind ≠ .finish) : ∃ here ahead, cursor.ahead = here :: ahead := by
  obtain ⟨between, last, whole, isFinish⟩ := ends
  cases between with
  | nil =>
    obtain ⟨rfl, -⟩ := List.cons.inj whole
    exact absurd isFinish inside
  | cons first between =>
    obtain ⟨-, rest⟩ := List.cons.inj whole
    rw [rest]
    cases between with
    | nil => exact ⟨last, [], rfl⟩
    | cons second between => exact ⟨second, _, rfl⟩

theorem Cursor.Ends.passes {cursor : Cursor} (ends : cursor.Ends)
    (waiting : cursor.pending = token :: rest) :
    cursor.moved.pending = rest ∧ cursor.moved.previous = token := by
  obtain ⟨rfl, inside⟩ := Cursor.here_of_pending waiting
  obtain ⟨here, ahead, behind⟩ := ends.ahead inside
  unfold Cursor.pending at waiting
  rw [List.takeWhile_cons, if_pos (by simpa using inside), behind] at waiting
  refine ⟨?_, ?_⟩
  · unfold Cursor.moved Cursor.pending
    simp only [behind]
    exact (List.cons.inj waiting).2
  · simp only [Cursor.moved, Cursor.previous, behind, List.head?_cons, Option.getD_some]

/-- The token behind the current one. -/
theorem Cursor.Ends.next {cursor : Cursor} (ends : cursor.Ends)
    (waiting : cursor.pending = token :: rest) :
    cursor.next.kind = (rest.head?.map Token.kind).getD .finish := by
  obtain ⟨rfl, inside⟩ := Cursor.here_of_pending waiting
  obtain ⟨here, ahead, behind⟩ := ends.ahead inside
  unfold Cursor.pending at waiting
  rw [List.takeWhile_cons, if_pos (by simpa using inside), behind] at waiting
  obtain ⟨-, rfl⟩ := List.cons.inj waiting
  unfold Cursor.next
  rw [behind, List.takeWhile_cons]
  split
  · rfl
  · next outside => simpa using outside

/-- A token has been passed. -/
structure Passes (token : Token) (before after : State) : Prop extends Stays before after where
  pending : before.pending = token :: after.pending
  previous : after.cursor.previous = token

theorem atEnd_eq : atEnd state = .ok state.pending.isEmpty state := by
  have same : (state.cursor.here.kind == .finish) = state.pending.isEmpty := by
    cases waiting : state.pending with
    | nil => simp [Cursor.here_of_nothing waiting]
    | cons token rest =>
      obtain ⟨same, inside⟩ := Cursor.here_of_pending waiting
      simp [same, inside]
  rw [← same]
  rfl

theorem check_eq :
    check kind state = .ok (state.pending.head?.any fun token => token.kind == kind) state := by
  have same : (state.cursor.here.kind == kind && state.cursor.here.kind != .finish)
      = state.pending.head?.any fun token => token.kind == kind := by
    cases waiting : state.pending with
    | nil => simp [Cursor.here_of_nothing waiting]
    | cons token rest =>
      obtain ⟨same, inside⟩ := Cursor.here_of_pending waiting
      simp [same, inside]
  rw [← same]
  rfl

/-- A complaint excuses whatever comes behind it. -/
theorem parses_errorAt {problem : Problem} {done : Unit → State → Prop} (ready : Ready state)
    (fine : strict → problem.isSyntax = false) : Parses strict (errorAt token problem) state done := by
  intro result last ran
  cases ran
  refine Or.inr ⟨⟨token.line, token.column, problem, state.draft.name⟩, ?_, fine⟩
  have empty : state.diagnostics = #[] := ready.quiet
  simp only [ready.calm, Bool.false_eq_true, if_false, empty]
  rfl

theorem parses_error {problem : Problem} {done : Unit → State → Prop} (ready : Ready state)
    (fine : strict → problem.isSyntax = false) : Parses strict (error problem) state done :=
  parses_ran rfl (parses_errorAt ready fine)

theorem parses_errorHere {problem : Problem} {done : Unit → State → Prop} (ready : Ready state)
    (fine : strict → problem.isSyntax = false) : Parses strict (errorHere problem) state done :=
  parses_ran rfl (parses_errorAt ready fine)

/-- A malformed token is complained about. -/
theorem parses_settle (ready : Ready state)
    (legible : strict → ∀ token ∈ state.pending, token.kind ≠ .malformed) :
    Parses strict settle state fun _ last => last = state := by
  have settles : ∀ origin, Keeps (Changes origin)
      (modify fun state => { state with cursor := state.cursor.settled } : Compile Unit) :=
    fun _ => keeps_change fun _ => .settle
  unfold settle
  refine parses_ran rfl (parses_ite (fun isMalformed => ?_) fun _ => parses_pure ready rfl)
  refine (parses_errorAt ready fun isStrict => ?_).never
  have waits : state.cursor.here ∈ state.pending := by
    rw [State.pending, Cursor.pending, List.takeWhile_cons_of_pos]
    · exact List.mem_cons_self
    · rw [beq_iff_eq.mp isMalformed]
      rfl
  exact absurd (beq_iff_eq.mp isMalformed) (legible isStrict _ waits)

theorem parses_step (ready : Ready state) (waiting : state.pending = token :: rest)
    (legible : strict → ∀ token ∈ rest, token.kind ≠ .malformed) :
    Parses strict step state fun _ last => last.pending = rest ∧ Passes token state last := by
  obtain ⟨pending, previous⟩ := ready.ends.passes waiting
  let moved : State := { state with cursor := state.cursor.moved }
  have readyMoved : Ready moved := ⟨ready.quiet, ready.calm, ready.ends.moved⟩
  unfold step
  have legibleMoved : strict → ∀ token ∈ moved.pending, token.kind ≠ .malformed := by
    rwa [show moved.pending = rest from pending]
  refine parses_ran rfl ((parses_settle readyMoved legibleMoved).mono ?_)
  rintro _ last _ rfl
  refine ⟨pending, ⟨rfl, rfl⟩, ?_, previous⟩
  rw [show moved.pending = rest from pending]
  exact waiting

theorem parses_advance (ready : Ready state) (waiting : state.pending = token :: rest)
    (legible : strict → ∀ token ∈ rest, token.kind ≠ .malformed) :
    Parses strict advance state fun _ last => last.pending = rest ∧ Passes token state last := by
  unfold advance
  refine parses_ran atEnd_eq ?_
  rw [waiting]
  exact parses_step ready waiting legible

theorem parses_accept (ready : Ready state) (waiting : state.pending = token :: rest)
    (legible : strict → ∀ token ∈ rest, token.kind ≠ .malformed)
    (same : token.kind = kind) : Parses strict (accept kind) state fun found last =>
      found = true ∧ last.pending = rest ∧ Passes token state last := by
  unfold accept
  refine parses_ran check_eq ?_
  rw [waiting]
  simp only [List.head?_cons, Option.any_some, same, beq_self_eq_true, if_true]
  exact parses_bind (parses_step ready waiting legible) fun _ _ ready passes =>
    parses_pure ready ⟨rfl, passes⟩

theorem head_refused (other : ∀ token ∈ state.pending.head?, token.kind ≠ kind) :
    (state.pending.head?.any fun token => token.kind == kind) = false := by
  cases next : state.pending.head? with
  | none => rfl
  | some token => simpa using other token next

theorem accept_refuses (other : ∀ token ∈ state.pending.head?, token.kind ≠ kind) :
    accept kind state = .ok false state := by
  simp only [accept, bind, EStateM.bind, check_eq, head_refused other]
  rfl

theorem parses_expect {what : String} (ready : Ready state)
    (waiting : state.pending = token :: rest)
    (legible : strict → ∀ token ∈ rest, token.kind ≠ .malformed) (same : token.kind = kind) :
    Parses strict (expect kind what) state fun found last =>
      found = token ∧ last.pending = rest ∧ Passes token state last := by
  unfold expect
  refine parses_ran check_eq ?_
  rw [waiting]
  simp only [List.head?_cons, Option.any_some, same, beq_self_eq_true, if_true]
  refine parses_bind (parses_step ready waiting legible) fun _ last ready passes => ?_
  exact parses_ran rfl (parses_pure ready ⟨passes.2.previous, passes⟩)

end Tokens

section Nesting

variable {strict : Prop} {state : State}

/-- The nesting of blocks and functions tells whether this is the top level of a unit. -/
theorem atTopLevel_of_nesting {later : State} {kind : FunctionKind} {depth : Nat}
    {around : List (FunctionKind × Nat)} (same : later.nesting = (kind, depth) :: around) :
    later.draft.atTopLevel = (kind == .script && depth == 0) := by
  simp only [State.nesting, List.map_cons, List.cons.injEq, Prod.mk.injEq] at same
  rw [Draft.atTopLevel, same.1.1, same.1.2]

theorem Stays.atTopLevel {later : State} (stays : Stays state later) :
    later.draft.atTopLevel = state.draft.atTopLevel :=
  atTopLevel_of_nesting stays.nesting

/-- The cursor rests while the nesting of functions and blocks changes. -/
structure Renests (nesting : List (FunctionKind × Nat)) (before after : State) : Prop where
  nesting : after.nesting = nesting
  known : after.known = before.known
  cursor : after.cursor = before.cursor

theorem Renests.rests {nesting : List (FunctionKind × Nat)} {before between after : State}
    (renests : Renests nesting before between) (rests : Rests between after) :
    Renests nesting before after :=
  ⟨rests.nesting.trans renests.nesting, rests.known.trans renests.known,
    rests.cursor.trans renests.cursor⟩

theorem Renests.trans {one two : List (FunctionKind × Nat)} {before between after : State}
    (first : Renests one before between) (second : Renests two between after) :
    Renests two before after :=
  ⟨second.nesting, second.known.trans first.known, second.cursor.trans first.cursor⟩

section Scopes

variable {kind : FunctionKind} {depth : Nat} {around : List (FunctionKind × Nat)}

theorem parses_beginScope (ready : Ready state) (here : state.nesting = (kind, depth) :: around) :
    Parses strict beginScope state fun _ last => Renests ((kind, depth + 1) :: around) state last := by
  intro result last ran
  cases ran
  refine Or.inl ⟨⟨ready.quiet, ready.calm, ready.ends⟩, ?_, rfl, rfl⟩
  simp only [State.nesting, List.map_cons, List.cons.injEq, Prod.mk.injEq] at here ⊢
  exact ⟨⟨here.1.1, congrArg (· + 1) here.1.2⟩, here.2⟩

theorem parses_endScope (ready : Ready state) : Parses strict endScope state fun _ last =>
    Renests ((state.draft.kind, state.draft.scopeDepth - 1) :: state.nesting.tail) state last := by
  have drops : ∀ (origin : State) (count : Nat), Keeps (Unmoved strict origin)
      (modifyDraft fun draft => { draft with locals := draft.locals.drop count }) :=
    fun _ _ => keeps_unmovedDraft (fun _ => rfl) fun _ => rfl
  unfold endScope
  dsimp only
  let left : State := { state with
    draft := { state.draft with scopeDepth := state.draft.scopeDepth - 1 } }
  have leaves : Renests ((state.draft.kind, state.draft.scopeDepth - 1) :: state.nesting.tail)
      state left := ⟨rfl, rfl, rfl⟩
  have readyLeft : Ready left := ⟨ready.quiet, ready.calm, ready.ends⟩
  exact parses_ran rfl ((parses_still readyLeft).mono fun _ last _ rests => leaves.rests rests)

/-- The end of a block that was entered before. -/
theorem parses_leaveScope (ready : Ready state) (here : state.nesting = (kind, depth + 1) :: around) :
    Parses strict endScope state fun _ last => Renests ((kind, depth) :: around) state last := by
  refine (parses_endScope ready).mono fun _ last _ leaves => ?_
  simp only [State.nesting, List.map_cons, List.cons.injEq, Prod.mk.injEq] at here
  simpa only [State.nesting, List.map_cons, List.tail_cons, here.1.1, here.1.2, here.2,
    Nat.add_sub_cancel] using leaves

end Scopes

theorem parses_beginFunction (ready : Ready state) (kind : FunctionKind) (name : Text) :
    Parses strict (Grammar.beginFunction kind name) state fun _ last =>
      Renests ((kind, 0) :: state.nesting) state last := by
  have names : ∀ (origin : State) (id : ObjectId), Keeps (Changes origin)
      (modifyBody fun body => { body with name := some id }) :=
    fun _ _ => keeps_body fun _ => ⟨rfl, rfl⟩
  rw [Grammar.beginFunction_eq]
  have opens : Parses strict (Grammar.openDraft kind name) state fun _ last =>
      Renests ((kind, 0) :: state.nesting) state last := by
    unfold Grammar.openDraft
    intro result last ran
    simp only [bind, EStateM.bind, allocating] at ran
    cases made : Heap.newFunction (fun _ => [] ++ state.roots) state.heap with
    | error failure heap =>
      rw [made] at ran
      cases ran
    | ok id heap =>
      rw [made] at ran
      cases ran
      exact Or.inl ⟨⟨ready.quiet, ready.calm, ready.ends⟩, rfl, rfl, rfl⟩
  refine parses_bind opens fun _ inner ready opened => ?_
  exact (parses_still ready).mono fun _ last _ rests => opened.rests rests

theorem parses_endFunction (ready : Ready state) :
    Parses strict Grammar.endFunction state fun _ last => Renests last.nesting state last ∧
      (state.enclosing ≠ [] → last.nesting = state.nesting.tail) := by
  intro result last ran
  cases enclosing : state.enclosing with
  | nil =>
    rw [Grammar.endFunction, modifyGet_run] at ran
    simp only [enclosing] at ran
    cases ran
    exact Or.inl ⟨⟨ready.quiet, ready.calm, ready.ends⟩, ⟨rfl, rfl, rfl⟩, fun none => absurd rfl none⟩
  | cons outer rest =>
    rw [Grammar.endFunction, modifyGet_run] at ran
    simp only [enclosing] at ran
    cases ran
    refine Or.inl ⟨⟨ready.quiet, ready.calm, ready.ends⟩, ⟨rfl, rfl, rfl⟩, fun _ => ?_⟩
    rw [State.nesting, State.nesting, enclosing]
    rfl

/-- The end of a function that was entered before. -/
theorem parses_leaveFunction (ready : Ready state) {head : FunctionKind × Nat}
    {around : List (FunctionKind × Nat)} (inside : state.nesting = head :: around)
    (nested : around ≠ []) : Parses strict Grammar.endFunction state fun _ last =>
      Renests around state last := by
  refine (parses_endFunction ready).mono fun _ last _ ⟨leaves, pops⟩ => ?_
  have enclosed : state.enclosing ≠ [] := by
    intro empty
    simp only [State.nesting, empty, List.map_cons, List.map_nil, List.cons.injEq] at inside
    exact nested inside.2.symm
  have popped : last.nesting = around := by
    rw [pops enclosed, inside]
    rfl
  rwa [popped] at leaves

end Nesting

end Compiler

end ScriptMachine
