import ScriptMachine.Proofs.Twins.Pace

set_option autoImplicit false
-- A production is one long sequence of actions, each of which is an instance to be found.
set_option synthInstance.maxSize 20000

/- Reading tokens, reporting problems, writing code and making objects keep pace. -/
namespace ScriptMachine.Compiler

variable {α β : Type} {pairs more : Pairing} {left right left' right' : State}

section Tokens

instance (token : Token) (problem : Problem) : Even (errorAt token problem) := by
  refine even_modify (fun {pairs left right} twin => ?_) (fun state => ?_) (fun state => ?_)
    (fun state => ?_) (fun state => ?_) fun state => ?_
  · rw [twin.panicking]
    split
    · exact twin
    · exact { twin with
        panicking := rfl
        diagnostics := by rw [twin.diagnostics, twin.draft.name] }
  all_goals split <;> rfl

instance : Even here :=
  even_get (fun twin => by rw [twin.cursor]) fun _ => inferInstance

instance : Even previous :=
  even_get (fun twin => by rw [twin.cursor]) fun _ => inferInstance

instance (problem : Problem) : Even (error problem) := by
  unfold error
  infer_instance

instance (problem : Problem) : Even (errorHere problem) := by
  unfold errorHere
  infer_instance

/-- A change of the cursor. -/
theorem even_cursor (change : Cursor → Cursor) :
    Even (modify fun state => { state with cursor := change state.cursor } : Compile Unit) :=
  even_modify (fun twin => { twin with cursor := by rw [twin.cursor] }) (fun _ => rfl) (fun _ => rfl)
    (fun _ => rfl) (fun _ => rfl) fun _ => rfl

instance : Even settle := by
  have settles := even_cursor Cursor.settled
  unfold settle
  infer_instance

instance : Even atEnd := by
  unfold atEnd
  infer_instance

instance (kind : TokenKind) : Even (check kind) := by
  unfold check
  infer_instance

instance : Even step := by
  have moves := even_cursor Cursor.moved
  unfold step
  infer_instance

instance : Even advance := by
  unfold advance
  infer_instance

instance (kind : TokenKind) : Even (accept kind) := by
  unfold accept
  infer_instance

instance (allowed : Bool) (kind : TokenKind) : Even (acceptIf allowed kind) := by
  unfold acceptIf
  infer_instance

instance (kind : TokenKind) (what : String) : Even (expect kind what) := by
  unfold expect
  infer_instance

instance (bound : Nat) : Even (synchronize bound) := by
  have calms : Even (modify fun state => { state with panicking := false } : Compile Unit) :=
    even_modify (fun twin => { twin with panicking := rfl }) (fun _ => rfl) (fun _ => rfl)
      (fun _ => rfl) (fun _ => rfl) fun _ => rfl
  unfold synchronize
  infer_instance

end Tokens

section Code

instance : Even position :=
  even_get (fun twin => by rw [twin.draft.body.code]) fun _ => inferInstance

instance (op : Opcode) (a b : Int) : Even (emitWith op a b) := by
  have emits : ∀ line, Even (modifyBody fun body =>
      { body with code := body.code.push ⟨op, a, b⟩, lines := body.lines.push line }) :=
    fun _ => even_body fun _ _ _ => rfl
  unfold emitWith
  infer_instance

instance (op : Opcode) : Even (emit op) := by
  unfold emit
  infer_instance

instance (op : Opcode) (a : Int) : Even (emitOperand op a) := by
  unfold emitOperand
  infer_instance

instance (op : Opcode) : Even (emitJump op) := by
  unfold emitJump
  infer_instance

instance (jump : Nat) : Even (patchJump jump) :=
  even_body fun _ _ _ => rfl

instance (target : Nat) : Even (emitLoop target) := by
  unfold emitLoop
  infer_instance

instance : Even emitReturnNil := by
  unfold emitReturnNil
  infer_instance

end Code

section Constants

/-- Twins stand in the same place among the constants. -/
theorem Paced.findConstant {a b : ObjectId} (paced : Paced pairs [a] [b] left right) (joined : pairs a b) :
    right.draft.body.constants.findIdx? (fun other => other.object? == some b)
      = left.draft.body.constants.findIdx? fun other => other.object? == some a := by
  have twin := paced.twin
  have named : ∀ {held : List ObjectId} {state : State} {value : Value} {id : ObjectId},
      Backed held state → value ∈ state.draft.body.constants → value.object? = some id →
      (state.heap.get? id).isSome := by
    intro held state value id backed member isObject
    have refers : id ∈ state.draft.body.references := List.mem_append_right _
      (List.mem_filterMap.mpr ⟨value, Array.mem_toList_iff.mpr member, isObject⟩)
    exact backed.stocked id (.root (List.mem_append_right _
      (mem_roots_of_pool (mem_pool_of_references refers))))
  have here : (left.heap.get? a).isSome := paced.backed.stocked a (.root List.mem_cons_self)
  have there : (right.heap.get? b).isSome := paced.backed'.stocked b (.root List.mem_cons_self)
  refine findIdx?_across twin.draft.body.constants fun one inside other inside' same => ?_
  cases same with
  | @ref c d paired =>
    have apart := twin.heap.eq_iff paired joined (named paced.backed inside rfl) here
      (named paced.backed' inside' rfl) there
    simp only [Value.object?, Option.some_beq_some]
    rw [Bool.eq_iff_iff, beq_iff_eq, beq_iff_eq]
    exact apart.symm
  | nil | bool | number | stack => rfl

/-- Of a change of the draft, what the draft refers to is in use before. -/
theorem Backed.withDraft {held : List ObjectId} {state : State} {draft : Draft} (backed : Backed held state)
    (same : draft.id = state.draft.id)
    (refers : ∀ id ∈ draft.body.references, id ∈ held ∨ id ∈ state.draft.body.references) :
    Backed [] { state with draft } := by
  refine backed.reroot rfl rfl rfl (fun id member => ?_) fun other member => ?_
  · simp only [List.nil_append, State.roots, Draft.roots, same, List.mem_append, List.mem_cons] at member ⊢
    rcases member with ((outside | isDraft | inDraft) | around) | staged
    · tauto
    · tauto
    · rcases refers id inDraft with isHeld | before <;> tauto
    · tauto
    · tauto
  · rcases List.mem_cons.mp member with rfl | around
    · rw [same]
      exact backed.functions _ List.mem_cons_self
    · exact backed.functions other (List.mem_cons_of_mem _ around)

/-- A constant is found or added at the same place. An object to be added is held. -/
theorem coupled_makeConstant {value value' : Value}
    (paced : Paced pairs value.object?.toList value'.object?.toList left right)
    (same : value.Twin pairs value') :
    Coupled (makeConstant value) (makeConstant value') left right fun a b left' right' =>
      b = a ∧ ∃ more, Proceeds pairs left right more [] [] left' right' := by
  have twin := paced.twin
  have known : (value'.object?.bind fun id =>
      right.draft.body.constants.findIdx? fun other => other.object? == some id)
      = value.object?.bind fun id =>
        left.draft.body.constants.findIdx? fun other => other.object? == some id := by
    cases same with
    | ref joined => exact paced.findConstant joined
    | nil | bool | number | stack => rfl
  have dropped : Paced pairs [] [] left right :=
    ⟨twin, paced.backed.withDraft rfl fun _ member => .inr member,
      paced.backed'.withDraft rfl fun _ member => .inr member⟩
  unfold makeConstant
  refine coupled_bind (.both ?_)
  dsimp only
  rw [known, ← twin.draft.body.constants.size]
  split
  · exact coupled_pure ⟨rfl, pairs, dropped.stays⟩
  · split
    · exact Even.andThen dropped fun _ _ _ _ proceeds => even_pure_of_proceeds proceeds
    · refine coupled_bind (.both (coupled_pure ⟨rfl, pairs, twin.heap.goes, ?_, ?_, ?_⟩))
      · refine { twin with draft := twin.draft.withBody ⟨twin.draft.body.name, ?_, ?_⟩ }
        · exact twin.draft.body.constants.push same
        · dsimp only
          rw [twin.draft.body.rest]
      · refine paced.backed.withDraft rfl fun id member => ?_
        rcases mem_references_push member with before | new
        · exact .inr before
        · exact .inl (Option.mem_toList.mpr new)
      · refine paced.backed'.withDraft rfl fun id member => ?_
        rcases mem_references_push member with before | new
        · exact .inr before
        · exact .inl (Option.mem_toList.mpr new)

instance (number : Float) : Even (makeConstant (.number number)) where
  coupled paced := coupled_makeConstant paced (.number number)

/-- Two requests to the heap: both are granted, or one is refused. -/
theorem coupled_allocating {pinned pinned' : List ObjectId}
    {action : (Unit → List ObjectId) → Heap.Action α} {action' : (Unit → List ObjectId) → Heap.Action β}
    {done : α → β → State → State → Prop}
    (next : ∀ a b heap heap', action (fun _ => pinned ++ left.roots) left.heap = .ok a heap →
      action' (fun _ => pinned' ++ right.roots) right.heap = .ok b heap' →
      done a b { left with heap } { right with heap := heap' }) :
    Coupled (allocating pinned action) (allocating pinned' action') left right done := by
  unfold Coupled allocating
  cases made : action (fun _ => pinned ++ left.roots) left.heap with
  | error failure heap => exact .exhausted
  | ok a heap =>
    cases made' : action' (fun _ => pinned' ++ right.roots) right.heap with
    | error failure heap' => exact .exhausted'
    | ok b heap' => exact .both (next a b heap heap' made made')

/-- A string is interned. It is held until something refers to it. -/
theorem coupled_intern (paced : Paced pairs [] [] left right) (text : Text)
    {done : ObjectId → ObjectId → State → State → Prop}
    (next : ∀ a b more left' right', Proceeds pairs left right more [a] [b] left' right' → more a b →
      done a b left' right') :
    Coupled (allocating [] (Heap.intern · text)) (allocating [] (Heap.intern · text)) left right
      done := by
  refine coupled_allocating fun a b heap heap' made made' => ?_
  obtain ⟨more, goes, joined⟩ := paced.twin.heap.interned made made'
  have held : ∀ {state : State} {heap : Heap} {id : ObjectId}, Backed [] state → state.heap.Tidy →
      Heap.intern (fun _ => [] ++ state.roots) text state.heap = .ok id heap →
      Backed [id] { state with heap } := by
    intro state heap id backed tidy made
    have retains : Heap.Retains ([] ++ state.roots) state.heap
        (stateLeft (Heap.intern (fun _ => [] ++ state.roots) text state.heap)) :=
      (Heap.Retains.refl _ _).intern (backed.stocked.bounded tidy) (fun _ member => member) text
    rw [made] at retains
    exact (backed.retained retains).hold (Heap.get?_of_intern tidy made) (by simp [Object.references])
  exact next a b more _ _ ⟨goes, paced.twin.withHeap goes, held paced.backed paced.twin.heap.tidy made,
    held paced.backed' paced.twin.heap.tidy' made'⟩ joined

instance (text : Text) : Even (textConstant text) where
  coupled {pairs left right} paced := by
    refine coupled_bind (coupled_intern paced text fun a b more left' right' proceeds joined => ?_)
    refine (coupled_makeConstant proceeds.paced (.ref joined)).mono fun a b left'' right'' goes => ?_
    obtain ⟨same, most, next⟩ := goes
    exact ⟨same, most, proceeds.trans next⟩

end Constants

end ScriptMachine.Compiler
