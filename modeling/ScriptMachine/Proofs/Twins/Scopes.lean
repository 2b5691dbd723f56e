import ScriptMachine.Proofs.Twins.Writing

set_option autoImplicit false
set_option synthInstance.maxSize 20000

/- Scopes, captures, and the beginning and end of a function keep pace. -/
namespace ScriptMachine.Compiler

variable {pairs more : Pairing} {left right : State} {draft draft' : Draft} {held : List ObjectId}

section Scopes

instance : Even atTopLevel :=
  even_draft (fun twin => by rw [Draft.atTopLevel, Draft.atTopLevel, twin.kind, twin.scopeDepth])
    fun _ => inferInstance

instance : Even beginScope :=
  even_scope fun _ _ _ => rfl

instance : Even beginBranch :=
  even_scope fun _ _ _ => rfl

instance : Even endBranch :=
  even_scope fun _ _ _ => rfl

instance (shape : Shape) : Even (shapeNewest shape) :=
  even_scope fun _ _ _ => rfl

instance : Even markInitialized :=
  even_scope fun draft id body => by
    dsimp only
    split <;> rfl

instance : Even endScope := by
  have leaves : Even (modifyDraft fun draft => { draft with scopeDepth := draft.scopeDepth - 1 }) :=
    even_scope fun _ _ _ => rfl
  have drops : ∀ count, Even
      (modifyDraft fun draft => { draft with locals := draft.locals.drop count }) :=
    fun _ => even_scope fun _ _ _ => rfl
  have closes : ∀ outer : Nat, Even (do
      let leaving := (← Compiler.draft).locals.takeWhile fun newest =>
        match newest.depth with
        | some depth => outer < depth
        | none => false
      for newest in leaving do
        emit (if newest.captured then .closeUpvalue else .pop)
      modifyDraft fun draft => { draft with locals := draft.locals.drop leaving.length } :
      Compile Unit) :=
    fun outer => even_draft (fun twin => by rw [twin.locals]) fun _ => inferInstance
  unfold endScope
  have reads : Even (Compiler.draft >>= fun draft => do
      let outer := draft.scopeDepth
      let leaving := (← Compiler.draft).locals.takeWhile fun newest =>
        match newest.depth with
        | some depth => outer < depth
        | none => false
      for newest in leaving do
        emit (if newest.captured then .closeUpvalue else .pop)
      modifyDraft fun draft => { draft with locals := draft.locals.drop leaving.length } :
      Compile Unit) :=
    even_draft (fun twin => by rw [twin.scopeDepth]) fun draft => closes draft.scopeDepth
  infer_instance

instance (name : Token) : Even (declareLocal name) := by
  have declares : Even (modifyDraft fun draft =>
      { draft with
        locals := { name := name.text, depth := none, branch := draft.branchDepth }
          :: draft.locals }) :=
    even_scope fun _ _ _ => rfl
  unfold declareLocal
  refine even_draft (fun {pairs draft draft'} twin => ?_) fun draft => ?_
  · have block : declaredHere draft' name.text = declaredHere draft name.text := by
      rw [declaredHere, declaredHere, twin.locals, twin.scopeDepth]
    rw [block, twin.locals]
  · dsimp only
    infer_instance

instance (found : Variable) : Even (checkReadable found) := by
  unfold checkReadable
  infer_instance

instance (name : Text) : Even (resolveLocal name) := by
  unfold resolveLocal
  refine even_draft (fun {pairs draft draft'} twin => ?_) fun draft => ?_
  · rw [Draft.findLocal, Draft.findLocal, twin.locals]
  · split <;> infer_instance

end Scopes

section Captures

theorem Draft.Twin.findLocal (twin : draft.Twin pairs draft') (name : Text) :
    draft'.findLocal name = draft.findLocal name := by
  rw [Draft.findLocal, Draft.findLocal, twin.locals]

theorem Draft.Twin.modifyLocal (twin : draft.Twin pairs draft') (slot : Nat)
    (change : Variable → Variable) :
    (draft.modifyLocal slot change).Twin pairs (draft'.modifyLocal slot change) :=
  @Draft.Twin.change pairs draft draft' (fun draft => draft.modifyLocal slot change) twin fun _ _ _ => rfl

/-- A capture is found or added at the same place. -/
theorem Draft.Twin.addCapture (twin : draft.Twin pairs draft') (capture : Capture) :
    (Compiler.addCapture draft capture).1.Twin pairs (Compiler.addCapture draft' capture).1 ∧
      (Compiler.addCapture draft' capture).2 = (Compiler.addCapture draft capture).2 := by
  unfold Compiler.addCapture
  rw [twin.body.captures]
  split
  · exact ⟨twin, rfl⟩
  · dsimp only
    split
    · exact ⟨twin, rfl⟩
    · refine ⟨twin.withBody ⟨twin.body.name, twin.body.constants, ?_⟩, rfl⟩
      dsimp only
      rw [twin.body.rest]

/-- A name is found in the same function around, and captured through the same ones in between. -/
theorem capture_twin {enclosing enclosing' : List Draft} (name : Text)
    (around : List.Forall₂ (Draft.Twin pairs) enclosing enclosing') :
    ∀ {draft draft' : Draft}, draft.Twin pairs draft' →
      (capture name draft enclosing).draft.Twin pairs (capture name draft' enclosing').draft ∧
        List.Forall₂ (Draft.Twin pairs) (capture name draft enclosing).enclosing
          (capture name draft' enclosing').enclosing ∧
        (capture name draft' enclosing').index = (capture name draft enclosing).index ∧
        (capture name draft' enclosing').problems = (capture name draft enclosing).problems := by
  induction around with
  | nil => exact fun twin => ⟨twin, .nil, rfl, rfl⟩
  | @cons outer outer' rest rest' same others ih =>
    intro draft draft' twin
    unfold capture
    rw [same.findLocal]
    split
    · next slot found isLocal =>
      obtain ⟨added, alike⟩ := twin.addCapture ⟨slot, true⟩
      refine ⟨added, .cons (same.modifyLocal slot _) others, ?_, ?_⟩
      · exact congrArg (fun added => some added.1) alike
      · exact congrArg (fun added => _ ++ added.2) alike
    · obtain ⟨around, within, index, problems⟩ := ih same
      dsimp only
      rw [index, problems]
      split
      · exact ⟨twin, .cons around within, rfl, rfl⟩
      · next index isIndex =>
        obtain ⟨added, alike⟩ := twin.addCapture ⟨index, false⟩
        refine ⟨added, .cons around within, ?_, ?_⟩
        · exact congrArg (fun added => some added.1) alike
        · exact congrArg (fun added => _ ++ added.2) alike

theorem addCapture_roots (draft : Draft) (capture : Capture) :
    (addCapture draft capture).1.roots = draft.roots := by
  unfold addCapture
  split
  · rfl
  · dsimp only
    split <;> rfl

instance (name : Text) : Even (resolveUpvalue name) where
  coupled {pairs left right} paced := by
    have twin := paced.twin
    obtain ⟨within, around, index, problems⟩ := capture_twin name twin.enclosing twin.draft
    have kept : ∀ {state : State}, Backed [] state →
        Backed [] { state with
          draft := (capture name state.draft state.enclosing).draft
          enclosing := (capture name state.draft state.enclosing).enclosing } := by
      intro state backed
      have roots := capture_map Draft.roots addCapture_roots (fun _ _ _ => rfl) name state.draft
        state.enclosing
      have ids := capture_map Draft.id addCapture_id (fun _ _ _ => rfl) name state.draft state.enclosing
      refine backed.reroot rfl rfl rfl (fun id member => ?_) fun draft member => ?_
      · have all := congrArg List.flatten roots
        simp only [List.map_cons, List.flatten_cons, ← List.flatMap_def] at all
        simp only [State.roots, List.append_assoc] at member ⊢
        rw [← List.append_assoc (Draft.roots _), all, List.append_assoc] at member
        exact member
      · have inside := List.mem_map_of_mem (f := Draft.id) member
        rw [State.drafts, ids] at inside
        obtain ⟨old, isOld, same⟩ := List.mem_map.mp inside
        rw [← same]
        exact backed.functions old isOld
    have captured : Proceeds pairs left right pairs [] []
        { left with
          draft := (capture name left.draft left.enclosing).draft
          enclosing := (capture name left.draft left.enclosing).enclosing }
        { right with
          draft := (capture name right.draft right.enclosing).draft
          enclosing := (capture name right.draft right.enclosing).enclosing } :=
      ⟨twin.heap.goes, { twin with draft := within, enclosing := around }, kept paced.backed,
        kept paced.backed'⟩
    unfold resolveUpvalue
    refine coupled_bind (.both (coupled_bind (.both ?_)))
    rw [problems, index]
    exact Even.finish captured

end Captures

end ScriptMachine.Compiler
