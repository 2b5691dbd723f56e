import ScriptMachine.Proofs.Compiler.Expressions

set_option autoImplicit false
set_option synthInstance.maxSize 20000

/- Statements in a quiet compilation. Between statements there is nothing on the stack but the
locals; a statement leaves it so, whichever way control takes through its jumps. -/
namespace ScriptMachine.Compiler

open Prototype (Setting Note Settles Sound Marked)

section Simple

variable {grammar : Grammar} {state : State}

theorem does_expressionStatement (behaves : grammar.Behaves) (orderly : Orderly state) :
    Does grammar.expressionStatement state fun _ last => Runs 0 state last := by
  unfold Grammar.expressionStatement
  refine does_bind (does_operand behaves .assignment (orderly.still 0) fun _ first moved => ?_)
  refine does_bind (does_pass moved fun _ second moved => ?_)
  exact does_op moved rfl (by simp) (fun _ => rfl) (fun _ _ => trivial) (by omega) (by omega)
    fun last moved => moved.runs

theorem does_printStatement (behaves : grammar.Behaves) (orderly : Orderly state) :
    Does grammar.printStatement state fun _ last => Runs 0 state last := by
  unfold Grammar.printStatement
  refine does_bind (does_operand behaves .assignment (orderly.still 0) fun _ first moved => ?_)
  refine does_bind (does_pass moved fun _ second moved => ?_)
  exact does_op moved rfl (by simp) (fun _ => rfl) (fun _ _ => trivial) (by omega) (by omega)
    fun last moved => moved.runs

theorem does_returnNil (orderly : Orderly state) :
    Does emitReturnNil state fun _ last => Runs 0 state last := by
  unfold emitReturnNil
  refine does_bind (does_op (orderly.still 0) rfl (by simp) (fun _ => rfl) (fun _ _ => trivial)
    (by omega) (by omega) fun first moved => ?_)
  exact does_return moved.orderly fun last returns => (moved.trans returns).runs

variable [operands : ∀ origin level, Keeps (Changes origin) (grammar.operand level)]

theorem does_returnStatement (behaves : grammar.Behaves) (orderly : Orderly state) :
    Does grammar.returnStatement state fun _ last => Runs 0 state last := by
  have rejects := changes_returnedStruct
  unfold Grammar.returnStatement
  dsimp only at rejects ⊢
  refine does_ran rfl (does_ran rfl ?_)
  refine does_ite (fun _ => does_bind (does_error orderly.calm)) fun _ => ?_
  refine does_bind (does_pass (orderly.still 0) fun bare first moved => ?_)
  refine does_ite (fun _ => ?_) fun _ => ?_
  · exact (does_returnNil moved.orderly).mono fun _ _ runs => moved.runs.trans runs
  · refine does_bind (does_operand behaves .assignment moved fun value second moved => ?_)
    refine does_ite (fun _ => ?_) fun _ => ?_
    · cases value.struct with
      | none => exact does_ran rfl (does_bind (does_errorAt moved.orderly.calm))
      | some id => exact does_bind (does_pass moved fun _ third moved =>
          does_bind (does_errorAt moved.orderly.calm))
    · refine does_bind (does_pass moved fun _ third moved => ?_)
      exact does_return moved.orderly fun last returns => (moved.trans returns).runs

section Variables

instance keeps_define (origin : State) (name : Text) (shape : Shape) : Keeps (Changes origin)
    (modify fun state : State =>
      { state with globals := state.globals.insert name ⟨shape, false⟩ } : Compile Unit) :=
  keeps_change fun state => .declare _ state.implType (.refl _)

instance idles_define (origin : State) (name : Text) (shape : Shape) : Keeps (Idle origin)
    (modify fun state : State =>
      { state with globals := state.globals.insert name ⟨shape, false⟩ } : Compile Unit) :=
  keeps_idle fun _ => ⟨rfl, rfl, rfl, rfl, .rfl, ⟨rfl, rfl, rfl, rfl, rfl, rfl⟩⟩

omit operands in
/-- A global is defined by the value that has been left for it. -/
theorem does_defineGlobal {origin : State} (name : Text) (shape : Shape)
    (moved : Moves 0 1 origin state) :
    Does (do
      modify fun state => { state with globals := state.globals.insert name ⟨shape, false⟩ }
      emitOperand .defineGlobal (← textConstant name) : Compile Unit) state fun _ last =>
        Runs 0 origin last := by
  refine does_bind (does_pass moved fun _ first moved => ?_)
  refine does_bind (does_name moved fun index second named moved => ?_)
  exact does_named moved named rfl (by simp) (fun _ => rfl) (fun _ _ names => names) (by omega)
    (by omega) fun last moved => moved.runs

omit operands in
/-- A local has the value that has been left for it. -/
theorem does_markLocal {origin : State} {name : Text} (shape : Shape)
    (deep : 0 < origin.draft.scopeDepth) (moved : Moves 0 1 (origin.declared name) state) :
    Does (do
      markInitialized
      shapeNewest shape) state fun _ last => Runs 1 origin last := by
  have depth : 0 < state.draft.scopeDepth := by
    rw [moved.grows.draft.scopeDepth]
    exact deep
  have runs := moved.marked deep
  refine does_bind (does_markInitialized depth ?_)
  exact does_idle runs.orderly fun _ last idle => runs.trans (idle.nothing 0).runs

theorem does_varDeclaration (behaves : grammar.Behaves) (orderly : Orderly state)
    (resting : AtStatement state) :
    Does grammar.varDeclaration state fun _ last => ∃ added, Runs added state last := by
  unfold Grammar.varDeclaration
  dsimp only
  refine does_bind (does_pass (orderly.still 0) fun name first front => does_ran rfl ?_)
  have resting := resting.grown front.grows
  cases top : first.draft.atTopLevel with
  | true =>
    simp only [Bool.not_true, if_true, if_false, Bool.false_eq_true]
    have defines : ∀ (value : Shape) middle, Moves 0 1 first middle → Does (do
        let _ ← expect .semicolon "';' after variable declaration"
        if value.escapes then
          errorAt name (.structInGlobal name.text)
        modify fun state =>
          { state with globals := state.globals.insert name.text ⟨value.stored, false⟩ }
        emitOperand .defineGlobal (← textConstant name.text)) middle fun _ last =>
          ∃ added, Runs added state last := by
      intro value middle moved
      dsimp only
      refine does_bind (does_pass moved fun _ second moved => ?_)
      refine does_ite (fun _ => does_bind (does_errorAt moved.orderly.calm)) fun _ => ?_
      exact (does_defineGlobal _ _ moved).mono fun _ _ runs => ⟨_, front.runs.trans runs⟩
    refine does_bind (does_pass (front.orderly.still 0) fun assigned second moved => ?_)
    refine does_ite (fun _ => ?_) fun _ => ?_
    · exact does_bind (does_operand behaves .assignment moved fun value third moved =>
        defines value third moved)
    · exact does_bind (does_op moved rfl (by simp) (fun _ => rfl) (fun _ _ => trivial) (by omega)
        (by omega) fun third moved => defines {} third moved)
  | false =>
    simp only [Bool.not_false, if_true, if_false, Bool.false_eq_true]
    have deep := resting.deep top
    have declared : Orderly (first.declared name.text) := front.orderly.declared resting
    have initializes : ∀ (value : Shape) middle,
        Moves 0 1 (first.declared name.text) middle → Does (do
          let _ ← expect .semicolon "';' after variable declaration"
          if value.needsCopy then
            emit .copyStruct
          markInitialized
          shapeNewest value.stored) middle fun _ last => ∃ added, Runs added state last := by
      intro value middle moved
      dsimp only
      refine does_bind (does_pass moved fun _ second moved => ?_)
      refine does_ite (fun _ => ?_) fun _ => ?_
      · refine does_bind (does_op moved rfl (by simp) (fun _ => rfl) (fun _ _ => trivial) (by omega)
          (by omega) fun third moved => ?_)
        exact (does_markLocal _ deep moved).mono fun _ _ runs => ⟨_, front.runs.trans runs⟩
      · exact (does_markLocal _ deep moved).mono fun _ _ runs => ⟨_, front.runs.trans runs⟩
    refine does_bind (does_declareLocal front.orderly.calm ?_)
    refine does_bind (does_pass (declared.still 0) fun assigned second moved => ?_)
    refine does_ite (fun _ => ?_) fun _ => ?_
    · exact does_bind (does_operand behaves .assignment moved fun value third moved =>
        initializes value third moved)
    · exact does_bind (does_op moved rfl (by simp) (fun _ => rfl) (fun _ _ => trivial) (by omega)
        (by omega) fun third moved => initializes {} third moved)

end Variables

end Simple

section Jumping

variable {grammar : Grammar} {state : State}
  [operands : ∀ origin level, Keeps (Changes origin) (grammar.operand level)]
  [statements : ∀ origin, Keeps (Changes origin) grammar.statement]

/-- Behind the condition of an `if`: both branches leave the locals alone. -/
theorem does_ifStatement (behaves : grammar.Behaves) (orderly : Orderly state)
    (resting : AtStatement state) :
    Does grammar.ifStatement state fun _ last => Runs 0 state last := by
  unfold Grammar.ifStatement
  dsimp only
  refine does_bind (does_pass (orderly.still 0) fun _ first moved => ?_)
  refine does_bind (does_operand behaves .assignment moved fun _ second moved => ?_)
  refine does_bind (does_pass moved fun _ start condition => ?_)
  obtain ⟨test, tested, testSettles⟩ := condition
  refine does_bind (does_emitJump tested.orderly fun third skip => ?_)
  refine does_bind (does_emit skip.orderly fun fourth pop _ => ?_)
  refine does_bind (does_idle pop.orderly fun _ fifth opened => ?_)
  have front := (skip.trans pop).trans opened
  have inside := resting.grown (tested.grows.trans front.grows)
  refine does_bind ((behaves.statement front.orderly inside).mono fun _ sixth first => ?_)
  obtain ⟨yes, yesAdds, yesSettles⟩ := first
  refine does_bind (does_emitJump yesAdds.orderly fun seventh leave => ?_)
  have branch : Adds 0 start seventh
      ([] ++ ⟨.jumpIfFalse, -1, 0⟩ :: (⟨.pop, 0, 0⟩ :: (yes ++ [⟨.jump, -1, 0⟩]))) := by
    simpa using (front.trans yesAdds).trans leave
  refine does_bind (does_patchJump branch rfl (by simp) fun eighth grown patched => ?_)
  refine does_bind (does_emit patched.orderly fun ninth pop _ => ?_)
  refine does_bind (does_idle pop.orderly fun otherwise tenth looked => ?_)
  have between := (patched.trans pop).trans looked
  have sizeYes : sixth.draft.body.code.size = start.draft.body.code.size + 2 + yes.length := by
    rw [yesAdds.size, front.size]
    rfl
  have sizeTenth : tenth.draft.body.code.size
      = start.draft.body.code.size + 2 + yes.length + 2 := by
    rw [between.size]
    simp only [List.length_append, List.length_cons, List.length_nil]
    omega
  have ends : ∀ twelfth, Runs 0 tenth twelfth → Does (do
      endBranch
      patchJump sixth.draft.body.code.size) twelfth fun _ last => Runs 0 state last := by
    intro twelfth second
    obtain ⟨no, noAdds, noSettles⟩ := second
    refine does_bind (does_idle noAdds.orderly fun _ closing closed => ?_)
    have whole : Adds 0 start closing
        ((⟨.jumpIfFalse, seventh.draft.body.code.size, 0⟩ :: ⟨.pop, 0, 0⟩ :: yes)
          ++ ⟨.jump, -1, 0⟩ :: (⟨.pop, 0, 0⟩ :: no)) := by
      simpa using (between.trans noAdds).trans closed
    refine does_patchJump whole ?_ (by simp) fun last grows written => ?_
    · rw [sizeYes]
      simp only [List.length_cons]
      omega
    have sizeSeventh : seventh.draft.body.code.size
        = start.draft.body.code.size + 2 + yes.length + 1 := by
      rw [leave.size, sizeYes]
      rfl
    have sizeClosing : closing.draft.body.code.size
        = start.draft.body.code.size + 2 + yes.length + 2 + no.length := by
      rw [whole.size]
      simp only [List.length_append, List.length_cons]
      omega
    rw [sizeSeventh, sizeClosing] at written
    refine ⟨_, tested.trans written, fun setting flags foresees known => ?_⟩
    have late := (foresees.earlier grows).earlier closed.grows
    have early := (late.earlier noAdds.grows).earlier
      (((leave.grows.trans grown).trans pop.grows).trans looked.grows)
    have condition := testSettles setting flags (foresees.earlier written.grows) known flags.length
      (Nat.le_refl _)
    refine condition.append ?_
    rw [← tested.size]
    refine Prototype.settles_choice (Nat.le_refl _) (fun known => ?_) (fun known => ?_) known
    · have settles := yesSettles setting flags early known
      rwa [front.size] at settles
    · have settles := noSettles setting flags late known
      rwa [sizeTenth] at settles
  refine does_ite (fun _ => ?_) fun _ => ?_
  · have resting := resting.grown (tested.grows.trans between.grows)
    refine does_bind ((behaves.statement looked.orderly resting).mono fun _ twelfth runs => ?_)
    exact ends twelfth runs
  · exact ends tenth (looked.orderly.still 0).runs

theorem does_whileStatement (behaves : grammar.Behaves) (orderly : Orderly state)
    (resting : AtStatement state) :
    Does grammar.whileStatement state fun _ last => Runs 0 state last := by
  unfold Grammar.whileStatement
  refine does_ran rfl ?_
  refine does_bind (does_pass (orderly.still 0) fun _ first moved => ?_)
  refine does_bind (does_pass moved fun _ second moved => ?_)
  refine does_bind (does_operand behaves .assignment moved fun _ third moved => ?_)
  refine does_bind (does_pass moved fun _ start condition => ?_)
  obtain ⟨test, tested, testSettles⟩ := condition
  refine does_bind (does_emitJump tested.orderly fun fourth skip => ?_)
  refine does_bind (does_emit skip.orderly fun fifth pop _ => ?_)
  have front := (tested.trans skip).trans pop
  refine does_bind ((behaves.statement pop.orderly (resting.grown front.grows)).mono ?_)
  rintro _ sixth ⟨inner, innerAdds, innerSettles⟩
  refine does_bind (does_emit innerAdds.orderly fun seventh back _ => ?_)
  refine does_bind (does_idle back.orderly fun _ eighth closed => ?_)
  have whole : Adds 0 state eighth (test ++ ⟨.jumpIfFalse, -1, 0⟩ :: (⟨.pop, 0, 0⟩ ::
      (inner ++ [⟨.jump, state.draft.body.code.size, 0⟩]))) := by
    simpa using ((front.trans innerAdds).trans back).trans closed
  refine does_bind (does_patchJump whole tested.size (by simp) fun ninth grows patched => ?_)
  refine does_emit patched.orderly fun last pops _ => ?_
  have size : eighth.draft.body.code.size
      = state.draft.body.code.size + test.length + 2 + inner.length + 1 := by
    rw [whole.size]
    simp only [List.length_append, List.length_cons, List.length_nil]
    omega
  rw [size] at patched
  have written : Adds 0 state last (test ++ ⟨.jumpIfFalse,
      ↑(state.draft.body.code.size + test.length + 2 + inner.length + 1), 0⟩ :: ⟨.pop, 0, 0⟩ ::
        (inner ++ [⟨.jump, state.draft.body.code.size, 0⟩, ⟨.pop, 0, 0⟩])) := by
    simpa using patched.trans pops
  refine ⟨_, written, fun setting flags foresees known => ?_⟩
  have late := foresees.earlier (((back.grows.trans closed.grows).trans grows).trans pops.grows)
  have early := late.earlier ((skip.grows.trans pop.grows).trans innerAdds.grows)
  refine Prototype.settles_while (Nat.le_refl _) (fun known => ?_) (fun known => ?_) known
  · exact testSettles setting flags early known flags.length (Nat.le_refl _)
  · have settles := innerSettles setting flags late known
    rw [front.size] at settles
    simpa [Nat.add_assoc] using settles

/-- The condition of a `for` loop has been written, with a jump that leaves the loop. -/
def Tests (before after : State) : Option Nat → Prop
  | none => Adds 0 before after []
  | some exit => ∃ test, Adds 0 before after (test ++ [⟨.jumpIfFalse, -1, 0⟩, ⟨.pop, 0, 0⟩]) ∧
      exit = before.draft.body.code.size + test.length ∧
      ∀ setting flags, Foresees setting flags after → ∀ known,
        Settles setting known before.draft.body.code.size test ⟨flags.length, flags⟩
          ⟨flags.length + 1, flags⟩

/-- The increment of a `for` loop has been written, with a jump over it and one back to the
condition. -/
def Increments (before after : State) (condition again : Nat) : Prop :=
  (Adds 0 before after [] ∧ again = condition) ∨
    ∃ last, Adds 0 before after
        (⟨.jump, ↑(before.draft.body.code.size + 1 + last.length + 2), 0⟩
          :: (last ++ [⟨.pop, 0, 0⟩, ⟨.jump, condition, 0⟩])) ∧
      again = before.draft.body.code.size + 1 ∧
      ∀ setting flags, Foresees setting flags after → ∀ known,
        Settles setting known (before.draft.body.code.size + 1) last ⟨flags.length, flags⟩
          ⟨flags.length + 1, flags⟩

omit statements in
theorem does_forCondition (behaves : grammar.Behaves) (orderly : Orderly state) :
    Does grammar.forCondition state fun exit last => Tests state last exit := by
  unfold Grammar.forCondition
  refine does_bind (does_idle orderly fun none first idle => ?_)
  refine does_ite (fun _ => does_pure idle) fun _ => ?_
  refine does_bind (does_operand behaves .assignment (idle.nothing 0) fun _ second moved => ?_)
  refine does_bind (does_pass moved fun _ third condition => ?_)
  obtain ⟨test, tested, testSettles⟩ := condition
  refine does_bind (does_emitJump tested.orderly fun fourth skip => ?_)
  refine does_bind (does_emit skip.orderly fun last pop _ => does_pure ⟨test, ?_, tested.size, ?_⟩)
  · simpa using (tested.trans skip).trans pop
  · intro setting flags foresees known
    exact testSettles setting flags (foresees.earlier (skip.grows.trans pop.grows)) known
      flags.length (Nat.le_refl _)

omit statements in
theorem does_forIncrement (behaves : grammar.Behaves) (condition : Nat) (orderly : Orderly state) :
    Does (grammar.forIncrement condition) state fun again last =>
      Increments state last condition again := by
  unfold Grammar.forIncrement
  refine does_bind (does_idle orderly fun none first idle => ?_)
  refine does_ite (fun _ => does_pure (Or.inl ⟨idle, rfl⟩)) fun _ => ?_
  refine does_bind (does_emitJump idle.orderly fun second skip => does_ran rfl ?_)
  refine does_bind ((behaves.operand .assignment skip.orderly).mono fun _ third moves => ?_)
  obtain ⟨last, adds, settles⟩ := moves
  refine does_bind (does_emit adds.orderly fun fourth pop _ => ?_)
  refine does_bind (does_idle pop.orderly fun _ fifth closed => ?_)
  refine does_bind (does_emit closed.orderly fun sixth back _ => ?_)
  have front := idle.trans skip
  have whole : Adds 0 state sixth ([] ++ ⟨.jump, -1, 0⟩
      :: (last ++ [⟨.pop, 0, 0⟩, ⟨.jump, condition, 0⟩])) := by
    simpa using (((front.trans adds).trans pop).trans closed).trans back
  refine does_bind (does_patchJump whole idle.size (by simp) fun final grows written => does_pure ?_)
  have size : sixth.draft.body.code.size
      = state.draft.body.code.size + 1 + last.length + 2 := by
    rw [whole.size]
    simp only [List.nil_append, List.length_append, List.length_cons, List.length_nil]
    omega
  rw [size] at written
  refine Or.inr ⟨last, written, front.size, fun setting flags foresees known => ?_⟩
  have early := foresees.earlier (((pop.grows.trans closed.grows).trans back.grows).trans grows)
  have increments := settles setting flags early known flags.length (Nat.le_refl _)
  rwa [front.size] at increments

omit operands statements in
theorem Increments.steps {later : State} {condition again : Nat}
    (increments : Increments state later condition again) :
    ∃ steps, Adds 0 state later steps ∧ ∀ setting flags, Foresees setting flags later →
      (steps = [] ∧ again = condition) ∨ ∃ last : List Instruction,
        steps = ⟨.jump, ↑(state.draft.body.code.size + 1 + last.length + 2), 0⟩
          :: (last ++ [⟨.pop, 0, 0⟩, ⟨.jump, condition, 0⟩]) ∧
        again = state.draft.body.code.size + 1 ∧
        ∀ known, Settles setting known (state.draft.body.code.size + 1) last
          ⟨flags.length, flags⟩ ⟨flags.length + 1, flags⟩ := by
  rcases increments with ⟨adds, same⟩ | ⟨last, adds, same, settles⟩
  · exact ⟨[], adds, fun _ _ _ => Or.inl ⟨rfl, same⟩⟩
  · exact ⟨_, adds, fun setting flags foresees => Or.inr ⟨last, rfl, same, settles setting flags foresees⟩⟩

/-- A `for` loop from its condition on, up to the end of its block. -/
theorem does_forLoop (behaves : grammar.Behaves) (orderly : Orderly state)
    (resting : AtStatement state) {done : Unit → State → Prop}
    (next : ∀ last, Runs 0 state last → Does endScope last done) :
    Does (do
      let condition ← position
      let exit ← grammar.forCondition
      let again ← grammar.forIncrement condition
      grammar.statement
      emitLoop again
      endBranch
      match exit with
      | some exit =>
        patchJump exit
        emit .pop
        endScope
      | none => endScope) state done := by
  have tail := changes_leaveLoop
  refine does_ran rfl ?_
  refine does_bind ((does_forCondition behaves orderly).mono fun exit first tests => ?_)
  have tested : ∃ test, Adds 0 state first test := by
    cases exit with
    | none => exact ⟨[], tests⟩
    | some exit =>
      obtain ⟨test, adds, _⟩ := tests
      exact ⟨_, adds⟩
  obtain ⟨_, front⟩ := tested
  refine does_bind ((does_forIncrement behaves _ front.orderly).mono fun again second increments => ?_)
  obtain ⟨steps, stepAdds, stepSettles⟩ := increments.steps
  have inside := resting.grown (front.grows.trans stepAdds.grows)
  refine does_bind ((behaves.statement stepAdds.orderly inside).mono ?_)
  rintro _ third ⟨inner, innerAdds, innerSettles⟩
  refine does_bind (does_emit innerAdds.orderly fun fourth back _ => ?_)
  refine does_bind (does_idle back.orderly fun _ fifth closed => ?_)
  have behind := ((stepAdds.trans innerAdds).trans back).trans closed
  cases exit with
  | none =>
    have same : first.draft.body.code.size = state.draft.body.code.size := Adds.size tests
    have whole : Adds 0 state fifth
        ([] ++ steps ++ inner ++ [⟨.jump, again, 0⟩]) := by
      simpa using Adds.trans tests behind
    refine next fifth ⟨_, whole, fun setting flags foresees known => ?_⟩
    have late := foresees.earlier (back.grows.trans closed.grows)
    have stepped := stepSettles setting flags (late.earlier innerAdds.grows)
    rw [same] at stepped
    refine Prototype.settles_for (Nat.le_refl _) (fun _ _ => Prototype.settles_nil) stepped
      (fun known => ?_) rfl known
    have settles := innerSettles setting flags late known
    rwa [stepAdds.size, same] at settles
  | some exit =>
    obtain ⟨test, tested, place, testSettles⟩ := tests
    have whole : Adds 0 state fifth (test ++ ⟨.jumpIfFalse, -1, 0⟩
        :: (⟨.pop, 0, 0⟩ :: (steps ++ inner ++ [⟨.jump, again, 0⟩]))) := by
      simpa using tested.trans behind
    refine does_bind (does_patchJump whole place (by simp) fun sixth grows patched => ?_)
    refine does_bind (does_emit patched.orderly fun last pops _ => next last ?_)
    let skip : Instruction := ⟨.jumpIfFalse, fifth.draft.body.code.size, 0⟩
    have written : Adds 0 state last
        ((test ++ [skip, ⟨.pop, 0, 0⟩]) ++ steps ++ inner ++ [⟨.jump, again, 0⟩]
          ++ [⟨.pop, 0, 0⟩]) := by
      simpa using patched.trans pops
    have size : first.draft.body.code.size
        = state.draft.body.code.size + (test ++ [skip, ⟨.pop, 0, 0⟩]).length := by
      rw [tested.size]
      simp
    refine ⟨_, written, fun setting flags foresees known => ?_⟩
    have late := foresees.earlier (((back.grows.trans closed.grows).trans grows).trans pops.grows)
    have middle := late.earlier innerAdds.grows
    have early := middle.earlier stepAdds.grows
    have stepped := stepSettles setting flags middle
    rw [size] at stepped
    refine Settles.append (?_ : Settles setting known _ _ _ ⟨flags.length + 1, flags⟩)
      (Prototype.settles_pop (Nat.le_refl _))
    refine Prototype.settles_for (Nat.le_refl _) (fun known member => ?_) stepped (fun known => ?_)
      (?_ : fifth.draft.body.code.size = _) known
    · refine (testSettles setting flags early known).append ?_
      refine Prototype.settles_cons ?_ (Prototype.settles_pop (Nat.le_refl _))
      exact Prototype.settles_jump rfl (Or.inr (by omega)) (by omega) (Or.inr rfl) member
    · have settles := innerSettles setting flags late known
      rwa [stepAdds.size, size] at settles
    · rw [whole.size]
      simp only [List.length_append, List.length_cons, List.length_nil]
      omega

theorem does_forStatement (behaves : grammar.Behaves) (orderly : Orderly state)
    (resting : AtStatement state) :
    Does grammar.forStatement state fun _ last => Runs 0 state last := by
  have tail := changes_leaveLoop
  have loops : ∀ added middle, Runs added state.opened middle → Does (do
      beginBranch
      let condition ← position
      let exit ← grammar.forCondition
      let again ← grammar.forIncrement condition
      grammar.statement
      emitLoop again
      endBranch
      match exit with
      | some exit =>
        patchJump exit
        emit .pop
        endScope
      | none => endScope) middle fun _ last => Runs 0 state last := by
    intro added middle runs
    refine does_bind (does_idle runs.orderly fun _ start idle => ?_)
    have runs := runs.trans (idle.nothing 0).runs
    refine does_forLoop behaves idle.orderly (resting.opened.grown runs.grows) fun last loop => ?_
    exact does_endScope orderly resting (runs.trans loop)
  unfold Grammar.forStatement
  dsimp only
  refine does_bind (does_beginScope ?_)
  refine does_bind (does_pass (orderly.opened.still 0) fun _ first moved => ?_)
  refine does_bind (does_pass moved fun bare second moved => ?_)
  refine does_ite (fun _ => loops 0 second moved.runs) fun _ => ?_
  refine does_bind (does_pass moved fun declares third moved => ?_)
  refine does_ite (fun _ => ?_) fun _ => ?_
  · have inside := resting.opened.grown moved.grows
    refine does_bind ((does_varDeclaration behaves moved.orderly inside).mono ?_)
    rintro _ fourth ⟨added, runs⟩
    exact loops _ fourth (moved.runs.trans runs)
  · refine does_bind ((does_expressionStatement behaves moved.orderly).mono fun _ fourth runs => ?_)
    exact loops _ fourth (moved.runs.trans runs)

variable [declarations : ∀ origin, Keeps (Changes origin) grammar.declaration]

theorem does_parseStatement (behaves : grammar.Behaves) (orderly : Orderly state)
    (resting : AtStatement state) :
    Does grammar.parseStatement state fun _ last => Runs 0 state last := by
  -- Every kind of statement stands behind a keyword that has been passed.
  have behind : ∀ {production : Compile Unit} {middle : State}, Moves 0 0 state middle →
      (Orderly middle → AtStatement middle →
        Does production middle fun _ last => Runs 0 middle last) →
      Does production middle fun _ last => Runs 0 state last := by
    intro production middle moved runs
    exact (runs moved.orderly (resting.grown moved.grows)).mono
      fun _ _ runs => moved.runs.trans runs
  unfold Grammar.parseStatement
  refine does_bind (does_pass (orderly.still 0) fun _ first moved => ?_)
  refine does_ite (fun _ => behind moved fun orderly _ => does_printStatement behaves orderly)
    fun _ => ?_
  refine does_bind (does_pass moved fun _ second moved => ?_)
  refine does_ite (fun _ => behind moved (does_ifStatement behaves)) fun _ => ?_
  refine does_bind (does_pass moved fun _ third moved => ?_)
  refine does_ite (fun _ => behind moved (does_whileStatement behaves)) fun _ => ?_
  refine does_bind (does_pass moved fun _ fourth moved => ?_)
  refine does_ite (fun _ => behind moved (does_forStatement behaves)) fun _ => ?_
  refine does_bind (does_pass moved fun _ fifth moved => ?_)
  refine does_ite (fun _ => behind moved fun orderly _ => does_returnStatement behaves orderly)
    fun _ => ?_
  refine does_bind (does_pass moved fun _ sixth moved => ?_)
  refine does_ite (fun _ => behind moved fun orderly resting => ?_) fun _ =>
    behind moved fun orderly _ => does_expressionStatement behaves orderly
  refine does_bind (does_beginScope ?_)
  refine does_bind ((does_block behaves orderly.opened resting.opened).mono ?_)
  rintro _ last ⟨added, runs⟩
  exact does_endScope orderly resting runs

end Jumping

end ScriptMachine.Compiler
