import ScriptMachine.Proofs.Compiler.Steps

set_option autoImplicit false

/- Scopes in a quiet compilation: blocks are left with the locals that they were entered with, and a
declared local takes the slot that its value is in. -/
namespace ScriptMachine.Compiler

open Prototype (Setting Note Settles Sound Marked)

/-- Between statements every local has its value, and belongs to the block or to one around it. -/
structure AtStatement (state : State) : Prop where
  locals : ∀ found ∈ state.draft.locals,
    ∃ depth ≤ state.draft.scopeDepth, found.depth = some depth
  inside : state.draft.kind ≠ .script → 0 < state.draft.scopeDepth

section Blocks

variable {state later : State} {added : Nat}

theorem AtStatement.grown (resting : AtStatement state) (grows : Grows added state later) : AtStatement later where
  locals := by
    intro found member
    rw [← List.take_append_drop added later.draft.locals, List.mem_append] at member
    rw [grows.draft.scopeDepth]
    rcases member with newer | older
    · exact ⟨_, Nat.le_refl _, grows.draft.newer found newer⟩
    · obtain ⟨old, inside, ages⟩ := related_of_mem grows.draft.older older
      obtain ⟨depth, most, same⟩ := resting.locals old inside
      exact ⟨depth, most, ages.depth.trans same⟩
  inside := by
    rw [grows.draft.kind, grows.draft.scopeDepth]
    exact resting.inside

/-- Locals are declared inside blocks. -/
theorem AtStatement.deep (resting : AtStatement state) (nested : state.draft.atTopLevel = false) :
    0 < state.draft.scopeDepth := by
  by_cases isScript : state.draft.kind = .script
  · simp only [Draft.atTopLevel, isScript, beq_self_eq_true, Bool.true_and, beq_eq_false_iff_ne]
      at nested
    omega
  · exact resting.inside isScript

theorem AtStatement.visible (resting : AtStatement state) : state.draft.visible = state.draft.locals := by
  refine List.filter_eq_self.mpr fun found member => ?_
  obtain ⟨depth, _, same⟩ := resting.locals found member
  rw [same, Option.isSome_some]

/-- The state with another draft in place of the current one. -/
def State.withDraft (state : State) (draft : Draft) : State :=
  { state with draft }

theorem Orderly.withDraft (orderly : Orderly state) {draft : Draft} (id : draft.id = state.draft.id)
    (kind : draft.kind = state.draft.kind) (body : draft.body = state.draft.body)
    (settled : ∀ found ∈ draft.locals.tail, found.depth.isSome = true)
    (rooted : ∃ callee ∈ draft.locals, callee.depth = some 0)
    (nameless : draft.kind = .script → ∀ found ∈ draft.locals, found.depth = some 0 →
      found.name = []) :
    Orderly (state.withDraft draft) := by
  have before := orderly.each state.draft List.mem_cons_self
  refine orderly.update orderly.calm (fun worded => worded) rfl (fun _ _ known => known) orderly.bare
    rfl id kind rfl ?_ ?_ ⟨?_, settled, ?_, ?_, rooted, nameless⟩
  · exact congrArg Prototype.captures body
  · intro other member
    refine Or.inl (mem_pool_of_references ?_)
    rw [← body]
    exact member
  · rw [State.withDraft, body]
    exact before.lined
  · rw [State.withDraft, body]
    exact before.filed
  · rw [State.withDraft, body]
    exact before.named

/-- The depth of the scope does not matter. -/
theorem Orderly.atDepth (orderly : Orderly state) (scopeDepth : Nat) :
    Orderly (state.withDraft { state.draft with scopeDepth }) :=
  have before := orderly.each state.draft List.mem_cons_self
  orderly.withDraft rfl rfl rfl before.settled before.rooted before.nameless

/-- The state behind the beginning of a block. -/
def State.opened (state : State) : State :=
  state.withDraft { state.draft with scopeDepth := state.draft.scopeDepth + 1 }

theorem Orderly.opened (orderly : Orderly state) : Orderly state.opened :=
  orderly.atDepth _

theorem AtStatement.opened (resting : AtStatement state) : AtStatement state.opened where
  locals found member := by
    obtain ⟨depth, most, same⟩ := resting.locals found member
    exact ⟨depth, Nat.le_succ_of_le most, same⟩
  inside _ := Nat.succ_pos _

theorem does_beginScope {done : Unit → State → Prop} (next : done () state.opened) :
    Does beginScope state done :=
  does_modify next

/-- The locals of a block are those that were added in it. -/
theorem leaving_eq (resting : AtStatement state) (grows : Grows added state.opened later) :
    (later.draft.locals.takeWhile fun newest =>
      match newest.depth with
      | some depth => decide (state.draft.scopeDepth < depth)
      | none => false) = later.draft.locals.take added := by
  have split := List.take_append_drop added later.draft.locals
  have inner : ∀ newest ∈ later.draft.locals.take added,
      newest.depth = some (state.draft.scopeDepth + 1) := grows.draft.newer
  have outer : ∀ found ∈ later.draft.locals.drop added,
      ∃ depth ≤ state.draft.scopeDepth, found.depth = some depth := by
    intro found member
    obtain ⟨old, inside, ages⟩ := related_of_mem grows.draft.older member
    obtain ⟨depth, most, same⟩ := resting.locals old inside
    exact ⟨depth, most, ages.depth.trans same⟩
  generalize later.draft.locals.take added = newer at split inner ⊢
  generalize later.draft.locals.drop added = older at split outer
  rw [← split, List.takeWhile_append_of_pos]
  · cases older with
    | nil => simp
    | cons found rest =>
      obtain ⟨depth, most, same⟩ := outer found List.mem_cons_self
      rw [List.takeWhile_cons_of_neg (by simp [same]; omega), List.append_nil]
  · intro newest member
    simp [inner newest member]

/-- The end of a block, once it is known what leaves it. -/
theorem does_endScope_of {leaving : List Variable} {done : Unit → State → Prop}
    (same : (later.draft.locals.takeWhile fun newest =>
      match newest.depth with
      | some depth => decide (later.draft.scopeDepth - 1 < depth)
      | none => false) = leaving)
    (next : Does (do
        for newest in leaving do
          emit (if newest.captured then .closeUpvalue else .pop)
        modifyDraft fun draft => { draft with locals := draft.locals.drop leaving.length })
      (later.withDraft { later.draft with scopeDepth := later.draft.scopeDepth - 1 }) done) :
    Does endScope later done := by
  subst same
  exact next

/-- The state in which a block has been left, but its locals are still there. -/
def State.closed (state : State) : State :=
  state.withDraft { state.draft with scopeDepth := state.draft.scopeDepth - 1 }

/-- The state without the newest locals. -/
def State.dropped (state : State) (count : Nat) : State :=
  state.withDraft { state.draft with locals := state.draft.locals.drop count }

/-- What it takes to leave a block: its locals are dropped by code of their own. -/
structure Closes (added : Nat) (state later middle : State) (code : List Instruction) : Prop where
  locals : middle.draft.locals = later.draft.locals
  leaves : Adds 0 later.closed middle
    (Prototype.leave ((later.draft.locals.take added).map Variable.captured))
  adds : Adds 0 state (middle.dropped added)
    (code ++ Prototype.leave ((later.draft.locals.take added).map Variable.captured))

theorem does_closeScope {code : List Instruction} (start : Orderly state)
    (resting : AtStatement state) (adds : Adds added state.opened later code) :
    Does endScope later fun _ last => ∃ middle, Closes added state later middle code ∧
      last = middle.dropped added := by
  let leaving := later.draft.locals.take added
  have depth : later.draft.scopeDepth - 1 = state.draft.scopeDepth := by
    rw [adds.grows.draft.scopeDepth]
    rfl
  have orderly : Orderly later.closed := adds.orderly.atDepth _
  -- The loop has written what it takes to drop the locals that it has passed.
  let inv : List Variable → State → Prop := fun rest middle =>
    ∃ gone, leaving = gone ++ rest ∧ middle.draft.locals = later.draft.locals ∧
      Adds 0 later.closed middle (Prototype.leave (gone.map Variable.captured))
  have loop : Does (forIn leaving PUnit.unit fun newest _ => do
      emit (if newest.captured then .closeUpvalue else .pop)
      pure (ForInStep.yield PUnit.unit) : Compile PUnit) later.closed fun _ => inv [] := by
    refine does_for (fun newest rest middle holds => ?_) leaving ?_
    · obtain ⟨gone, split, locals, written⟩ := holds
      refine does_emit written.orderly fun last more locals' => ?_
      refine ⟨gone ++ [newest], by simpa using split, locals'.trans locals, ?_⟩
      have both := written.trans more
      simpa [Prototype.leave] using both
    · exact ⟨[], rfl, rfl, orderly.unchanged⟩
  have same := leaving_eq resting adds.grows
  rw [← depth] at same
  refine does_endScope_of same ?_
  refine does_bind (loop.mono fun _ middle holds => does_modify ?_)
  obtain ⟨gone, split, locals, written⟩ := holds
  rw [List.append_nil] at split
  subst split
  have length : leaving.length = added := by
    rw [List.length_take, Nat.min_eq_left adds.grows.draft.count]
  have remaining : (middle.dropped added).draft.locals = later.draft.locals.drop added :=
    congrArg (List.drop added) locals
  have grows : Grows 0 state (middle.dropped added) :=
    { draft :=
        { id := written.grows.draft.id.trans adds.grows.draft.id
          kind := written.grows.draft.kind.trans adds.grows.draft.kind
          scopeDepth := written.grows.draft.scopeDepth.trans depth
          name := written.grows.draft.name.trans adds.grows.draft.name
          arity := written.grows.draft.arity.trans adds.grows.draft.arity
          isMethod := written.grows.draft.isMethod.trans adds.grows.draft.isMethod
          constants := adds.grows.draft.constants.trans written.grows.draft.constants
          captures := adds.grows.draft.captures.trans written.grows.draft.captures
          layouts := adds.grows.draft.layouts.trans written.grows.draft.layouts
          count := Nat.zero_le _
          newer := by simp
          older := remaining ▸ adds.grows.draft.older }
      enclosing := waits_trans adds.grows.enclosing written.grows.enclosing
      heap := fun id reached =>
        (written.grows.heap id (adds.grows.reaches reached)).trans (adds.grows.heap id reached)
      structs := fun id type known =>
        written.grows.structs id type (adds.grows.structs id type known)
      methods := adds.grows.methods.trans written.grows.methods
      registry := written.grows.registry.trans adds.grows.registry }
  have tidy : Orderly (middle.dropped added) := by
    have before := start.each state.draft List.mem_cons_self
    refine written.orderly.withDraft rfl rfl rfl (fun found member => ?_)
      (grows.draft.rooted before.rooted) (grows.draft.nameless before.nameless)
    have rest : found ∈ (middle.dropped added).draft.locals := List.mem_of_mem_tail member
    rw [remaining] at rest
    obtain ⟨old, inside, ages⟩ := related_of_mem adds.grows.draft.older rest
    obtain ⟨_, _, deep⟩ := resting.locals old inside
    rw [ages.depth, deep, Option.isSome_some]
  have stages : Stages state (middle.dropped added) :=
    { words := fun worded => adds.stages.words (written.stages.words worded)
      nested := fun inside => by
        have outside : later.closed.draft.atTopLevel = false := by
          change (later.draft.kind == .script && later.draft.scopeDepth - 1 == 0) = false
          rw [adds.grows.draft.kind, depth]
          exact inside
        refine (written.stages.nested outside).trans (adds.stages.nested ?_)
        simp [State.opened, State.withDraft, Draft.atTopLevel]
      tabled := fun tabled => written.stages.tabled (adds.stages.tabled tabled) }
  refine ⟨middle, ⟨locals, written, tidy, grows, stages, ?_⟩, by rw [length]; rfl⟩
  change middle.draft.body.code.toList = _
  rw [written.code, ← List.append_assoc]
  exact congrArg (· ++ _) adds.code

/-- Before a block is left, its locals are there as well. -/
theorem Closes.visible {middle : State} {code : List Instruction}
    (closes : Closes added state later middle code) (grows : Grows added state.opened later) :
    middle.draft.visible
      = later.draft.locals.take added ++ (middle.dropped added).draft.visible := by
  have inner : (later.draft.locals.take added).filter (fun found => found.depth.isSome)
      = later.draft.locals.take added := by
    refine List.filter_eq_self.mpr fun newest member => ?_
    rw [grows.draft.newer newest member, Option.isSome_some]
  change _ = _ ++ (middle.draft.locals.drop added).filter _
  rw [closes.locals, Draft.visible, closes.locals, ← inner, ← List.filter_append,
    List.take_append_drop]

/-- What has been declared in a block goes with it. -/
theorem does_endScope (start : Orderly state) (resting : AtStatement state)
    (runs : Runs added state.opened later) :
    Does endScope later fun _ last => Runs 0 state last := by
  obtain ⟨code, adds, settles⟩ := runs
  refine (does_closeScope start resting adds).mono ?_
  rintro _ last ⟨middle, closes, rfl⟩
  have length : (later.draft.locals.take added).length = added := by
    rw [List.length_take, Nat.min_eq_left adds.grows.draft.count]
  refine ⟨_, closes.adds, fun setting flags foresees known => ?_⟩
  let leaving := later.draft.locals.take added
  have inside : Foresees setting (leaving.map Variable.captured ++ flags) middle :=
    { heap := foresees.heap
      constants := foresees.constants
      captures := foresees.captures
      layouts := foresees.layouts
      knows := foresees.knows
      flags := by
        rw [closes.visible adds.grows]
        refine List.rel_append ?_ foresees.flags
        exact List.forall₂_map_left_iff.mpr (List.forall₂_same.mpr fun _ _ captured => captured) }
  have within : Foresees setting (leaving.map Variable.captured ++ flags) later := by
    have early := inside.earlier closes.leaves.grows
    exact ⟨early.heap, early.constants, early.captures, early.layouts, early.knows, early.flags⟩
  have entered := settles setting _ within known
  rw [List.drop_left' (by rw [List.length_map, length])] at entered
  exact entered.append (Prototype.settles_leave _ _)

end Blocks

section Declaring

variable {state later : State} {name : Text}

/-- The state with one more local, which has no value yet. -/
def State.declared (state : State) (name : Text) : State :=
  state.withDraft { state.draft with
    locals := { name, depth := none, branch := state.draft.branchDepth } :: state.draft.locals }

/-- The state in which the newest local can be read. -/
def State.marked (state : State) : State :=
  state.withDraft (state.draft.modifyNewest fun newest =>
    { newest with depth := some state.draft.scopeDepth })

theorem does_declareLocal {token : Token} {done : Unit → State → Prop} (calm : Calm state)
    (next : done () (state.declared token.text)) : Does (declareLocal token) state done := by
  unfold declareLocal
  refine does_ran rfl ?_
  dsimp only
  refine does_ite (fun _ => does_bind (does_errorAt calm)) fun _ => ?_
  refine does_ran rfl (does_ite (fun _ => does_errorAt calm) fun _ => does_modify next)

theorem does_markInitialized {done : Unit → State → Prop} (deep : 0 < state.draft.scopeDepth)
    (next : done () state.marked) : Does markInitialized state done := by
  refine does_modify ?_
  dsimp only
  rw [if_neg (by simp; omega)]
  exact next

theorem Orderly.declared (orderly : Orderly state) (resting : AtStatement state) :
    Orderly (state.declared name) := by
  have before := orderly.each state.draft List.mem_cons_self
  refine orderly.withDraft rfl rfl rfl (fun found member => ?_) ?_ fun isScript found member outermost => ?_
  · obtain ⟨_, _, deep⟩ := resting.locals found member
    rw [deep, Option.isSome_some]
  · obtain ⟨callee, member, outermost⟩ := before.rooted
    exact ⟨callee, List.mem_cons_of_mem _ member, outermost⟩
  · rcases List.mem_cons.mp member with rfl | older
    · cases outermost
    · exact before.nameless isScript found older outermost

/-- A declared local later on. -/
theorem Grows.declared (grows : Grows 0 (state.declared name) later) :
    ∃ newest older, later.draft.locals = newest :: older ∧ newest.depth = none ∧
      newest.name = name ∧ List.Forall₂ Variable.Ages state.draft.locals older := by
  have ages := grows.draft.older
  rw [List.drop_zero] at ages
  cases locals : later.draft.locals with
  | nil =>
    rw [locals] at ages
    cases ages
  | cons newest older =>
    rw [locals] at ages
    cases ages with
    | cons first rest => exact ⟨newest, older, rfl, first.depth, first.name, rest⟩

/-- A declared local can be read once it has its value. -/
theorem Orderly.marked (orderly : Orderly later) (grows : Grows 0 (state.declared name) later)
    (deep : 0 < state.draft.scopeDepth) : Orderly later.marked := by
  have before := orderly.each later.draft List.mem_cons_self
  obtain ⟨newest, older, locals, unset, _, _⟩ := grows.declared
  have changed : later.marked.draft.locals
      = { newest with depth := some later.draft.scopeDepth } :: older := by
    simp [State.marked, State.withDraft, Draft.modifyNewest, locals]
  refine orderly.withDraft rfl rfl rfl (fun found member => ?_) ?_ fun isScript found member outermost => ?_
  · have inTail : found ∈ later.marked.draft.locals.tail := member
    rw [changed] at inTail
    exact before.settled found (by rwa [locals])
  · obtain ⟨callee, member, outermost⟩ := before.rooted
    rw [locals] at member
    rcases List.mem_cons.mp member with rfl | inside
    · rw [unset] at outermost
      cases outermost
    · exact ⟨callee, changed ▸ List.mem_cons_of_mem _ inside, outermost⟩
  · rcases List.mem_cons.mp (changed ▸ member : found ∈ _ :: older) with rfl | inside
    · have depth : later.draft.scopeDepth = state.draft.scopeDepth := grows.draft.scopeDepth
      rw [← depth, Option.some.inj outermost] at deep
      cases deep
    · exact before.nameless isScript found (locals ▸ List.mem_cons_of_mem _ inside) outermost

/-- A local that has got its value is one more in its block. -/
theorem Grows.marked (grows : Grows 0 (state.declared name) later) :
    Grows 1 state later.marked := by
  obtain ⟨newest, older, locals, _, _, ages⟩ := grows.declared
  have changed : later.marked.draft.locals
      = { newest with depth := some later.draft.scopeDepth } :: older := by
    simp [State.marked, State.withDraft, Draft.modifyNewest, locals]
  exact
    { draft :=
        { id := grows.draft.id
          kind := grows.draft.kind
          scopeDepth := grows.draft.scopeDepth
          name := grows.draft.name
          arity := grows.draft.arity
          isMethod := grows.draft.isMethod
          constants := grows.draft.constants
          captures := grows.draft.captures
          layouts := grows.draft.layouts
          count := by simp [changed]
          newer := by
            intro found member
            rw [changed, List.take_succ_cons, List.take_zero, List.mem_singleton] at member
            rw [member]
            exact congrArg some grows.draft.scopeDepth
          older := by
            rw [changed]
            exact ages }
      enclosing := grows.enclosing
      heap := grows.heap
      structs := grows.structs
      methods := grows.methods
      registry := grows.registry }

theorem visible_marked (grows : Grows 0 (state.declared name) later) :
    ∃ newest, newest.name = name ∧
      later.marked.draft.visible = newest :: later.draft.visible := by
  obtain ⟨newest, older, locals, unset, named, _⟩ := grows.declared
  refine ⟨{ newest with depth := some later.draft.scopeDepth }, named, ?_⟩
  simp [Draft.visible, State.marked, State.withDraft, Draft.modifyNewest, locals, unset]

/-- The value of a declared local stays where it has been left. -/
theorem Moves.marked (moves : Moves 0 1 (state.declared name) later)
    (deep : 0 < state.draft.scopeDepth) : Runs 1 state later.marked := by
  obtain ⟨code, adds, settles⟩ := moves
  refine ⟨code, ⟨adds.orderly.marked adds.grows deep, adds.grows.marked,
    ⟨adds.stages.words, adds.stages.nested, adds.stages.tabled⟩, adds.code⟩, fun setting flags foresees known => ?_⟩
  obtain ⟨newest, _, visible⟩ := visible_marked adds.grows
  have marks := foresees.flags
  rw [visible] at marks
  cases marks with
  | cons _ older =>
    rename_i flag flags _
    have before : Foresees setting flags later :=
      ⟨foresees.heap, foresees.constants, foresees.captures, foresees.layouts, foresees.knows, older⟩
    refine (settles setting flags before [] flags.length (Nat.le_refl _)).widen ?_ rfl ?_
    · simp
    · exact fun slot marked => marked.older

end Declaring

end ScriptMachine.Compiler
