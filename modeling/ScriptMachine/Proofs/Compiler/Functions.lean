import Mathlib
import ScriptMachine.Proofs.Compiler.Names

set_option autoImplicit false
set_option synthInstance.maxSize 20000

/- Functions inside functions. While one is compiled, those around it wait; when it is done, its
prototype is sound, and nothing but captures has changed in the function around it. -/
namespace ScriptMachine.Compiler

open Prototype (Setting Note Settles Sound Marked)

/-- A compilation later on, in a function inside the current one. -/
structure Inside (before after : State) : Prop where
  enclosing : List.Forall₂ Draft.Waits before.drafts after.enclosing
  heap : ∀ id, Heap.Reaches before.heap.objects before.pool id →
    after.heap.get? id = before.heap.get? id
  staged : after.staged = before.staged
  registry : after.registry = before.registry
  words : after.cursor.Worded → before.cursor.Worded

section Entering

variable {outer state later : State} {added missing : Nat} {isMethod : Bool}

theorem Inside.pool (inside : Inside outer state) : ∀ id ∈ outer.pool, id ∈ state.pool := by
  intro id member
  rw [State.pool, List.mem_append, List.mem_map] at member ⊢
  rcases member with inDrafts | ⟨staged, isStaged, rfl⟩
  · obtain ⟨draft, isDraft, refers⟩ := List.mem_flatMap.mp inDrafts
    obtain ⟨waiting, there, waits⟩ := related_of_mem inside.enclosing.flip isDraft
    refine Or.inl (List.mem_flatMap.mpr ⟨waiting, List.mem_cons_of_mem _ there, ?_⟩)
    exact waits.grows.references id refers
  · exact Or.inr ⟨staged, inside.staged ▸ isStaged, rfl⟩

theorem Inside.reaches (inside : Inside outer state) {id : ObjectId}
    (reached : Heap.Reaches outer.heap.objects outer.pool id) :
    Heap.Reaches state.heap.objects state.pool id :=
  reached.transfer inside.heap inside.pool

theorem Inside.grown (inside : Inside outer state) (nested : state.draft.atTopLevel = false)
    (grows : Grows added state later) (stages : Stages state later) : Inside outer later where
  enclosing := waits_trans inside.enclosing grows.enclosing
  heap id reached := (grows.heap id (inside.reaches reached)).trans (inside.heap id reached)
  staged := (stages.nested nested).trans inside.staged
  registry := grows.registry.trans inside.registry
  words worded := inside.words (stages.words worded)

/-- The current draft does not matter to those around it. -/
theorem Inside.withDraft (inside : Inside outer state) (draft : Draft) :
    Inside outer (state.withDraft draft) :=
  ⟨inside.enclosing, inside.heap, inside.staged, inside.registry, inside.words⟩

/-- A function whose body has not begun, with parameters that have been counted but are still to
be declared. -/
structure Begins (isMethod : Bool) (missing : Nat) (outer state : State) : Prop where
  orderly : Orderly state
  inside : Inside outer state
  resting : AtStatement state
  deep : 0 < state.draft.scopeDepth
  code : state.draft.body.code = #[]
  count : state.draft.locals.length + missing = state.draft.body.arity + 1
  isMethod : state.draft.body.isMethod = isMethod

theorem Begins.nested (begins : Begins isMethod missing outer state) :
    state.draft.atTopLevel = false := by
  have deep := begins.deep
  simp only [Draft.atTopLevel, Bool.and_eq_false_iff, beq_eq_false_iff_ne]
  exact Or.inr (by omega)

theorem Begins.idle (begins : Begins isMethod missing outer state) (adds : Adds 0 state later []) :
    Begins isMethod missing outer later where
  orderly := adds.orderly
  inside := begins.inside.grown begins.nested adds.grows adds.stages
  resting := begins.resting.grown adds.grows
  deep := by
    rw [adds.grows.draft.scopeDepth]
    exact begins.deep
  code := by
    have same := adds.code
    rw [List.append_nil, begins.code] at same
    exact Array.toList_inj.mp same
  count := by
    have same := adds.grows.draft.older.length_eq
    rw [List.drop_zero] at same
    rw [adds.grows.draft.arity, ← same]
    exact begins.count
  isMethod := adds.grows.draft.isMethod.trans begins.isMethod

/-- A parameter is counted before it is declared. -/
theorem Begins.counted (begins : Begins isMethod 0 outer state) :
    Begins isMethod 1 outer (state.withBody { state.draft.body with arity := state.draft.body.arity + 1 })
    where
  orderly := by
    have before := begins.orderly.each state.draft List.mem_cons_self
    refine begins.orderly.update begins.orderly.calm (fun worded => worded) rfl
      (fun _ _ known => known) begins.orderly.bare rfl rfl rfl rfl rfl ?_
      ⟨before.lined, before.settled, before.filed, before.named, before.rooted, before.nameless⟩
    exact fun id member => Or.inl (mem_pool_of_references member)
  inside := begins.inside.withDraft _
  resting := ⟨begins.resting.locals, begins.resting.inside⟩
  deep := begins.deep
  code := begins.code
  count := by
    have count := begins.count
    change state.draft.locals.length + 1 = state.draft.body.arity + 1 + 1
    omega
  isMethod := begins.isMethod

theorem Begins.declared (begins : Begins isMethod 1 outer state) (name : Text) :
    Begins isMethod 0 outer (state.declared name).marked where
  orderly := (begins.orderly.declared begins.resting).marked (.refl _) begins.deep
  inside := (begins.inside.withDraft _).withDraft _
  resting := begins.resting.grown (Grows.marked (.refl (state.declared name)))
  deep := begins.deep
  code := begins.code
  count := by
    have count := begins.count
    simp only [State.marked, State.declared, State.withDraft, Draft.modifyNewest,
      List.length_modify, List.length_cons]
    omega
  isMethod := begins.isMethod

theorem does_parameters {grammar : Grammar} (begins : Begins isMethod 0 outer state) :
    Does grammar.parameters state fun _ last => Begins isMethod 0 outer last := by
  have counts : ∀ origin, Keeps (Changes origin)
      (modifyBody fun body => { body with arity := body.arity + 1 }) :=
    fun _ => keeps_body fun _ => ⟨rfl, rfl⟩
  unfold Grammar.parameters
  dsimp only
  refine does_bind (does_idle begins.orderly fun closes middle idle => ?_)
  refine does_ite (fun _ => ?_) fun _ => does_pure (begins.idle idle)
  refine does_iterate (fun _ => Begins isMethod 0 outer) (fun _ round holds => ?_) grammar.bound ()
    (begins.idle idle)
  refine does_ran rfl (does_ran rfl ?_)
  refine does_ite (fun _ => does_bind (does_errorHere holds.counted.orderly.calm)) fun _ => ?_
  refine does_bind (does_idle holds.counted.orderly fun parameter named passed => ?_)
  have counted := holds.counted.idle passed
  refine does_bind (does_declareLocal counted.orderly.calm ?_)
  refine does_bind (does_markInitialized counted.deep ?_)
  have declared := counted.declared parameter.text
  refine does_bind (does_idle declared.orderly fun _ shaped first => ?_)
  refine does_bind (does_idle first.orderly fun more last second => does_pure ?_)
  have ends := (declared.idle first).idle second
  cases more
  · exact ends
  · exact ends

/-- A new draft, whose object has just been allocated. -/
theorem entered (draft : Draft) (orderly : Orderly state) (allocated : Adds 0 state later [])
    (same : later.draft = state.draft) (around : later.enclosing = state.enclosing)
    (staged : later.staged = state.staged) (id : draft.id = state.heap.nextId)
    (placeholder : later.heap.get? state.heap.nextId = some (.function {}))
    (references : draft.body.references = []) (constants : draft.body.constants = #[])
    (captures : draft.body.captures = #[]) (lined : draft.body.lines.size = draft.body.code.size)
    (locals : draft.locals.tail = []) (unnamed : draft.body.name = none)
    (rooted : ∃ callee ∈ draft.locals, callee.depth = some 0) (notScript : draft.kind ≠ .script) :
    let entered := { later with draft, enclosing := later.draft :: later.enclosing }
    Orderly entered ∧ Inside state entered := by
  intro entered
  have drafts : later.drafts = state.drafts := by rw [State.drafts, same, around, State.drafts]
  have outside : later.pool = state.pool := by rw [State.pool, drafts, staged, State.pool]
  have pool : entered.pool = later.pool := by
    change draft.body.references ++ _ ++ _ = _
    rw [references]
    rfl
  have fresh : ∀ other ∈ later.drafts, other.id ≠ state.heap.nextId := by
    intro other member isNext
    rw [drafts] at member
    exact orderly.tidy.fresh (orderly.drafts other member) isNext.symm
  refine ⟨?_, ?_⟩
  · refine
      { calm := allocated.orderly.calm
        tidy := allocated.orderly.tidy
        drafts := ?_
        distinct := ?_
        present := by rw [pool]; exact allocated.orderly.present
        apart := ?_
        each := ?_
        captures := ?_
        bare := allocated.orderly.bare
        methods := allocated.orderly.methods }
    · intro other member
      rcases List.mem_cons.mp member with rfl | waiting
      · rw [id]
        exact placeholder
      · exact allocated.orderly.drafts other waiting
    · refine List.nodup_cons.mpr ⟨fun member => ?_, allocated.orderly.distinct⟩
      obtain ⟨other, waiting, isNew⟩ := List.mem_map.mp member
      exact fresh other waiting (isNew.trans id)
    · intro other member reached
      rw [pool] at reached
      rcases List.mem_cons.mp member with rfl | waiting
      · -- what has been reached before was there before the new object
        rw [outside, id] at reached
        have before := Heap.Reaches.transfer_back allocated.grows.heap reached
        have present := orderly.present _ before
        rw [orderly.tidy.absent] at present
        cases present
      · exact allocated.orderly.apart other waiting reached
    · intro other member
      rcases List.mem_cons.mp member with rfl | waiting
      · refine ⟨lined, by simp [locals], fun index id here => ?_, fun id here => ?_, rooted,
          fun isScript => absurd isScript notScript⟩
        · rw [constants] at here
          simp at here
        · rw [unnamed] at here
          cases here
      · exact allocated.orderly.each other waiting
    · refine ⟨notScript, fun capture member => ?_, allocated.orderly.captures⟩
      rw [captures] at member
      simp at member
  · refine ⟨?_, allocated.grows.heap, staged, allocated.grows.registry, allocated.stages.words⟩
    exact .cons (same ▸ .refl _) (around ▸ List.forall₂_same.mpr fun draft _ => .refl draft)

/-- The draft of a function at its beginning. -/
def Draft.begun (kind : FunctionKind) (name : Text) (id : ObjectId) (implType : Option StructId) :
    Draft :=
  let receiver : Variable :=
    { name := if kind == .method then ascii "self" else []
      depth := some 0
      shape := .unknownOf implType }
  { id, kind, name, body := { isMethod := kind == .method }, locals := [receiver] }

theorem does_openDraft {kind : FunctionKind} {name : Text} {done : Unit → State → Prop}
    (orderly : Orderly state)
    (next : ∀ allocated : State, Adds 0 state allocated [] → allocated.draft = state.draft →
      allocated.enclosing = state.enclosing → allocated.staged = state.staged →
      allocated.heap.get? state.heap.nextId = some (.function {}) →
      done () { allocated with
        draft := .begun kind name state.heap.nextId allocated.implType
        enclosing := allocated.draft :: allocated.enclosing }) :
    Does (Grammar.openDraft kind name) state done := by
  intro result last ran quiet
  simp only [Grammar.openDraft, bind, EStateM.bind] at ran
  cases begun : allocating [] Heap.newFunction state with
  | error stop middle =>
    rw [begun] at ran
    cases ran
  | ok id middle =>
    rw [begun] at ran
    cases ran
    -- opening a draft leaves the diagnostics alone, so the allocation was quiet too
    have allocates : Does (allocating [] Heap.newFunction) state fun id middle =>
        done () { middle with
          draft := .begun kind name id middle.implType
          enclosing := middle.draft :: middle.enclosing } :=
      does_allocate orderly (by simp) fun allocated adds same around staged placeholder _ =>
        next allocated adds same around staged placeholder
    exact allocates id middle begun quiet

theorem does_beginFunction {kind : FunctionKind} {name : Text} {done : Unit → State → Prop}
    (orderly : Orderly state) (notScript : kind ≠ .script)
    (next : ∀ later, Begins (kind == .method) 0 state later.opened → done () later) :
    Does (Grammar.beginFunction kind name) state done := by
  have names : ∀ origin (id : ObjectId), Keeps (Changes origin)
      (modifyBody fun body => { body with name := some id }) :=
    fun _ _ => keeps_body fun _ => ⟨rfl, rfl⟩
  rw [Grammar.beginFunction_eq]
  refine does_bind (does_openDraft orderly ?_)
  intro allocated adds same around staged placeholder
  let draft : Draft := .begun kind name state.heap.nextId allocated.implType
  obtain ⟨isOrderly, inside⟩ := entered draft orderly adds same around staged rfl placeholder rfl
    rfl rfl rfl rfl rfl ⟨_, List.mem_cons_self, rfl⟩ notScript
  have nested : draft.atTopLevel = false := by
    simp only [Draft.atTopLevel, Bool.and_eq_false_iff, beq_eq_false_iff_ne]
    exact Or.inl notScript
  refine does_bind (does_intern isOrderly fun id named more unchanged string => ?_)
  refine does_modify (next _ ?_)
  have before := more.orderly.each named.draft List.mem_cons_self
  have renamed : Orderly (named.withBody { named.draft.body with name := some id }) := by
    refine more.orderly.update more.orderly.calm (fun worded => worded) rfl
      (fun _ _ known => known) more.orderly.bare rfl rfl rfl rfl rfl ?_
      ⟨before.lined, before.settled, before.filed, fun other here => ?_, before.rooted,
        before.nameless⟩
    · intro other member
      rcases List.mem_append.mp member with isName | isConstant
      · cases Option.mem_toList.mp isName
        exact Or.inr (more.orderly.string_apart string)
      · exact Or.inl (mem_pool_of_references (List.mem_append_right _ isConstant))
    · cases here
      exact ⟨name, string⟩
  have isDraft : named.draft = draft := unchanged
  refine
    { orderly := renamed.opened
      inside := ((inside.grown nested more.grows more.stages).withDraft _).withDraft _
      resting := ⟨?_, fun _ => Nat.succ_pos _⟩
      deep := Nat.succ_pos _
      code := ?_
      count := ?_
      isMethod := ?_ }
  · intro found member
    have receiver : found ∈ named.draft.locals := member
    rw [isDraft] at receiver
    exact ⟨0, Nat.zero_le _, by rw [List.mem_singleton.mp receiver]⟩
  · change named.draft.body.code = #[]
    rw [isDraft]
    rfl
  · change named.draft.locals.length + 0 = named.draft.body.arity + 1
    rw [isDraft]
    rfl
  · change named.draft.body.isMethod = _
    rw [isDraft]
    rfl

end Entering

section Leaving

variable {outer start state last : State} {added : Nat}

/-- A body that has been run through, with a return behind it, is sound. -/
theorem sound_of_runs {setting : Setting} {flags : List Bool} (resting : AtStatement start)
    (code : start.draft.body.code = #[])
    (count : start.draft.locals.length = start.draft.body.arity + 1) (runs : Runs added start state)
    (ends : Adds 0 state last [⟨.nil, 0, 0⟩, ⟨.return, 0, 0⟩])
    (same : setting.body = last.draft.body) (foresees : Foresees setting flags last) :
    Sound setting.heap setting.registry setting.body := by
  obtain ⟨written, adds, settles⟩ := runs
  have before := ends.orderly.each last.draft List.mem_cons_self
  have earlier := foresees.earlier ends.grows
  rw [List.drop_zero] at earlier
  have settled := settles setting flags earlier []
  rw [code] at settled
  have whole : setting.body.code.toList
      = written ++ [⟨.nil, 0, 0⟩, ⟨.return, 0, 0⟩] := by
    rw [same, ends.code, adds.code, code]
    simp
  have formed := by
    refine Prototype.wellFormed_of_settles settled whole ?_ ?_ fun slot marked => marked.lt
    · rw [same]
      exact before.lined
    · have first := (earlier.earlier adds.grows).flags.length_eq
      rw [resting.visible, count] at first
      rw [same, ends.grows.draft.arity, adds.grows.draft.arity]
      exact first
  -- a constant that is no string has a closure made of it
  have refers : ∀ id ∈ setting.body.references, (∃ text, setting.heap.get? id = some (.string text)) ∨
      ∃ inner, setting.heap.get? id = some (.function inner) ∧
        Sound setting.heap setting.registry inner := by
    intro id member
    rw [same] at member
    rw [foresees.heap id (.root member)]
    rcases List.mem_append.mp member with isName | isConstant
    · exact Or.inl (before.named id (Option.mem_toList.mp isName))
    obtain ⟨value, inConstants, isRef⟩ := List.mem_filterMap.mp isConstant
    obtain ⟨index, here⟩ := List.getElem?_of_mem inConstants
    rw [Array.getElem?_toList] at here
    cases value with
    | nil | bool _ | number _ | stack _ => cases isRef
    | ref other =>
      cases isRef
      rcases before.filed index id here with string | closure
      · exact Or.inl string
      · rw [← same, whole] at closure
        have inside : (⟨.closure, index, 0⟩ : Instruction) ∈ written := by simpa using closure
        obtain ⟨note, fits⟩ := settled.fits inside
        obtain ⟨inner, makes, _⟩ := fits.operands
        have sound := fits.nested rfl inner makes
        obtain ⟨made, isConstant, isFunction⟩ := makes
        rw [Prototype.constant?_natCast, same, here] at isConstant
        cases isConstant
        rw [Heap.prototype?, foresees.heap id (.root member)] at isFunction
        split at isFunction
        · next found =>
          cases isFunction
          exact Or.inr ⟨inner, found, sound⟩
        · cases isFunction
  refine .mk formed.1 formed.2 (fun id member => ?_) fun {id inner} member found => ?_
  · exact (refers id member).imp_right fun ⟨inner, found, _⟩ => ⟨inner, found⟩
  · rcases refers id member with ⟨text, string⟩ | ⟨other, found', sound⟩
    · rw [string] at found
      cases found
    · rw [found'] at found
      cases found
      exact sound

/-- The state behind a function: its prototype is filed, and the draft around it is current. -/
def State.returned (state : State) (around : Draft) (rest : List Draft) : State :=
  { state with
    heap := state.heap.set state.draft.id (.function state.draft.body)
    draft := around
    enclosing := rest }

section Returning

variable {around : Draft} {rest : List Draft} {id other : ObjectId}

/-- What drafts refer to is not the new prototype, so it is as before. -/
theorem Orderly.returned_kept (orderly : Orderly state)
    (reached : Heap.Reaches state.heap.objects state.pool id) :
    (state.returned around rest).heap.get? id = state.heap.get? id := by
  refine Heap.get?_set_of_ne fun same => ?_
  exact orderly.apart state.draft List.mem_cons_self (same ▸ reached)

theorem Orderly.returned_here (orderly : Orderly state) :
    (state.returned around rest).heap.get? state.draft.id = some (.function state.draft.body) :=
  Heap.get?_set_self (orderly.drafts state.draft List.mem_cons_self)

theorem drafts_of_returned (enclosing : state.enclosing = around :: rest) :
    state.drafts = state.draft :: (state.returned around rest).drafts := by
  rw [State.drafts, enclosing]
  rfl

theorem pool_of_returned (enclosing : state.enclosing = around :: rest)
    (member : id ∈ (state.returned around rest).pool) : id ∈ state.pool := by
  rw [State.pool, drafts_of_returned enclosing, List.flatMap_cons, List.append_assoc]
  exact List.mem_append_right _ member

theorem Orderly.returned_reached (orderly : Orderly state)
    (enclosing : state.enclosing = around :: rest)
    (reached : Heap.Reaches (state.returned around rest).heap.objects
      (state.returned around rest).pool id) :
    Heap.Reaches state.heap.objects state.pool id :=
  Heap.Reaches.transfer_back (fun _ => orderly.returned_kept)
    (reached.mono fun _ member => .root (pool_of_returned enclosing member))

/-- Staged methods are as before, too. -/
theorem Orderly.returned_method (orderly : Orderly state) {staged : StagedMethod}
    (member : staged ∈ state.staged.methods) : ∃ prototype upvalues body,
      (state.returned around rest).heap.get? staged.method.closure
        = some (.closure prototype upvalues) ∧
      Finished (state.returned around rest) prototype body := by
  obtain ⟨prototype, upvalues, body, closure, finished⟩ := orderly.methods staged member
  have rooted : Heap.Reaches state.heap.objects state.pool staged.method.closure :=
    .root (List.mem_append_right _ (List.mem_map_of_mem member))
  refine ⟨prototype, upvalues, body, (orderly.returned_kept rooted).trans closure, ?_⟩
  refine finished.transfer (fun other reached => orderly.returned_kept ?_) fun _ _ known => known
  refine reached.mono fun root isRoot => ?_
  rw [List.mem_singleton.mp isRoot]
  exact rooted.next closure List.mem_cons_self

/-- From the new prototype, what its draft referred to is reached. -/
theorem Orderly.returned_through (orderly : Orderly state)
    (reached : Heap.Reaches (state.returned around rest).heap.objects [state.draft.id] other) :
    other = state.draft.id ∨ Heap.Reaches state.heap.objects state.pool other := by
  refine reached.closed (fun root member => Or.inl (List.mem_singleton.mp member)) ?_
  intro id object live present next member
  rcases live with rfl | isReached
  · have same := present.symm.trans orderly.returned_here
    cases same
    exact Or.inr (.root (mem_pool_of_references member))
  · refine Or.inr (isReached.next ?_ member)
    rw [← present]
    exact orderly.returned_kept isReached |>.symm

theorem Orderly.returned_ids (orderly : Orderly state) (enclosing : state.enclosing = around :: rest)
    {draft : Draft} (member : draft ∈ (state.returned around rest).drafts) :
    draft ∈ state.drafts ∧ state.draft.id ≠ draft.id := by
  have distinct := orderly.distinct
  rw [drafts_of_returned enclosing, List.map_cons, List.nodup_cons] at distinct
  refine ⟨?_, fun same => distinct.1 (List.mem_map.mpr ⟨draft, member, same.symm⟩)⟩
  rw [drafts_of_returned enclosing]
  exact List.mem_cons_of_mem _ member

theorem Orderly.returned (orderly : Orderly state) (enclosing : state.enclosing = around :: rest) :
    Orderly (state.returned around rest) where
  calm := orderly.calm
  tidy := by
    refine orderly.tidy.set (by simp) fun text string => ?_
    have placeholder := orderly.drafts state.draft List.mem_cons_self
    rw [string] at placeholder
    cases placeholder
  drafts draft member := by
    obtain ⟨before, apart⟩ := orderly.returned_ids enclosing member
    exact (Heap.get?_set_of_ne apart).trans (orderly.drafts draft before)
  distinct := by
    have distinct := orderly.distinct
    rw [drafts_of_returned enclosing, List.map_cons, List.nodup_cons] at distinct
    exact distinct.2
  present id reached := by
    have before := orderly.returned_reached enclosing reached
    rw [orderly.returned_kept before]
    exact orderly.present id before
  apart draft member reached := by
    obtain ⟨before, _⟩ := orderly.returned_ids enclosing member
    exact orderly.apart draft before (orderly.returned_reached enclosing reached)
  each draft member := by
    obtain ⟨before, _⟩ := orderly.returned_ids enclosing member
    refine (orderly.each draft before).transfer fun id refers => orderly.returned_kept (.root ?_)
    exact List.mem_append_left _ (List.mem_flatMap.mpr ⟨draft, before, refers⟩)
  captures := by
    have chain := orderly.captures
    rw [drafts_of_returned enclosing] at chain
    exact chain.2.2
  bare := orderly.bare
  methods _ member := orderly.returned_method member

/-- The new prototype is sound in every heap in which it is still as it is. -/
theorem Orderly.returned_finished (orderly : Orderly state)
    (sound : ∀ (setting : Setting) (flags : List Bool), setting.body = state.draft.body →
      Foresees setting flags state → Sound setting.heap setting.registry setting.body) :
    Finished (state.returned around rest) state.draft.id state.draft.body := by
  refine ⟨orderly.returned_here, fun heap registry same knows => ?_⟩
  refine sound ⟨heap, registry, state.draft.body⟩ (state.draft.visible.map Variable.captured) rfl ?_
  refine
    { heap := fun id reached => ?_
      constants := List.prefix_refl _
      captures := List.prefix_refl _
      layouts := List.prefix_refl _
      knows
      flags := List.forall₂_map_left_iff.mpr (List.forall₂_same.mpr fun _ _ captured => captured) }
  have pool : ∀ id, Heap.Reaches state.heap.objects state.draft.body.references id →
      Heap.Reaches state.heap.objects state.pool id := fun id isReached =>
    isReached.mono fun root member => .root (mem_pool_of_references member)
  have still : Heap.Reaches (state.returned around rest).heap.objects [state.draft.id] id := by
    have there : Heap.Reaches (state.returned around rest).heap.objects
        state.draft.body.references id :=
      reached.transfer (fun id isReached => orderly.returned_kept (pool id isReached))
        fun _ member => member
    refine there.mono fun root member => ?_
    exact .next (.root List.mem_cons_self) orderly.returned_here member
  rw [same id still, orderly.returned_kept (pool id reached)]

end Returning

/-- What a function that has been compiled leaves behind in the one around it: nothing but
captures, and an object for its prototype that nothing refers to yet. -/
structure Returns (before after : State) (id : ObjectId) (body : Prototype) : Prop where
  adds : Adds 0 before after []
  finished : Finished after id body
  staged : after.staged = before.staged
  captures : ∃ inner : Draft, inner.body = body ∧
    inner.CapturesFrom after.cursor.Worded after.draft
  apart : ∀ other, Heap.Reaches after.heap.objects [id] other →
    (after.heap.get? other).isSome = true ∧ ∀ draft ∈ after.drafts, draft.id ≠ other
  new : ¬ Heap.Reaches after.heap.objects after.pool id

theorem Inside.returned (inside : Inside outer state) (orderly : Orderly state) :
    ∃ around rest, state.enclosing = around :: rest ∧
      Adds 0 outer (state.returned around rest) [] := by
  have waiting := inside.enclosing
  rw [State.drafts] at waiting
  cases split : state.enclosing with
  | nil =>
    rw [split] at waiting
    cases waiting
  | cons around rest =>
    rw [split] at waiting
    cases waiting with
    | cons waits waitings =>
      have grows : Grows 0 outer (state.returned around rest) :=
        { draft := waits.grows
          enclosing := waitings
          heap := fun id reached => by
            rw [orderly.returned_kept (inside.reaches reached), inside.heap id reached]
          structs := fun id type known => by
            change State.struct? state id = some type
            rw [State.struct?, inside.registry, inside.staged]
            exact known
          methods := by
            change _ <+: state.staged.methods
            rw [inside.staged]
          registry := inside.registry }
      refine ⟨around, rest, rfl, orderly.returned split, grows,
        grows.stages inside.staged inside.words, ?_⟩
      rw [List.append_nil]
      exact congrArg Array.toList waits.code

theorem does_endFunction (inside : Inside outer last) (orderly : Orderly last)
    (sound : ∀ (setting : Setting) (flags : List Bool), setting.body = last.draft.body →
      Foresees setting flags last → Sound setting.heap setting.registry setting.body) :
    Does Grammar.endFunction last fun result after =>
      last.draft.body.arity = result.2 ∧ Returns outer after result.1 last.draft.body := by
  obtain ⟨around, rest, enclosing, adds⟩ := inside.returned orderly
  have ran : Grammar.endFunction last
      = .ok (last.draft.id, last.draft.body.arity) (last.returned around rest) := by
    simp only [Grammar.endFunction, modifyGet, MonadStateOf.modifyGet, EStateM.modifyGet]
    rw [enclosing]
    rfl
  intro result final isRun _
  rw [ran] at isRun
  cases isRun
  have chain := orderly.captures
  rw [drafts_of_returned enclosing] at chain
  refine ⟨rfl, adds, orderly.returned_finished sound, inside.staged,
    ⟨last.draft, rfl, chain.2.1⟩, fun other reached => ?_, fun reached => ?_⟩
  · rcases orderly.returned_through reached with rfl | before
    · refine ⟨by rw [orderly.returned_here]; rfl, fun draft member => ?_⟩
      exact (orderly.returned_ids enclosing member).2.symm
    · refine ⟨?_, fun draft member same => ?_⟩
      · rw [orderly.returned_kept before]
        exact orderly.present other before
      · exact orderly.apart draft (orderly.returned_ids enclosing member).1 (same ▸ before)
  · exact orderly.apart last.draft List.mem_cons_self (orderly.returned_reached enclosing reached)

end Leaving

/-- Productions that emit what they should: an operand leaves one value behind, a statement
nothing, and a declaration the locals that it declares. -/
structure Grammar.Behaves (grammar : Grammar) : Prop where
  operand : ∀ {state : State} (level : Level), Orderly state →
    Does (grammar.operand level) state fun _ last => Moves 0 1 state last
  statement : ∀ {state : State}, Orderly state → AtStatement state →
    Does grammar.statement state fun _ last => Runs 0 state last
  declaration : ∀ {state : State}, Orderly state → AtStatement state →
    Does grammar.declaration state fun _ last => ∃ added, Runs added state last

section Bodies

variable {grammar : Grammar} {state : State}

theorem does_emitReturnNil {done : Unit → State → Prop} (orderly : Orderly state)
    (next : ∀ later, Adds 0 state later [⟨.nil, 0, 0⟩, ⟨.return, 0, 0⟩] → done () later) :
    Does emitReturnNil state done := by
  unfold emitReturnNil
  refine does_bind (does_emit orderly fun middle first _ => ?_)
  exact does_emit first.orderly fun later second _ => next later (first.trans second)

variable [declarations : ∀ origin, Keeps (Changes origin) grammar.declaration]

theorem does_block (behaves : grammar.Behaves) (orderly : Orderly state)
    (resting : AtStatement state) :
    Does grammar.block state fun _ last => ∃ added, Runs added state last := by
  let runs : Unit → State → Prop := fun _ last => ∃ added, Runs added state last
  unfold Grammar.block
  refine does_seq runs (does_iterate runs (fun _ middle holds => ?_) grammar.bound () ?_)
    fun _ middle holds => ?_
  · obtain ⟨added, runs⟩ := holds
    refine does_bind (does_idle runs.orderly fun closes first passed => ?_)
    refine does_bind (does_idle passed.orderly fun ends second more => ?_)
    have idle := runs.trans ((passed.trans more).nothing 0).runs
    refine does_ite (fun _ => does_pure ⟨_, idle⟩) fun _ => ?_
    refine does_bind ((behaves.declaration idle.orderly (resting.grown idle.grows)).mono ?_)
    rintro _ last ⟨declared, runs⟩
    exact does_pure ⟨_, idle.trans runs⟩
  · exact ⟨0, (orderly.unchanged.nothing 0).runs⟩
  · obtain ⟨added, runs⟩ := holds
    refine does_bind (does_idle runs.orderly fun _ last idle => does_pure ⟨0 + added, ?_⟩)
    exact runs.trans (idle.nothing 0).runs

theorem does_function (behaves : grammar.Behaves) {kind : FunctionKind} (name : Text)
    (notScript : kind ≠ .script) (orderly : Orderly state) :
    Does (grammar.function kind name) state fun result last => ∃ body,
      body.arity = result.2 ∧ body.isMethod = (kind == .method) ∧
        Returns state last result.1 body := by
  unfold Grammar.function
  refine does_bind (does_beginFunction orderly notScript fun entered begins => ?_)
  refine does_bind (does_beginScope ?_)
  refine does_bind (does_idle begins.orderly fun _ opened idle => ?_)
  refine does_bind ((does_parameters (begins.idle idle)).mono fun _ declared begins => ?_)
  refine does_bind (does_idle begins.orderly fun _ closed first => ?_)
  refine does_bind (does_idle first.orderly fun _ start second => ?_)
  have begins := (begins.idle first).idle second
  refine does_bind ((does_block behaves begins.orderly begins.resting).mono ?_)
  rintro _ body ⟨added, runs⟩
  refine does_bind (does_emitReturnNil runs.orderly fun last ends => ?_)
  have nested : body.draft.atTopLevel = false := runs.grows.draft.atTopLevel.trans begins.nested
  have inside := (begins.inside.grown begins.nested runs.grows runs.stages).grown nested ends.grows
    ends.stages
  refine (does_endFunction inside ends.orderly fun setting flags same foresees => ?_).mono ?_
  · exact sound_of_runs begins.resting begins.code begins.count runs ends same foresees
  · rintro result after ⟨arity, returns⟩
    have isMethod := ends.grows.draft.isMethod.trans runs.grows.draft.isMethod
    exact ⟨_, arity, isMethod.trans begins.isMethod, returns⟩

end Bodies

section Closures

variable {before state : State} {id : ObjectId} {body : Prototype}

/-- The state in which a function is among the constants. -/
def State.filed (state : State) (id : ObjectId) : State :=
  state.withBody { state.draft.body with constants := state.draft.body.constants.push (.ref id) }

/-- Code that makes a closure of a function around which nothing has been left undone. -/
def MakesClosure (before after : State) : Prop :=
  ∃ (index : Int) (body : Prototype), Adds 0 before after [⟨.closure, index, 0⟩] ∧
    ∀ setting flags, Foresees setting flags after →
      setting.body.Makes setting.heap index body ∧ Sound setting.heap setting.registry body ∧
        ∀ capture ∈ body.captures, if capture.isLocal then Marked flags capture.index
          else capture.index < setting.body.captures.size

theorem does_fileFunction {done : Int → State → Prop} (returns : Returns before state id body)
    (next : done state.draft.body.constants.size (state.filed id)) :
    Does (makeConstant (.ref id)) state done := by
  refine does_makeConstant_raw returns.adds.orderly.calm (fun index here => ?_) next
  -- nothing refers to a function that has just been compiled
  refine absurd (.root ?_) returns.new
  exact mem_pool_of_references (Prototype.mem_references here)

/-- The instruction that makes a closure of the function just filed. -/
theorem Returns.written (returns : Returns before state id body) :
    Adds 0 state ((state.filed id).written ⟨.closure, state.draft.body.constants.size, 0⟩)
      [⟨.closure, state.draft.body.constants.size, 0⟩] := by
  have orderly := returns.adds.orderly
  let index := state.draft.body.constants.size
  have grows : Grows 0 state ((state.filed id).written ⟨.closure, index, 0⟩) := by
    refine .withBody rfl rfl rfl ?_ rfl (List.prefix_refl _)
    change _ <+: (state.draft.body.constants.push (.ref id)).toList
    rw [Array.toList_push]
    exact List.prefix_append _ _
  refine ⟨?_, grows, grows.stages rfl fun worded => worded, Array.toList_push⟩
  have before := orderly.each state.draft List.mem_cons_self
  refine orderly.update orderly.calm (fun worded => worded) rfl (fun _ _ known => known)
    orderly.bare rfl rfl rfl rfl rfl ?_
    ⟨?_, before.settled, fun place other here => ?_, before.named, before.rooted, before.nameless⟩
  · intro other member
    have pushed : other ∈ (state.filed id).draft.body.references := member
    rcases mem_references_push pushed with old | new
    · exact Or.inl (mem_pool_of_references old)
    · cases new
      exact Or.inr returns.apart
  · change (Array.push _ _).size = (Array.push _ _).size
    rw [Array.size_push, Array.size_push]
    exact congrArg (· + 1) before.lined
  · change _ ∨ _ ∈ (state.draft.body.code.push ⟨.closure, index, 0⟩).toList
    have pushed : (state.draft.body.constants.push (.ref id))[place]? = some (.ref other) := here
    rw [Array.getElem?_push] at pushed
    rw [Array.toList_push]
    split at pushed
    · next isNew =>
      subst isNew
      exact Or.inr (List.mem_append_right _ List.mem_cons_self)
    · exact (before.filed place other pushed).imp_right (List.mem_append_left _)

theorem does_emitClosure {done : Unit → State → Prop} (returns : Returns before state id body)
    (next : ∀ later, MakesClosure state later → done () later) :
    Does (emitOperand .closure state.draft.body.constants.size) (state.filed id) done := by
  let index := state.draft.body.constants.size
  let later := (state.filed id).written ⟨.closure, index, 0⟩
  have constant : later.draft.body.constants[index]? = some (.ref id) := Array.getElem?_push_size
  refine does_emitWith (next later ⟨index, body, returns.written, fun setting flags foresees => ?_⟩)
  have reached : ∀ other, Heap.Reaches state.heap.objects [id] other →
      setting.heap.get? other = state.heap.get? other := by
    intro other isReached
    refine foresees.heap other (isReached.mono fun root member => .root ?_)
    rw [List.mem_singleton.mp member]
    exact Prototype.mem_references constant
  refine ⟨⟨id, foresees.constant constant, ?_⟩,
    returns.finished.2 setting.heap setting.registry reached foresees.knows, ?_⟩
  · rw [Heap.prototype?, reached id (.root List.mem_cons_self), returns.finished.1]
  · obtain ⟨inner, rfl, captures⟩ := returns.captures
    intro capture member
    have captured := captures capture member
    split
    · next isLocal =>
      rw [if_pos isLocal] at captured
      obtain ⟨found, here, isCaptured, _⟩ := captured
      exact foresees.marked here isCaptured
    · next isLocal =>
      rw [if_neg isLocal] at captured
      have more := foresees.captures.length_le
      simp only [Array.length_toList] at more
      exact Nat.lt_of_lt_of_le captured more

theorem MakesClosure.after {middle last : State} (idle : Adds 0 before middle [])
    (makes : MakesClosure middle last) : MakesClosure before last := by
  obtain ⟨index, body, adds, foreseen⟩ := makes
  exact ⟨index, body, idle.trans adds, foreseen⟩

theorem MakesClosure.moves {last : State} (makes : MakesClosure before last) :
    Moves 0 1 before last := by
  obtain ⟨index, body, adds, foreseen⟩ := makes
  refine ⟨_, adds, fun setting flags foresees known height above => ?_⟩
  obtain ⟨made, sound, captured⟩ := foreseen setting flags foresees
  exact Prototype.settles_closure [] made captured sound above (by simp) (Or.inl rfl)

/-- A closure is made in the slot of the local that it is the value of. -/
theorem MakesClosure.runs {last : State} {name : Text}
    (makes : MakesClosure (state.declared name).marked last) : Runs 1 state last := by
  obtain ⟨index, body, adds, foreseen⟩ := makes
  have grows : Grows 1 state last := by
    have declared := (Grows.marked (.refl (state.declared name))).trans adds.grows
    rwa [Nat.zero_add] at declared
  have stages : Stages state last := ⟨adds.stages.words, adds.stages.nested, adds.stages.tabled⟩
  refine ⟨_, ⟨adds.orderly, grows, stages, adds.code⟩, fun setting flags foresees known => ?_⟩
  obtain ⟨made, sound, captured⟩ := foreseen setting flags foresees
  obtain ⟨newest, _, visible⟩ := visible_marked (.refl (state.declared name))
  have length := (foresees.earlier adds.grows).flags.length_eq
  rw [visible, List.drop_zero] at length
  cases flags with
  | nil => cases length
  | cons flag flags =>
    exact Prototype.settles_closure [flag] made captured sound (Nat.le_refl _) (by simp)
      (Or.inr rfl)

end Closures

end ScriptMachine.Compiler
