import ScriptMachine.Proofs.Compiler.Growth

set_option autoImplicit false

/- What holds between the actions of a quiet compilation, and what the code emitted so far comes to
in every prototype that the compilation can still end with. -/
namespace ScriptMachine.Compiler

open Prototype (Setting Note Settles Sound Marked)

/-- A draft in order: every instruction has a line, only the newest local may be without a value,
what constants name are strings, and functions that the code makes closures of, and the oldest local
is the callee, which has no name in a script. -/
structure Draft.Orderly (heap : Heap) (draft : Draft) : Prop where
  lined : draft.body.lines.size = draft.body.code.size
  settled : ∀ found ∈ draft.locals.tail, found.depth.isSome = true
  filed : ∀ (index : Nat) (id : ObjectId), draft.body.constants[index]? = some (.ref id) →
    (∃ text, heap.get? id = some (.string text)) ∨
      (⟨.closure, index, 0⟩ : Instruction) ∈ draft.body.code.toList
  named : ∀ id, draft.body.name = some id → ∃ text, heap.get? id = some (.string text)
  rooted : ∃ callee ∈ draft.locals, callee.depth = some 0
  nameless : draft.kind = .script → ∀ found ∈ draft.locals, found.depth = some 0 → found.name = []

/-- What a function captures is a captured local, or itself captured, in the function around. When
identifiers have texts, the local has a name. -/
def Draft.CapturesFrom (worded : Prop) (inner outer : Draft) : Prop :=
  ∀ capture ∈ inner.body.captures,
    if capture.isLocal then
      ∃ found, outer.visible.reverse[capture.index]? = some found ∧ found.captured = true ∧
        (worded → found.name ≠ [])
    else capture.index < outer.body.captures.size

/-- Every function captures from the one around it, and the outermost, which alone can be a script,
captures nothing. -/
def Draft.Chained (worded : Prop) : List Draft → Prop
  | [] => True
  | [outermost] => outermost.body.captures = #[]
  | inner :: outer :: rest =>
    inner.kind ≠ .script ∧ inner.CapturesFrom worded outer ∧ Chained worded (outer :: rest)

/-- A registry has the structs that the unit sees. -/
def Knows (registry : Registry) (state : State) : Prop :=
  ∀ id type, state.struct? id = some type →
    ∃ known, registry.struct? id = some known ∧ known.fields = type.fields

/-- A function that has been compiled: it is sound wherever what it refers to is as it is here. -/
def Finished (state : State) (id : ObjectId) (body : Prototype) : Prop :=
  state.heap.get? id = some (.function body) ∧
    ∀ (heap : Heap) (registry : Registry),
      (∀ other, Heap.Reaches state.heap.objects [id] other →
        heap.get? other = state.heap.get? other) →
      Knows registry state → Sound heap registry body

/-- A compilation in order. -/
structure Orderly (state : State) : Prop where
  calm : Calm state
  tidy : state.heap.Tidy
  drafts : ∀ draft ∈ state.drafts, state.heap.get? draft.id = some (.function {})
  distinct : (state.drafts.map Draft.id).Nodup
  present : ∀ id, Heap.Reaches state.heap.objects state.pool id →
    (state.heap.get? id).isSome = true
  apart : ∀ draft ∈ state.drafts, ¬ Heap.Reaches state.heap.objects state.pool draft.id
  each : ∀ draft ∈ state.drafts, draft.Orderly state.heap
  captures : Draft.Chained state.cursor.Worded state.drafts
  bare : ∀ type ∈ state.staged.structs, type.methods = []
  methods : ∀ staged ∈ state.staged.methods, ∃ prototype upvalues body,
    state.heap.get? staged.method.closure = some (.closure prototype upvalues) ∧
      Finished state prototype body

section Growing

variable {state later : State} {added : Nat} {id : ObjectId} {body : Prototype}

theorem Knows.earlier {registry : Registry} (grows : Grows added state later)
    (knows : Knows registry later) : Knows registry state :=
  fun id type known => knows id type (grows.structs id type known)

/-- What is reached from a part of the roots stays reached, and as it was. -/
theorem Grows.part (grows : Grows added state later) {part : List ObjectId}
    (inside : ∀ id ∈ part, Heap.Reaches state.heap.objects state.pool id)
    (reached : Heap.Reaches state.heap.objects part id) :
    later.heap.get? id = state.heap.get? id ∧ Heap.Reaches later.heap.objects part id := by
  have same : ∀ id, Heap.Reaches state.heap.objects part id →
      later.heap.get? id = state.heap.get? id :=
    fun id reached => grows.heap id (reached.mono inside)
  exact ⟨same id reached, reached.transfer same fun _ member => member⟩

/-- A compiled function stays one while what it refers to stays as it is. -/
theorem Finished.transfer (finished : Finished state id body)
    (same : ∀ other, Heap.Reaches state.heap.objects [id] other →
      later.heap.get? other = state.heap.get? other)
    (structs : ∀ id type, state.struct? id = some type → later.struct? id = some type) :
    Finished later id body := by
  have here := same id (.root List.mem_cons_self)
  refine ⟨here.trans finished.1, fun heap registry kept knows => ?_⟩
  refine finished.2 heap registry (fun other reached => ?_)
    fun id type known => knows id type (structs id type known)
  rw [kept other (reached.transfer same fun _ member => member), same other reached]

theorem Finished.grown (grows : Grows added state later)
    (reached : Heap.Reaches state.heap.objects state.pool id) (finished : Finished state id body) :
    Finished later id body := by
  refine finished.transfer (fun other isReached => ?_) grows.structs
  refine grows.heap other (isReached.mono fun root member => ?_)
  rwa [List.mem_singleton.mp member]

/-- What a draft's constants name stays in order while it stays as it is. -/
theorem Draft.Orderly.transfer {heap other : Heap} {draft : Draft} (orderly : draft.Orderly heap)
    (same : ∀ id ∈ draft.body.references, other.get? id = heap.get? id) :
    draft.Orderly other where
  lined := orderly.lined
  settled := orderly.settled
  filed index id here := by
    rw [same id (Prototype.mem_references here)]
    exact orderly.filed index id here
  named id here := by
    rw [same id (List.mem_append_left _ (Option.mem_toList.mpr here))]
    exact orderly.named id here
  rooted := orderly.rooted
  nameless := orderly.nameless

theorem Draft.Grows.settled {before after : Draft} (grows : before.Grows 0 after)
    (settled : ∀ found ∈ before.locals.tail, found.depth.isSome = true) :
    ∀ found ∈ after.locals.tail, found.depth.isSome = true := by
  intro found member
  rw [← List.drop_one] at member
  obtain ⟨old, inside, older⟩ := related_of_mem (List.forall₂_drop 1 grows.older) member
  rw [older.depth]
  exact settled old (List.drop_one ▸ inside)

theorem Draft.Grows.rooted {before after : Draft} (grows : before.Grows 0 after)
    (rooted : ∃ callee ∈ before.locals, callee.depth = some 0) :
    ∃ callee ∈ after.locals, callee.depth = some 0 := by
  obtain ⟨callee, member, outermost⟩ := rooted
  obtain ⟨aged, inside, ages⟩ := related_of_mem grows.older.flip member
  exact ⟨aged, inside, ages.depth.trans outermost⟩

theorem Draft.Grows.nameless {before after : Draft} (grows : before.Grows 0 after)
    (nameless : before.kind = .script → ∀ found ∈ before.locals, found.depth = some 0 →
      found.name = []) :
    after.kind = .script → ∀ found ∈ after.locals, found.depth = some 0 → found.name = [] := by
  intro isScript found member outermost
  obtain ⟨old, inside, ages⟩ := related_of_mem grows.older member
  rw [ages.name]
  exact nameless (grows.kind ▸ isScript) old inside (ages.depth ▸ outermost)

/-- A draft that has waited is in order if it was. -/
theorem Draft.Waits.orderly {before after : Draft} {heap : Heap} (waits : before.Waits after)
    (orderly : before.Orderly heap) : after.Orderly heap where
  lined := by rw [waits.lines, waits.code]; exact orderly.lined
  settled := waits.grows.settled orderly.settled
  filed := by rw [waits.constants, waits.code]; exact orderly.filed
  named := by rw [waits.grows.name]; exact orderly.named
  rooted := waits.grows.rooted orderly.rooted
  nameless := waits.grows.nameless orderly.nameless

theorem waits_ids {before after : List Draft} (waits : List.Forall₂ Draft.Waits before after) :
    after.map Draft.id = before.map Draft.id := by
  induction waits with
  | nil => rfl
  | cons here _ ih => rw [List.map_cons, List.map_cons, here.grows.id, ih]

/-- The current draft may change, and what it refers to as long as that is in order, while those
around it wait. -/
theorem Orderly.change (orderly : Orderly state) (calm : Calm later)
    (heap : later.heap = state.heap)
    (structs : ∀ id type, state.struct? id = some type → later.struct? id = some type)
    (bare : ∀ type ∈ later.staged.structs, type.methods = [])
    (methods : later.staged.methods = state.staged.methods)
    (id : later.draft.id = state.draft.id)
    (enclosing : List.Forall₂ Draft.Waits state.enclosing later.enclosing)
    (captures : Draft.Chained later.cursor.Worded later.drafts)
    (references : ∀ id ∈ later.draft.body.references, id ∈ state.pool ∨
      ∀ other, Heap.Reaches state.heap.objects [id] other →
        (state.heap.get? other).isSome = true ∧ ∀ draft ∈ state.drafts, draft.id ≠ other)
    (each : later.draft.Orderly state.heap) : Orderly later := by
  have ids : later.drafts.map Draft.id = state.drafts.map Draft.id := by
    rw [State.drafts, State.drafts, List.map_cons, List.map_cons, waits_ids enclosing, id]
  have idOf : ∀ draft ∈ later.drafts, ∃ old ∈ state.drafts, old.id = draft.id := by
    intro draft member
    rw [← List.mem_map, ← ids]
    exact List.mem_map_of_mem member
  -- Whatever is reached now was reached before, or through something new.
  have reached : ∀ id, Heap.Reaches later.heap.objects later.pool id →
      Heap.Reaches state.heap.objects state.pool id ∨
        ((state.heap.get? id).isSome = true ∧ ∀ draft ∈ state.drafts, draft.id ≠ id) := by
    intro id isReached
    rw [heap] at isReached
    have split : ∀ root ∈ later.pool, root ∈ state.pool ∨
        ∀ other, Heap.Reaches state.heap.objects [root] other →
          (state.heap.get? other).isSome = true ∧ ∀ draft ∈ state.drafts, draft.id ≠ other := by
      intro root member
      rw [State.pool, State.drafts, List.flatMap_cons, List.append_assoc, List.mem_append,
        List.mem_append, methods] at member
      rcases member with inDraft | inEnclosing | inMethods
      · exact references root inDraft
      · obtain ⟨draft, inside, refers⟩ := List.mem_flatMap.mp inEnclosing
        obtain ⟨old, there, waits⟩ := related_of_mem enclosing inside
        have same : draft.body.references = old.body.references := by
          rw [Prototype.references, Prototype.references, waits.grows.name, waits.constants]
        refine Or.inl (List.mem_append_left _ (List.mem_flatMap.mpr ⟨old, ?_, same ▸ refers⟩))
        exact List.mem_cons_of_mem _ there
      · exact Or.inl (List.mem_append_right _ inMethods)
    obtain ⟨root, member, fromRoot⟩ := isReached.single
    rcases split root member with old | new
    · exact Or.inl (fromRoot.mono fun other isRoot => by
        rw [List.mem_singleton.mp isRoot]
        exact .root old)
    · exact Or.inr (new id fromRoot)
  refine
    { calm
      tidy := heap ▸ orderly.tidy
      drafts := ?_
      distinct := by rw [ids]; exact orderly.distinct
      present := ?_
      apart := ?_
      each := ?_
      captures
      bare
      methods := ?_ }
  · intro draft member
    obtain ⟨old, inside, same⟩ := idOf draft member
    rw [heap, ← same]
    exact orderly.drafts old inside
  · intro id isReached
    rw [heap]
    rcases reached id isReached with old | new
    · exact orderly.present id old
    · exact new.1
  · intro draft member isReached
    obtain ⟨old, inside, same⟩ := idOf draft member
    rcases reached _ isReached with before | new
    · exact orderly.apart old inside (same ▸ before)
    · exact new.2 old inside same
  · intro draft member
    rw [heap]
    rcases List.mem_cons.mp member with rfl | inEnclosing
    · exact each
    · obtain ⟨old, there, waits⟩ := related_of_mem enclosing inEnclosing
      exact waits.orderly (orderly.each old (List.mem_cons_of_mem _ there))
  · intro staged member
    rw [methods] at member
    obtain ⟨prototype, upvalues, body, closure, here, sound⟩ := orderly.methods staged member
    refine ⟨prototype, upvalues, body, by rw [heap]; exact closure, by rw [heap]; exact here, ?_⟩
    intro table registry same knows
    rw [heap] at same
    exact sound table registry same fun id type known => knows id type (structs id type known)

/-- Of the innermost function only kind and captures matter to those around it. -/
theorem chain_of_captures {worded : Prop} {one two : Draft} {rest : List Draft}
    (kind : two.kind = one.kind) (same : two.body.captures = one.body.captures)
    (chain : Draft.Chained worded (one :: rest)) : Draft.Chained worded (two :: rest) := by
  cases rest with
  | nil => exact same.trans chain
  | cons outer rest =>
    obtain ⟨inside, captures, chained⟩ := chain
    exact ⟨kind ▸ inside, fun capture member => captures capture (same ▸ member), chained⟩

theorem Draft.CapturesFrom.imp {worded fewer : Prop} (implies : fewer → worded) {inner outer : Draft}
    (captures : inner.CapturesFrom worded outer) : inner.CapturesFrom fewer outer := by
  intro capture member
  have before := captures capture member
  split
  · next isLocal =>
    rw [if_pos isLocal] at before
    obtain ⟨found, here, captured, named⟩ := before
    exact ⟨found, here, captured, fun holds => named (implies holds)⟩
  · next isOuter =>
    rw [if_neg isOuter] at before
    exact before

theorem Draft.Chained.imp {worded fewer : Prop} (implies : fewer → worded) {drafts : List Draft}
    (chain : Draft.Chained worded drafts) : Draft.Chained fewer drafts := by
  induction drafts with
  | nil => trivial
  | cons inner rest ih =>
    cases rest with
    | nil => exact chain
    | cons outer rest =>
      obtain ⟨inside, captures, chained⟩ := chain
      exact ⟨inside, captures.imp implies, ih chained⟩

/-- Only the current draft changes, and not in what it captures. -/
theorem Orderly.update (orderly : Orderly state) (calm : Calm later)
    (words : later.cursor.Worded → state.cursor.Worded)
    (heap : later.heap = state.heap)
    (structs : ∀ id type, state.struct? id = some type → later.struct? id = some type)
    (bare : ∀ type ∈ later.staged.structs, type.methods = [])
    (methods : later.staged.methods = state.staged.methods)
    (id : later.draft.id = state.draft.id) (kind : later.draft.kind = state.draft.kind)
    (enclosing : later.enclosing = state.enclosing)
    (captures : later.draft.body.captures = state.draft.body.captures)
    (references : ∀ id ∈ later.draft.body.references, id ∈ state.pool ∨
      ∀ other, Heap.Reaches state.heap.objects [id] other →
        (state.heap.get? other).isSome = true ∧ ∀ draft ∈ state.drafts, draft.id ≠ other)
    (each : later.draft.Orderly state.heap) : Orderly later := by
  refine orderly.change calm heap structs bare methods id ?_ ?_ references each
  · rw [enclosing]
    exact List.forall₂_same.mpr fun draft _ => .refl draft
  · rw [State.drafts, enclosing]
    exact (chain_of_captures kind captures orderly.captures).imp words

end Growing

/-- What the current function can still come to: its prototype and everything around it once the
unit is done, and which of the visible locals are captured in the end. -/
structure Foresees (setting : Setting) (flags : List Bool) (state : State) : Prop where
  heap : ∀ id, Heap.Reaches state.heap.objects state.draft.body.references id →
    setting.heap.get? id = state.heap.get? id
  constants : state.draft.body.constants.toList <+: setting.body.constants.toList
  captures : state.draft.body.captures.toList <+: setting.body.captures.toList
  layouts : state.draft.body.layouts.toList <+: setting.body.layouts.toList
  knows : Knows setting.registry state
  flags : List.Forall₂ (fun flag found => found.captured = true → flag = true) flags
    state.draft.visible

/-- The declarations of a unit are in order, if its identifiers have texts. -/
def State.Tabled (state : State) : Prop :=
  state.cursor.Worded → state.staged.Coherent state.heap state.registry none

/-- What becomes of the declarations of a unit: functions and blocks leave them alone, and at the top
level they stay in order. -/
structure Stages (before after : State) : Prop where
  words : after.cursor.Worded → before.cursor.Worded
  nested : before.draft.atTopLevel = false → after.staged = before.staged
  tabled : before.Tabled → after.Tabled

/-- Where nothing is staged, declarations stay in order. -/
theorem Grows.coherent {before after : State} {added : Nat} {pending : Option (StructId × Text)}
    (grows : Grows added before after) (staged : after.staged = before.staged)
    (coherent : before.staged.Coherent before.heap before.registry pending) :
    after.staged.Coherent after.heap after.registry pending := by
  rw [staged, grows.registry]
  refine coherent.transfer fun method member arity serves => ?_
  refine serves.transfer fun id reached => grows.heap id (reached.mono fun other isRoot => ?_)
  rw [List.mem_singleton.mp isRoot]
  exact .root (List.mem_append_right _ (List.mem_map_of_mem member))

theorem Grows.stages {before after : State} {added : Nat} (grows : Grows added before after)
    (staged : after.staged = before.staged) (words : after.cursor.Worded → before.cursor.Worded) :
    Stages before after where
  words
  nested _ := staged
  tabled tabled worded := grows.coherent staged (tabled (words worded))

theorem Stages.trans {first second third : State} {added : Nat} (one : Stages first second)
    (grows : Grows added first second) (two : Stages second third) : Stages first third where
  words worded := one.words (two.words worded)
  nested inside :=
    (two.nested (grows.draft.atTopLevel.trans inside)).trans (one.nested inside)
  tabled tabled := two.tabled (one.tabled tabled)

/-- The state after some code has been added to the current function, and `added` locals. -/
structure Adds (added : Nat) (before after : State) (code : List Instruction) : Prop where
  orderly : Orderly after
  grows : Grows added before after
  stages : Stages before after
  code : after.draft.body.code.toList = before.draft.body.code.toList ++ code

/-- Code that takes some values off the stack and leaves others, with the locals below them. -/
def Moves (taken given : Nat) (before after : State) : Prop :=
  ∃ code, Adds 0 before after code ∧ ∀ setting flags, Foresees setting flags after →
    ∀ known height, flags.length ≤ height →
      Settles setting known before.draft.body.code.size code ⟨height + taken, flags⟩
        ⟨height + given, flags⟩

/-- Code between which and what stands around there is nothing but the locals on the stack. -/
def Runs (added : Nat) (before after : State) : Prop :=
  ∃ code, Adds added before after code ∧ ∀ setting flags, Foresees setting flags after →
    ∀ known, Settles setting known before.draft.body.code.size code
      ⟨(flags.drop added).length, flags.drop added⟩ ⟨flags.length, flags⟩

section Pieces

variable {first second third : State} {added more taken between given : Nat}
  {code rest : List Instruction} {setting : Setting} {flags : List Bool}

theorem mem_pool_of_references {state : State} {id : ObjectId}
    (member : id ∈ state.draft.body.references) : id ∈ state.pool := by
  rw [State.pool, State.drafts, List.flatMap_cons, List.append_assoc]
  exact List.mem_append_left _ member

theorem Foresees.earlier (grows : Grows added first second)
    (foresees : Foresees setting flags second) : Foresees setting (flags.drop added) first where
  heap := by
    intro id reached
    have inside : ∀ id ∈ first.draft.body.references,
        Heap.Reaches first.heap.objects first.pool id :=
      fun id member => .root (mem_pool_of_references member)
    obtain ⟨same, still⟩ := grows.part inside reached
    rw [← same]
    refine foresees.heap id (still.mono fun other member => .root ?_)
    exact grows.draft.references other member
  constants := grows.draft.constants.trans foresees.constants
  captures := grows.draft.captures.trans foresees.captures
  layouts := grows.draft.layouts.trans foresees.layouts
  knows := foresees.knows.earlier grows
  flags := by
    have later := List.forall₂_drop added foresees.flags
    have ages := grows.draft.visible_older
    rw [List.forall₂_iff_get] at later ages ⊢
    refine ⟨later.1.trans ages.1.symm, fun index inside there captured => ?_⟩
    exact later.2 index inside (ages.1 ▸ there)
      ((ages.2 index there (ages.1 ▸ there)).captured captured)

theorem Orderly.unchanged {state : State} (orderly : Orderly state) : Adds 0 state state [] where
  orderly
  grows := .refl state
  stages := (Grows.refl state).stages rfl fun worded => worded
  code := by simp

theorem Adds.trans (one : Adds added first second code) (two : Adds more second third rest) :
    Adds (more + added) first third (code ++ rest) where
  orderly := two.orderly
  grows := one.grows.trans two.grows
  stages := one.stages.trans one.grows two.stages
  code := by rw [two.code, one.code, List.append_assoc]

theorem Adds.size (adds : Adds added first second code) :
    second.draft.body.code.size = first.draft.body.code.size + code.length := by
  rw [← Array.length_toList, adds.code, List.length_append, Array.length_toList]

theorem Moves.orderly (moves : Moves taken given first second) : Orderly second := by
  obtain ⟨_, adds, _⟩ := moves
  exact adds.orderly

theorem Moves.trans (one : Moves taken between first second)
    (two : Moves between given second third) : Moves taken given first third := by
  obtain ⟨early, addsEarly, settlesEarly⟩ := one
  obtain ⟨late, addsLate, settlesLate⟩ := two
  refine ⟨early ++ late, addsEarly.trans addsLate, fun setting flags foresees known height above => ?_⟩
  have before := settlesEarly setting flags (foresees.earlier addsLate.grows) known height above
  have after := settlesLate setting flags foresees known height above
  rw [addsEarly.size] at after
  exact before.append after

/-- Values below those that code works with do not matter. -/
theorem Moves.below (moves : Moves taken given first second) (count : Nat) :
    Moves (count + taken) (count + given) first second := by
  obtain ⟨code, adds, settles⟩ := moves
  refine ⟨code, adds, fun setting flags foresees known height above => ?_⟩
  have deeper := settles setting flags foresees known (height + count) (by omega)
  rwa [Nat.add_assoc, Nat.add_assoc] at deeper

theorem Adds.nothing (adds : Adds 0 first second []) (count : Nat) :
    Moves count count first second :=
  ⟨[], adds, fun _ _ _ _ _ _ => Prototype.settles_nil⟩

theorem Runs.orderly (runs : Runs added first second) : Orderly second := by
  obtain ⟨_, adds, _⟩ := runs
  exact adds.orderly

theorem Runs.grows (runs : Runs added first second) : Grows added first second := by
  obtain ⟨_, adds, _⟩ := runs
  exact adds.grows

theorem Runs.stages (runs : Runs added first second) : Stages first second := by
  obtain ⟨_, adds, _⟩ := runs
  exact adds.stages

theorem Moves.runs (moves : Moves 0 0 first second) : Runs 0 first second := by
  obtain ⟨code, adds, settles⟩ := moves
  exact ⟨code, adds, fun setting flags foresees known =>
    settles setting flags foresees known flags.length (Nat.le_refl _)⟩

theorem Runs.trans (one : Runs added first second) (two : Runs more second third) :
    Runs (more + added) first third := by
  obtain ⟨early, addsEarly, settlesEarly⟩ := one
  obtain ⟨late, addsLate, settlesLate⟩ := two
  refine ⟨early ++ late, addsEarly.trans addsLate, fun setting flags foresees known => ?_⟩
  have before := settlesEarly setting _ (foresees.earlier addsLate.grows) known
  have after := settlesLate setting flags foresees known
  rw [List.drop_drop] at before
  rw [addsEarly.size] at after
  exact before.append after

end Pieces

end ScriptMachine.Compiler
