import ScriptMachine.Proofs.Source.Mirroring

set_option autoImplicit false
set_option synthInstance.maxSize 20000

/- Functions inside functions. What the code of a function stands for depends on the functions around
it, which go on while it waits in the heap. -/
namespace ScriptMachine.Compiler

open Prototype (Setting)
open Source (Reading Locals Scope Context Place Productions Form Laying Routine calleeName codesBlock)

/-- All but the code of the current function that is foretold. -/
structure Allows (context : Context) (state : State) : Prop where
  knows : Knows context.registry state
  around : List.Forall₂ Surrounds (⟨context.locals, context.body.captures⟩ :: context.around)
    state.drafts
  structs : ∀ name id, state.findStruct name = some id →
    context.registry.findStruct name = some id
  methods : ∀ staged ∈ state.staged.methods, ∀ type,
    context.registry.struct? staged.struct = some type →
      type.findMethod staged.name = some staged.method
  kept : ∀ id, Heap.Reaches state.heap.objects
    (state.staged.methods.map fun staged => staged.method.closure) id →
      context.heap.get? id = state.heap.get? id

theorem Foretells.allows {context : Context} {state : State} (foretells : Foretells context state) :
    Allows context state where
  knows := foretells.sees.knows
  around := .cons ⟨foretells.names, foretells.sees.flags, foretells.sees.captures⟩ foretells.around
  structs := foretells.structs
  methods := foretells.methods
  kept := foretells.kept

/-- A function that has been compiled: what its prototype stands for wherever what it refers to is as
it is here. -/
def Spells (function : Context → Prototype → Prop) (state : State) (id : ObjectId)
    (body : Prototype) : Prop :=
  ∀ context, Allows context state →
    (∀ other, Heap.Reaches state.heap.objects [id] other →
      context.heap.get? other = state.heap.get? other) → function context body

section Blocks

variable {grammar : Grammar} {nested : Productions} {state later : State}

theorem codesBlock_concat {body : List Source.Statement} {item : Source.Statement}
    {context : Context} {declared : Locals} {start : Nat} {code : List Instruction}
    (codes : ((codesBlock body).andThen item.Codes) context declared start code) :
    codesBlock (body ++ [item]) context declared start code := by
  induction body generalizing context declared start code with
  | nil =>
    obtain ⟨early, late, front, back, rfl, rfl, ⟨rfl, rfl⟩, means⟩ := codes
    refine ⟨late, [], back, [], by simp, by simp, ?_, ⟨rfl, rfl⟩⟩
    simpa [Context.declare] using means
  | cons first rest ih =>
    obtain ⟨early, late, front, back, rfl, rfl, ⟨one, two, head, tail, rfl, rfl, first, others⟩,
      means⟩ := codes
    refine ⟨one, late ++ two, head, tail ++ back, by simp, by simp, first, ?_⟩
    refine ih ⟨two, late, tail, back, rfl, rfl, others, ?_⟩
    simpa [Context.declare, Nat.add_assoc] using means

/-- The rest of a block, behind its opening brace. -/
theorem follows_block [declarations : ∀ origin, Keeps (Changes origin) grammar.declaration]
    (mirrors : Mirrors grammar nested) (meets : Meets nested state) (resting : AtStatement state)
    (inner : state.draft.atTopLevel = false) :
    Follows grammar.block nested.block state fun _ body last =>
      Lays (codesBlock body) state last ∧ last.knows = state.knows := by
  let inv : Unit → List Source.Statement → State → Prop := fun _ body middle =>
    Lays (codesBlock body) state middle ∧ middle.knows = state.knows
  unfold Grammar.block Productions.block
  rw [mirrors.bound]
  refine follows_seq inv (follows_iterate inv (fun _ body middle holds => ?_) grammar.bound () []
    ⟨meets.orderly.builds.lays, rfl⟩) fun _ body middle holds => ?_
  · obtain ⟨lays, knows⟩ := holds
    have here : Meets nested middle := ⟨lays.orderly, knows.trans meets.knows,
      capturesOnce_of_changes lays.changes meets.once,
      (worded_of_changes lays.changes).mpr meets.worded⟩
    refine follows_check (follows_atEnd (follows_ite .rfl (fun _ => ?_) fun more => ?_))
    · exact follows_pure ⟨rfl, lays, knows⟩
    · have inside : middle.pending ≠ [] := by
        intro empty
        rw [empty] at more
        simp at more
      refine follows_bind ((mirrors.declaration here (lays.resting resting) inside).mono ?_)
      rintro _ item last ⟨more, -, same⟩
      refine follows_pure ⟨rfl, ?_, (same (lays.atTopLevel.trans inner)).trans knows⟩
      exact (lays.andThen more).mono fun _ _ _ _ => codesBlock_concat
  · obtain ⟨lays, knows⟩ := holds
    refine follows_expect lays.orderly fun token last _ passed => follows_pure ⟨?_, ?_⟩
    · exact lays.before passed.comes
    · exact passed.comes.toStays.knows.trans knows

end Blocks

section Entering

variable {isMethod : Bool} {outer state later : State} {grammar : Grammar} {nested : Productions}

/-- The name of a function is that of its prototype. -/
def Titled (state : State) (name : Text) : Prop :=
  ∃ id, state.draft.body.name = some id ∧ state.heap.get? id = some (.string name)

theorem Titled.grown {added : Nat} {name : Text} (titled : Titled state name)
    (grows : Grows added state later) : Titled later name := by
  obtain ⟨id, here, string⟩ := titled
  refine ⟨id, grows.draft.name.trans here, ?_⟩
  rw [grows.heap id (.root (mem_pool_of_references ?_)), string]
  exact List.mem_append_left _ (Option.mem_toList.mpr here)

/-- A function before its body, some of its parameters having been declared. -/
structure Heads (isMethod : Bool) (name : Text) (parameters : List Text) (outer state : State) :
    Prop where
  begins : Begins isMethod 0 outer state
  titled : Titled state name
  names : state.draft.locals.map Variable.name = parameters.reverse ++ [calleeName isMethod]
  changes : Changes outer state

theorem Heads.idle {name : Text} {parameters : List Text}
    (heads : Heads isMethod name parameters outer state) (comes : Comes state later []) :
    Heads isMethod name parameters outer later where
  begins := heads.begins.idle comes.adds
  titled := heads.titled.grown comes.adds.grows
  names := by
    have ages := comes.adds.grows.draft.older
    rw [List.drop_zero] at ages
    rw [names_of_ages ages, heads.names]
  changes := heads.changes.trans comes.changes

theorem Heads.meets {name : Text} {parameters : List Text}
    (heads : Heads isMethod name parameters outer state) (meets : Meets nested outer) :
    Meets nested state where
  orderly := heads.begins.orderly
  knows := by
    rw [← meets.knows]
    funext other
    rw [State.knows, State.findStruct, heads.begins.inside.registry, heads.begins.inside.staged]
    rfl
  once := capturesOnce_of_changes heads.changes meets.once
  worded := (worded_of_changes heads.changes).mpr meets.worded

theorem does_heads {kind : FunctionKind} (name : Text) (orderly : Orderly state)
    (notScript : kind ≠ .script) : Does (Grammar.beginFunction kind name) state fun _ last =>
      Heads (kind == .method) name [] state last.opened := by
  have names : ∀ origin (id : ObjectId), Keeps (Changes origin)
      (modifyBody fun body => { body with name := some id }) :=
    fun _ _ => keeps_body fun _ => ⟨rfl, rfl⟩
  have begins : Does (Grammar.beginFunction kind name) state fun _ last =>
      Begins (kind == .method) 0 state last.opened :=
    does_beginFunction orderly notScript fun _ begins => begins
  have titles : Does (Grammar.beginFunction kind name) state fun _ last =>
      Titled last name ∧
        last.draft.locals.map Variable.name = [calleeName (kind == .method)] := by
    rw [Grammar.beginFunction_eq]
    refine does_bind (does_openDraft orderly ?_)
    intro allocated adds same around staged placeholder
    let draft : Draft := .begun kind name state.heap.nextId allocated.implType
    obtain ⟨isOrderly, _⟩ := entered draft orderly adds same around staged rfl placeholder rfl
      rfl rfl rfl rfl rfl ⟨_, List.mem_cons_self, rfl⟩ notScript
    refine does_bind (does_intern isOrderly fun id named more unchanged string => ?_)
    refine does_modify ⟨⟨id, rfl, string⟩, ?_⟩
    change named.draft.locals.map Variable.name = _
    rw [unchanged]
    rfl
  refine ((begins.and titles).and does_changes).mono ?_
  rintro _ last ⟨⟨begins, titled, names⟩, changes⟩
  exact ⟨begins, titled, names, changes.trans (changes_of_ran (rfl : beginScope last = .ok () last.opened))⟩

/-- One more parameter is declared. -/
theorem Heads.declared {name : Text} {parameters : List Text} {counted : State} {token : Token}
    (heads : Heads isMethod name parameters outer state)
    (counts : counted = state.withBody
      { state.draft.body with arity := state.draft.body.arity + 1 })
    (passed : Comes counted later []) (changes : Changes state (later.declared token.text).marked) :
    Heads isMethod name (parameters ++ [token.text]) outer (later.declared token.text).marked where
  begins := by
    subst counts
    exact (heads.begins.counted.idle passed.adds).declared token.text
  titled := by
    subst counts
    obtain ⟨id, here, string⟩ := heads.titled
    have titled : Titled (state.withBody
        { state.draft.body with arity := state.draft.body.arity + 1 }) name := ⟨id, here, string⟩
    obtain ⟨id, here, string⟩ := titled.grown passed.adds.grows
    exact ⟨id, here, string⟩
  names := by
    subst counts
    have ages := passed.adds.grows.draft.older
    rw [List.drop_zero] at ages
    have same : later.draft.locals.map Variable.name = state.draft.locals.map Variable.name :=
      names_of_ages ages
    simp only [State.marked, State.declared, State.withDraft, Draft.modifyNewest,
      List.modify_zero_cons, List.map_cons, same, heads.names, List.reverse_append,
      List.reverse_cons, List.reverse_nil, List.nil_append, List.cons_append]
  changes := heads.changes.trans changes

theorem follows_parameters {name : Text} (bound : nested.bound = grammar.bound)
    (heads : Heads isMethod name [] outer state) :
    Follows grammar.parameters nested.parameters state fun _ parameters last =>
      Heads isMethod name parameters outer last := by
  have counts : ∀ origin : State, Keeps (Changes origin)
      (modifyBody fun body => { body with arity := body.arity + 1 }) :=
    fun _ => keeps_body fun _ => ⟨rfl, rfl⟩
  unfold Grammar.parameters Productions.parameters
  rw [bound]
  dsimp only
  refine follows_check (follows_ite .rfl (fun _ => ?_) fun _ => follows_pure heads)
  refine follows_iterate (fun _ parameters middle => Heads isMethod name parameters outer middle)
    (fun _ parameters middle heads => ?_) grammar.bound () [] heads
  let counted := middle.withBody
    { middle.draft.body with arity := middle.draft.body.arity + 1 }
  have calm : Calm counted := heads.begins.orderly.calm
  have orderly : Orderly counted := heads.begins.counted.orderly
  have ran : modifyBody (fun body => { body with arity := body.arity + 1 }) middle
      = .ok () counted := rfl
  have counting : Changes middle counted := changes_of_ran ran
  refine follows_ran rfl rfl (follows_ran rfl rfl ?_)
  refine follows_test (fun _ => follows_errorHere calm) fun _ => ?_
  refine follows_expect orderly fun token named _ passed => ?_
  refine follows_still passed.adds.orderly.calm (does_declareLocal passed.adds.orderly.calm fun declares => ?_)
  have deep : 0 < named.draft.scopeDepth := by
    rw [passed.adds.grows.draft.scopeDepth]
    exact heads.begins.deep
  have calm : Calm (named.declared token.text) := passed.adds.orderly.calm
  refine follows_still calm (does_markInitialized deep fun marks => ?_)
  have here := heads.declared rfl passed.comes
    (((counting.trans passed.changes).trans declares.changes).trans marks.changes)
  refine follows_idle here.begins.orderly fun _ shaped _ _ comes => ?_
  refine follows_accept comes.orderly (fun _ last _ comma => ?_) fun _ => ?_
  · exact follows_pure ⟨rfl, (here.idle comes).idle comma.comes⟩
  · exact follows_pure ⟨rfl, here.idle comes⟩

end Entering

section Leaving

variable {grammar : Grammar} {nested : Productions} {outer state last : State}

theorem nesting_of_waits {before after : List Draft}
    (waits : List.Forall₂ Draft.Waits before after) :
    (after.map fun draft => (draft.kind, draft.scopeDepth))
      = before.map fun draft => (draft.kind, draft.scopeDepth) := by
  induction waits with
  | nil => rfl
  | cons here _ ih =>
    rw [List.map_cons, List.map_cons, here.grows.kind, here.grows.scopeDepth, ih]

theorem Grows.nesting {added : Nat} (grows : Grows added outer last) :
    last.nesting = outer.nesting := by
  rw [State.nesting, State.nesting, List.map_cons, List.map_cons,
    nesting_of_waits grows.enclosing, grows.draft.kind, grows.draft.scopeDepth]

/-- A function whose body has been compiled stands for what has been read. -/
theorem spells_of_lays {isMethod : Bool} {name : Text} {parameters : List Text}
    {body : List Source.Statement} {ended : State} {around : Draft} {rest : List Draft}
    (heads : Heads isMethod name parameters outer state)
    (lays : Lays (codesBlock body) state last)
    (ends : Adds 0 last ended [⟨.nil, 0, 0⟩, ⟨.return, 0, 0⟩])
    (once : CapturesOnce ended) (enclosing : ended.enclosing = around :: rest) :
    Spells ((Routine.mk parameters body).Codes name isMethod) (ended.returned around rest)
      ended.draft.id ended.draft.body := by
  obtain ⟨-, -, added, code, adds, means⟩ := lays
  intro context allows same
  let locals : Locals := ended.draft.visible.map fun found => (found.name, found.captured)
  have orderly := ends.orderly
  have pool : ∀ id, Heap.Reaches ended.heap.objects ended.draft.body.references id →
      Heap.Reaches ended.heap.objects ended.pool id := fun id isReached =>
    isReached.mono fun root member => .root (mem_pool_of_references member)
  have heap : ∀ id, Heap.Reaches ended.heap.objects ended.draft.body.references id →
      context.heap.get? id = ended.heap.get? id := by
    intro id reached
    have there : Heap.Reaches (ended.returned around rest).heap.objects
        ended.draft.body.references id :=
      reached.transfer (fun id isReached => orderly.returned_kept (pool id isReached))
        fun _ member => member
    have still : Heap.Reaches (ended.returned around rest).heap.objects [ended.draft.id] id :=
      there.mono fun root member =>
        .next (.root List.mem_cons_self) orderly.returned_here member
    rw [same id still, orderly.returned_kept (pool id reached)]
  have methods : ∀ id, Heap.Reaches ended.heap.objects
      (ended.staged.methods.map fun staged => staged.method.closure) id →
        Heap.Reaches ended.heap.objects ended.pool id := fun id reached =>
    reached.mono fun root member => .root (List.mem_append_right _ member)
  have foretells : Foretells (context.inside ended.draft.body locals) ended :=
    { sees :=
        { heap
          constants := List.prefix_refl _
          captures := List.prefix_refl _
          layouts := List.prefix_refl _
          knows := allows.knows
          flags := by
            simp only [Context.inside, locals, List.map_map]
            exact List.forall₂_map_left_iff.mpr
              (List.forall₂_same.mpr fun _ _ captured => captured) }
      names := by simp [Context.inside, locals]
      around := by
        rw [enclosing]
        exact allows.around
      structs := allows.structs
      methods := allows.methods
      kept := fun id reached => by
        have still : Heap.Reaches (ended.returned around rest).heap.objects
            (ended.staged.methods.map fun staged => staged.method.closure) id :=
          reached.transfer (fun id isReached => orderly.returned_kept (methods id isReached))
            fun _ member => member
        change context.heap.get? id = _
        rw [allows.kept id still, orderly.returned_kept (methods id reached)]
      topLevel := by
        have inner := heads.begins.nested
        rw [← adds.grows.draft.atTopLevel, ← ends.grows.draft.atTopLevel] at inner
        exact inner.symm }
  have before := foretells.same ends.grows
  have early := before.earlier adds.grows
  have arity : ended.draft.body.arity = parameters.length := by
    rw [ends.grows.draft.arity, adds.grows.draft.arity]
    have count := heads.begins.count
    have names := congrArg List.length heads.names
    simp only [List.length_map, List.length_append, List.length_reverse, List.length_cons,
      List.length_nil] at names
    omega
  obtain ⟨id, isName, string⟩ := (heads.titled.grown adds.grows).grown ends.grows
  refine ⟨⟨id, isName, ?_⟩, arity, ?_, ?_, locals.drop added, locals.take added, code, ?_, ?_, ?_⟩
  · have root : id ∈ ended.draft.body.references :=
      List.mem_append_left _ (Option.mem_toList.mpr isName)
    rw [Heap.string?, heap id (.root root), string]
  · rw [ends.grows.draft.isMethod, adds.grows.draft.isMethod]
    exact heads.begins.isMethod
  · exact once ended.draft List.mem_cons_self
  · exact early.names.trans (by rw [heads.begins.resting.visible, heads.names])
  · have means := means _ before
    rw [heads.begins.code] at means
    exact means
  · rw [ends.code, adds.code, heads.begins.code]
    simp

/-- A function has been compiled that stands for what has been read. -/
structure Makes (function : Context → Prototype → Prop) (before after : State) (id : ObjectId)
    (body : Prototype) : Prop where
  returns : Returns before after id body
  spells : Spells function after id body
  comes : Comes before after []

theorem follows_routine [declarations : ∀ origin, Keeps (Changes origin) grammar.declaration]
    (behaves : grammar.Behaves) (mirrors : Mirrors grammar nested) {kind : FunctionKind}
    (name : Text) (notScript : kind ≠ .script) (meets : Meets nested state) :
    Follows (grammar.function kind name) nested.routine state fun result routine last =>
      ∃ body, body.arity = result.2 ∧ body.isMethod = (kind == .method) ∧
        Makes (routine.Codes name (kind == .method)) state last result.1 body := by
  have whole : Follows (grammar.function kind name) nested.routine state
      fun result routine last => ∃ body, last.heap.get? result.1 = some (.function body) ∧
        Spells (routine.Codes name (kind == .method)) last result.1 body ∧
        last.staged = state.staged := by
    unfold Grammar.function Productions.routine
    have rests : Does (Grammar.beginFunction kind name) state fun _ last =>
        last.pending = state.pending :=
      (does_of_parses meets.orderly.calm fun ready =>
        parses_beginFunction ready kind name).mono fun _ _ enters => by
          rw [State.pending, enters.cursor, State.pending]
    refine follows_silent (((does_heads name meets.orderly notScript).and rests).mono ?_)
    rintro _ entered ⟨heads, pending⟩
    refine ⟨pending, follows_silent (does_beginScope ⟨rfl, ?_⟩)⟩
    refine follows_expect heads.begins.orderly fun _ first _ passed => ?_
    refine follows_bind ((follows_parameters mirrors.bound (heads.idle passed.comes)).mono ?_)
    intro _ parameters second heads
    refine follows_expect heads.begins.orderly fun _ third _ passed => ?_
    refine follows_expect passed.adds.orderly fun _ fourth _ passed' => ?_
    have heads := (heads.idle passed.comes).idle passed'.comes
    refine follows_bind ((follows_block mirrors (heads.meets meets) heads.begins.resting
      heads.begins.nested).mono ?_)
    rintro _ body fifth ⟨lays, -⟩
    refine follows_still lays.orderly.calm (does_emitReturnNil lays.orderly fun ended ends remains => ?_)
    obtain ⟨-, changes, added, code, adds, -⟩ := id lays
    have nested := adds.grows.draft.atTopLevel.trans heads.begins.nested
    have inside := (heads.begins.inside.grown heads.begins.nested adds.grows adds.stages).grown nested
      ends.grows ends.stages
    obtain ⟨around, rest, enclosing, returned⟩ := inside.returned ends.orderly
    have ran : Grammar.endFunction ended
        = .ok (ended.draft.id, ended.draft.body.arity) (ended.returned around rest) := by
      simp only [Grammar.endFunction, modifyGet, MonadStateOf.modifyGet, EStateM.modifyGet]
      rw [enclosing]
      rfl
    have once : CapturesOnce ended := capturesOnce_of_changes
      ((heads.changes.trans changes).trans remains.changes) meets.once
    intro result final isRun _
    rw [ran] at isRun
    cases isRun
    exact ⟨.mk parameters body, rfl, ended.draft.body, ends.orderly.returned_here,
      spells_of_lays heads lays ends once enclosing, inside.staged⟩
  have made := does_function behaves name notScript meets.orderly
  refine (((Does.and whole made).and does_changes).mono ?_)
  rintro result last ⟨⟨⟨routine, ran, body, here, spells, staged⟩, other, arity, isMethod, returns⟩,
    changes⟩
  have same : body = other := by
    have found := here.symm.trans returns.finished.1
    cases found
    rfl
  subst same
  refine ⟨routine, ran, body, arity, isMethod, returns, spells, ?_⟩
  refine ⟨⟨returns.adds.grows.nesting, ?_⟩, returns.adds, changes⟩
  funext name
  rw [State.known, State.findStruct, returns.adds.grows.registry, staged]
  rfl

end Leaving

end ScriptMachine.Compiler
