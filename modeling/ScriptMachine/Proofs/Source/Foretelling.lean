import ScriptMachine.Proofs.Source.Coding
import ScriptMachine.Proofs.Source.Following

set_option autoImplicit false
set_option synthInstance.maxSize 20000

/- What the code written so far stands for, in every prototype that the compilation can still end
with. -/
namespace ScriptMachine.Compiler

open Prototype (Setting)
open Source (Locals Scope Context Form Laying)

/-- A function around the current one, as it will be in the end. -/
structure Surrounds (scope : Scope) (draft : Draft) : Prop where
  names : scope.locals.map Prod.fst = draft.visible.map Variable.name
  flags : List.Forall₂ (fun flag (found : Variable) => found.captured = true → flag = true)
    (scope.locals.map Prod.snd) draft.visible
  captures : draft.body.captures.toList <+: scope.captures.toList

/-- The current function and those around it as they will be in the end, when the unit is done. -/
structure Foretells (context : Context) (state : State) : Prop where
  sees : Foresees context.toSetting (context.locals.map Prod.snd) state
  names : context.locals.map Prod.fst = state.draft.visible.map Variable.name
  around : List.Forall₂ Surrounds context.around state.enclosing
  structs : ∀ name id, state.findStruct name = some id →
    context.registry.findStruct name = some id
  methods : ∀ staged ∈ state.staged.methods, ∀ type,
    context.registry.struct? staged.struct = some type →
      type.findMethod staged.name = some staged.method
  kept : ∀ id, Heap.Reaches state.heap.objects
    (state.staged.methods.map fun staged => staged.method.closure) id →
      context.heap.get? id = state.heap.get? id
  topLevel : context.topLevel = state.draft.atTopLevel

section Earlier

variable {first second : State} {added : Nat} {context : Context}

theorem names_of_ages {before after : List Variable}
    (ages : List.Forall₂ Variable.Ages before after) :
    after.map Variable.name = before.map Variable.name := by
  induction ages with
  | nil => rfl
  | cons here _ ih => rw [List.map_cons, List.map_cons, here.name, ih]

/-- Flags that hold later on hold for the locals there were before. -/
theorem flags_earlier {flags : List Bool} {before after : List Variable}
    (ages : List.Forall₂ Variable.Ages before after)
    (later : List.Forall₂ (fun flag (found : Variable) => found.captured = true → flag = true)
      flags after) :
    List.Forall₂ (fun flag (found : Variable) => found.captured = true → flag = true)
      flags before := by
  induction ages generalizing flags with
  | nil =>
    cases later
    exact .nil
  | cons here _ ih =>
    cases later with
    | cons flag rest => exact .cons (fun captured => flag (here.captured captured)) (ih rest)

theorem Surrounds.earlier {scope : Scope} {before after : Draft} (waits : before.Waits after)
    (surrounds : Surrounds scope after) : Surrounds scope before := by
  have ages := waits.grows.visible_older
  rw [List.drop_zero] at ages
  exact ⟨surrounds.names.trans (names_of_ages ages), flags_earlier ages surrounds.flags,
    waits.grows.captures.trans surrounds.captures⟩

theorem surrounds_earlier {scopes : List Scope} {before after : List Draft}
    (waits : List.Forall₂ Draft.Waits before after)
    (surrounds : List.Forall₂ Surrounds scopes after) : List.Forall₂ Surrounds scopes before := by
  induction waits generalizing scopes with
  | nil => exact surrounds
  | cons here _ ih =>
    cases surrounds with
    | cons scope rest => exact .cons (scope.earlier here) (ih rest)

theorem State.findStruct_eq (state : State) (name : Text) :
    state.findStruct name
      = (state.registry.structs ++ state.staged.structs).findIdx? fun type => type.name == name := by
  rw [Array.findIdx?_append]
  cases found : state.registry.structs.findIdx? fun type => type.name == name with
  | some id => simp [State.findStruct, Registry.findStruct, found]
  | none =>
    simp only [State.findStruct, Registry.findStruct, found, Registry.nextId, Option.none_or]
    refine congrArg (Option.map · _) (funext fun id => Nat.add_comm _ _)

/-- A struct is found by its name as long as no struct in front of it changes its name. -/
theorem Grows.findStruct (grows : Grows added first second) {name : Text} {id : StructId}
    (found : first.findStruct name = some id) : second.findStruct name = some id := by
  have same : ∀ (index : Nat) (type : StructType), (first.registry.structs ++ first.staged.structs)[index]? = some type →
      (second.registry.structs ++ second.staged.structs)[index]? = some type := by
    intro index type here
    rw [← State.struct?_eq] at here ⊢
    exact grows.structs index type here
  rw [State.findStruct_eq] at found ⊢
  generalize first.registry.structs ++ first.staged.structs = old at found same
  generalize second.registry.structs ++ second.staged.structs = new at same ⊢
  obtain ⟨inside, isIt, before⟩ := Array.findIdx?_eq_some_iff_getElem.mp found
  have kept : ∀ index (small : index < old.size), ∃ fits : index < new.size,
      new[index] = old[index] := by
    intro index small
    exact Array.getElem?_eq_some_iff.mp (same index _ (Array.getElem?_eq_getElem small))
  refine Array.findIdx?_eq_some_iff_getElem.mpr ⟨(kept id inside).1, ?_, fun index small => ?_⟩
  · rw [(kept id inside).2]
    exact isIt
  · rw [(kept index (small.trans inside)).2]
    exact before index small

/-- What is foretold later on was to be foretold before, too. -/
theorem Foretells.earlier (grows : Grows added first second) (foretells : Foretells context second) :
    Foretells { context with locals := context.locals.drop added } first where
  sees := by
    rw [List.map_drop]
    exact foretells.sees.earlier grows
  names := by
    rw [List.map_drop, foretells.names, ← List.map_drop]
    exact names_of_ages grows.draft.visible_older
  around := surrounds_earlier grows.enclosing foretells.around
  structs name id found := foretells.structs name id (grows.findStruct found)
  methods staged member := foretells.methods staged (grows.methods.subset member)
  kept := by
    intro id reached
    have inside : ∀ id ∈ first.staged.methods.map fun staged => staged.method.closure,
        Heap.Reaches first.heap.objects first.pool id :=
      fun id member => .root (List.mem_append_right _ member)
    obtain ⟨same, still⟩ := grows.part inside reached
    rw [← same]
    refine foretells.kept id (still.mono fun other member => .root ?_)
    obtain ⟨staged, isStaged, rfl⟩ := List.mem_map.mp member
    exact List.mem_map_of_mem (grows.methods.subset isStaged)
  topLevel := foretells.topLevel.trans grows.draft.atTopLevel

theorem Foretells.same (grows : Grows 0 first second) (foretells : Foretells context second) :
    Foretells context first :=
  foretells.earlier grows

end Earlier

/-- Whether a struct of some name may be used. -/
def State.knows (state : State) (name : Text) : Bool :=
  (state.findStruct name).isSome

theorem Stays.knows {before after : State} (stays : Stays before after) :
    after.knows = before.knows := by
  funext name
  exact Bool.eq_iff_iff.mpr (iff_of_eq (congrFun stays.known name))

/-- Code has been added, in the same block of the same function. -/
structure Comes (origin state : State) (code : List Instruction) : Prop extends Stays origin state where
  adds : Adds 0 origin state code
  changes : Changes origin state

/-- Code of some form has been added. -/
def Builds (form : Form) (origin state : State) : Prop :=
  ∃ code, Comes origin state code ∧ ∀ context, Foretells context state →
    form context origin.draft.body.code.size code

/-- Code has been added that may declare locals. -/
def Lays (laying : Laying) (origin state : State) : Prop :=
  state.nesting = origin.nesting ∧ Changes origin state ∧ ∃ added code, Adds added origin state code ∧
    ∀ context, Foretells context state →
      laying { context with locals := context.locals.drop added } (context.locals.take added)
        origin.draft.body.code.size code

section Building

variable {first second third : State} {code more : List Instruction} {form other : Form}
  {laying : Laying}

theorem Orderly.comes {state : State} (orderly : Orderly state) : Comes state state [] :=
  ⟨.refl state, orderly.unchanged, .refl⟩

theorem Comes.trans (one : Comes first second code) (two : Comes second third more) :
    Comes first third (code ++ more) :=
  ⟨one.toStays.trans two.toStays, one.adds.trans two.adds, one.changes.trans two.changes⟩

theorem Comes.orderly (comes : Comes first second code) : Orderly second :=
  comes.adds.orderly

theorem Passed.comes {token : Token} (passed : Passed token first second) : Comes first second [] :=
  ⟨passed.toStays, passed.adds, passed.changes⟩

theorem Remains.comes (remains : Remains first second) (adds : Adds 0 first second code) :
    Comes first second code :=
  ⟨remains.toStays, adds, remains.changes⟩

theorem Comes.foretells {context : Context} (comes : Comes first second code)
    (foretells : Foretells context second) : Foretells context first :=
  foretells.same comes.adds.grows

theorem Builds.orderly (builds : Builds form first second) : Orderly second := by
  obtain ⟨_, comes, _⟩ := builds
  exact comes.orderly

theorem Builds.stays (builds : Builds form first second) : Stays first second := by
  obtain ⟨_, comes, _⟩ := builds
  exact comes.toStays

theorem Builds.grows (builds : Builds form first second) : Grows 0 first second := by
  obtain ⟨_, comes, _⟩ := builds
  exact comes.adds.grows

theorem Builds.changes (builds : Builds form first second) : Changes first second := by
  obtain ⟨_, comes, _⟩ := builds
  exact comes.changes

/-- Code whose form does not depend on what has been written before. -/
theorem Comes.builds (comes : Comes first second code)
    (means : ∀ context, Foretells context second →
      form context first.draft.body.code.size code) : Builds form first second :=
  ⟨code, comes, means⟩

theorem Builds.mono (builds : Builds form first second)
    (implies : ∀ context start code, form context start code → other context start code) :
    Builds other first second := by
  obtain ⟨code, comes, means⟩ := builds
  exact ⟨code, comes, fun context foretells => implies _ _ _ (means context foretells)⟩

theorem Builds.andThen (one : Builds form first second) (two : Builds other second third) :
    Builds (form.andThen other) first third := by
  obtain ⟨front, comes, means⟩ := one
  obtain ⟨back, comes', means'⟩ := two
  refine ⟨front ++ back, comes.trans comes', fun context foretells => ⟨front, back, rfl, ?_, ?_⟩⟩
  · exact means context (comes'.foretells foretells)
  · rw [← comes.adds.size]
    exact means' context foretells

theorem Builds.behind (comes : Comes first second []) (builds : Builds form second third) :
    Builds form first third := by
  obtain ⟨code, comes', means⟩ := builds
  refine ⟨code, comes.trans comes', fun context foretells => ?_⟩
  have same := means context foretells
  rwa [comes.adds.size] at same

theorem Builds.before (builds : Builds form first second) (comes : Comes second third []) :
    Builds form first third := by
  obtain ⟨code, comes', means⟩ := builds
  refine ⟨code, ?_, fun context foretells => means context (comes.foretells foretells)⟩
  simpa using comes'.trans comes

theorem Orderly.builds {state : State} (orderly : Orderly state) : Builds .nothing state state :=
  orderly.comes.builds fun _ _ => rfl

theorem Builds.lays (builds : Builds form first second) : Lays (.plain form) first second := by
  obtain ⟨code, comes, means⟩ := builds
  exact ⟨comes.nesting, comes.changes, 0, code, comes.adds, fun context foretells =>
    ⟨rfl, means context foretells⟩⟩

theorem Lays.orderly (lays : Lays laying first second) : Orderly second := by
  obtain ⟨_, _, _, _, adds, _⟩ := lays
  exact adds.orderly

theorem Lays.mono {weaker : Laying} (lays : Lays laying first second)
    (implies : ∀ context declared start code, laying context declared start code →
      weaker context declared start code) : Lays weaker first second := by
  obtain ⟨nesting, changes, added, code, adds, means⟩ := lays
  exact ⟨nesting, changes, added, code, adds, fun context foretells =>
    implies _ _ _ _ (means context foretells)⟩

theorem Lays.andThen {behind : Laying} (one : Lays laying first second)
    (two : Lays behind second third) : Lays (laying.andThen behind) first third := by
  obtain ⟨nesting, changes, added, front, adds, means⟩ := one
  obtain ⟨nesting', changes', more, back, adds', means'⟩ := two
  refine ⟨nesting'.trans nesting, changes.trans changes', more + added, front ++ back, adds.trans adds',
    fun context foretells => ?_⟩
  have early := means _ (foretells.earlier adds'.grows)
  have late := means' context foretells
  rw [adds.size] at late
  refine ⟨(context.locals.drop more).take added, context.locals.take more, front, back, ?_, rfl,
    ?_, ?_⟩
  · rw [List.take_add]
  · simpa only [List.drop_drop] using early
  · simp only [Context.declare, ← List.drop_drop, List.take_append_drop]
    exact late

theorem Lays.behind (comes : Comes first second []) (lays : Lays laying second third) :
    Lays laying first third := by
  obtain ⟨nesting, changes, added, code, adds, means⟩ := lays
  have whole := comes.adds.trans adds
  refine ⟨nesting.trans comes.nesting, comes.changes.trans changes, added, code, whole, fun context foretells => ?_⟩
  have same := means context foretells
  rwa [comes.adds.size] at same

theorem Lays.before (lays : Lays laying first second) (comes : Comes second third []) :
    Lays laying first third := by
  obtain ⟨nesting, changes, added, code, adds, means⟩ := lays
  have whole := adds.trans comes.adds
  rw [List.append_nil, Nat.zero_add] at whole
  exact ⟨comes.nesting.trans nesting, changes.trans comes.changes, added, code, whole, fun context foretells =>
    means context (comes.foretells foretells)⟩

theorem Lays.resting (lays : Lays laying first second) (resting : AtStatement first) :
    AtStatement second := by
  obtain ⟨_, _, _, _, adds, _⟩ := lays
  exact resting.grown adds.grows

theorem Lays.atTopLevel (lays : Lays laying first second) :
    second.draft.atTopLevel = first.draft.atTopLevel := by
  obtain ⟨_, _, _, _, adds, _⟩ := lays
  exact adds.grows.draft.atTopLevel

theorem Lays.changes (lays : Lays laying first second) : Changes first second :=
  lays.2.1

/-- Where statements stand, no local is waiting for its value. -/
theorem Builds.resting (builds : Builds form first second) (resting : AtStatement first) :
    AtStatement second :=
  resting.grown builds.grows

end Building

end ScriptMachine.Compiler
