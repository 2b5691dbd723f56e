import ScriptMachine.Proofs.Compiler.Declarations

set_option autoImplicit false
set_option synthInstance.maxSize 20000

/- Compiled units. All that a unit consists of, its script, the functions in it and the methods that
it registers, is well formed where the unit leaves it. -/
namespace ScriptMachine

namespace Registry

variable {first second : Registry} {id : StructId}

/-- Every struct is kept, with its fields; of its methods, all but some given ones are old. -/
structure Extends (staged : List Compiler.StagedMethod) (before after : Registry) : Prop where
  kept : ∀ {id : StructId} {type : StructType}, before.struct? id = some type →
    ∃ known, after.struct? id = some known ∧ known.fields = type.fields
  methods : ∀ {id : StructId} {type : StructType}, after.struct? id = some type →
    ∀ entry ∈ type.methods, (∃ old, before.struct? id = some old ∧ entry ∈ old.methods) ∨
      ∃ method ∈ staged, method.method = entry.2

variable {staged : List Compiler.StagedMethod} {third : Registry}

theorem Extends.refl (registry : Registry) : Extends staged registry registry where
  kept known := ⟨_, known, rfl⟩
  methods known _ member := Or.inl ⟨_, known, member⟩

theorem Extends.trans (one : Extends staged first second) (two : Extends staged second third) :
    Extends staged first third where
  kept known := by
    obtain ⟨middle, isMiddle, same⟩ := one.kept known
    obtain ⟨last, isLast, same'⟩ := two.kept isMiddle
    exact ⟨last, isLast, same'.trans same⟩
  methods known entry member := by
    rcases two.methods known entry member with ⟨middle, isMiddle, inside⟩ | isNew
    · exact one.methods isMiddle entry inside
    · exact Or.inr isNew

/-- A struct may be changed, but not in its fields. -/
theorem extends_modify (registry : Registry) (id : StructId) {change : StructType → StructType}
    (fields : ∀ type, (change type).fields = type.fields)
    (methods : ∀ type, ∀ entry ∈ (change type).methods, entry ∈ type.methods ∨
      ∃ method ∈ staged, method.method = entry.2) :
    Extends staged registry { registry with structs := registry.structs.modify id change } := by
  have found : ∀ other, struct? { registry with structs := registry.structs.modify id change } other
      = if id = other then (registry.struct? other).map change else registry.struct? other :=
    fun other => Array.getElem?_modify
  constructor
  · intro other type known
    rw [found, known]
    split
    · exact ⟨change type, rfl, fields type⟩
    · exact ⟨type, rfl, rfl⟩
  · intro other type known entry member
    rw [found] at known
    split at known
    · obtain ⟨old, isOld, rfl⟩ := Option.map_eq_some_iff.mp known
      exact (methods old entry member).imp_left fun inside => ⟨old, isOld, inside⟩
    · exact Or.inl ⟨type, known, member⟩

theorem extends_implement (registry : Registry) (id : StructId) (trait : Text) :
    Extends staged registry (registry.implement id trait) := by
  refine registry.extends_modify id (fun type => ?_) fun type entry member => Or.inl ?_
  · unfold StructType.addTrait
    split <;> rfl
  · unfold StructType.addTrait at member
    split at member <;> exact member

theorem extends_addMethod (registry : Registry) {method : Compiler.StagedMethod}
    (isStaged : method ∈ staged) :
    Extends staged registry (registry.addMethod method.struct method.name method.method) := by
  refine registry.extends_modify method.struct (fun type => ?_) fun type entry member => ?_
  · simp only [StructType.addMethod, StructType.addTrait]
    split <;> rfl
  · rcases List.mem_append.mp member with old | new
    · exact Or.inl (List.mem_of_mem_filter old)
    · exact Or.inr ⟨method, isStaged, by rw [List.mem_singleton.mp new]⟩

/-- Structs are registered in order, behind those that are there. -/
theorem structs_of_addStructs {types : List StructType} {registry after : Registry}
    (added : types.foldlM (fun registry type => registry.addStruct registry.nextId type) registry
      = .ok after) : after.structs = registry.structs ++ types.toArray := by
  induction types generalizing registry with
  | nil =>
    cases added
    simp
  | cons type types ih =>
    rw [List.foldlM_cons] at added
    cases first : registry.addStruct registry.nextId type with
    | error failure =>
      rw [first] at added
      cases added
    | ok middle =>
      rw [first] at added
      have pushed : middle.structs = registry.structs.push type := by
        unfold addStruct at first
        split at first
        · cases first
        split at first
        · cases first
        cases first
        rfl
      rw [ih added, pushed]
      simp

theorem structs_of_addTraits {traits : List TraitType} {registry after : Registry}
    (added : traits.foldlM addTrait registry = .ok after) : after.structs = registry.structs := by
  induction traits generalizing registry with
  | nil =>
    cases added
    rfl
  | cons trait traits ih =>
    rw [List.foldlM_cons] at added
    cases first : registry.addTrait trait with
    | error failure =>
      rw [first] at added
      cases added
    | ok middle =>
      rw [first] at added
      unfold addTrait at first
      split at first
      · cases first
      cases first
      have rest := ih added
      exact rest

theorem extends_implementAll (impls : List (StructId × Text)) (registry : Registry) :
    Extends staged registry
      (impls.foldl (fun registry (struct, trait) => registry.implement struct trait) registry) := by
  induction impls generalizing registry with
  | nil => exact .refl registry
  | cons impl impls ih => exact (registry.extends_implement impl.1 impl.2).trans (ih _)

theorem extends_addMethods {methods : List Compiler.StagedMethod}
    (inside : ∀ method ∈ methods, method ∈ staged) (registry : Registry) :
    Extends staged registry (methods.foldl
      (fun registry staged => registry.addMethod staged.struct staged.name staged.method)
      registry) := by
  induction methods generalizing registry with
  | nil => exact .refl registry
  | cons method methods ih =>
    have here := registry.extends_addMethod (inside method List.mem_cons_self)
    exact here.trans (ih (fun other member => inside other (List.mem_cons_of_mem _ member)) _)

end Registry

namespace Compiler

open Prototype (Setting Note Settles Sound Marked)

section Committing

variable {state : State} {registry : Registry}

/-- Behind the structs of a registry come those of the unit. -/
theorem State.committed_extends (committed : state.committed = .ok registry) :
    ∃ middle : Registry, middle.structs = state.registry.structs ++ state.staged.structs ∧
      middle.Extends state.staged.methods registry := by
  unfold State.committed at committed
  rw [← Array.foldlM_toList] at committed
  cases structs : state.staged.structs.toList.foldlM
      (fun registry type => registry.addStruct registry.nextId type) state.registry with
  | error failure =>
    rw [structs] at committed
    cases committed
  | ok first =>
    rw [structs] at committed
    cases traits : state.staged.traits.foldlM Registry.addTrait first with
    | error failure =>
      simp only [bind, Except.bind, traits] at committed
      cases committed
    | ok second =>
      simp only [bind, Except.bind, traits] at committed
      cases committed
      refine ⟨second, ?_, ?_⟩
      · rw [Registry.structs_of_addTraits traits, Registry.structs_of_addStructs structs]
      · exact (second.extends_implementAll _).trans
          (Registry.extends_addMethods (fun _ member => member) _)

/-- The structs that the unit has seen are registered. -/
theorem knows_committed (committed : state.committed = .ok registry) : Knows registry state := by
  obtain ⟨middle, structs, extended⟩ := state.committed_extends committed
  intro id type known
  refine extended.kept ?_
  rw [Registry.struct?, structs, Array.getElem?_append]
  unfold State.struct? Registry.nextId at known
  cases old : state.registry.struct? id with
  | some found =>
    rw [old] at known
    rw [if_pos (Array.getElem?_eq_some_iff.mp old).1]
    exact old.trans known
  | none =>
    rw [old] at known
    rw [if_neg (Nat.not_lt.mpr (Array.getElem?_eq_none_iff.mp old))]
    exact known

/-- A method that is registered was so before the unit, or has been staged by it. -/
theorem method_of_committed (orderly : Orderly state) (committed : state.committed = .ok registry)
    {id : StructId} {type : StructType} (known : registry.struct? id = some type)
    {entry : Text × Method} (member : entry ∈ type.methods) :
    (∃ old, state.registry.struct? id = some old ∧ entry ∈ old.methods) ∨
      ∃ staged ∈ state.staged.methods, staged.method = entry.2 := by
  obtain ⟨middle, structs, extended⟩ := state.committed_extends committed
  refine (extended.methods known entry member).imp_left fun ⟨old, found, inside⟩ => ?_
  rw [Registry.struct?, structs, Array.getElem?_append] at found
  split at found
  · exact ⟨old, found, inside⟩
  · -- structs are staged without methods
    rw [orderly.bare old (Array.mem_of_getElem? found)] at inside
    cases inside

end Committing

section Nesting

/-- Productions of any depth behave. -/
theorem behavesAt (depth bound : Nat) :
    Grammar.Behaves ⟨bound, operandAt depth, statementAt depth, declarationAt depth⟩ := by
  induction depth generalizing bound with
  | zero =>
    refine ⟨fun _ _ => ?_, fun _ _ => ?_, fun _ _ => ?_⟩
    all_goals
      simp only [operandAt, statementAt, declarationAt]
      exact does_throw
  | succ depth ih =>
    have operands : ∀ origin level, Keeps (Changes origin) (operandAt depth level) :=
      fun _ => (keeps_grammar depth).1
    have statements : ∀ origin, Keeps (Changes origin) (statementAt depth) :=
      fun _ => (keeps_grammar depth).2.1
    have declarations : ∀ origin, Keeps (Changes origin) (declarationAt depth) :=
      fun _ => (keeps_grammar depth).2.2
    refine ⟨fun level orderly => ?_, fun orderly resting => ?_, fun orderly resting => ?_⟩
    · simp only [operandAt]
      exact does_parseOperand (ih depth) level orderly
    · simp only [statementAt]
      exact does_parseStatement (ih depth) orderly resting
    · simp only [declarationAt]
      exact does_parseDeclaration (ih depth) orderly resting

end Nesting

section Units

variable {heap : Heap} {registry : Registry} {outside : List ObjectId} {tokens : List Token}
  {state : State} {id : ObjectId}

theorem Cursor.ends_start (tokens : List Token) : (Cursor.start tokens).Ends := by
  have closed : ∃ between last, closed tokens = between ++ [last] ∧ last.kind = .finish := by
    unfold Cursor.closed
    split
    · exact ⟨[], _, rfl, rfl⟩
    · next last isLast =>
      split
      · next isFinish =>
        obtain ⟨between, rfl⟩ := List.getLast?_eq_some_iff.mp isLast
        exact ⟨between, last, rfl, by simpa using isFinish⟩
      · exact ⟨tokens, _, rfl, rfl⟩
  obtain ⟨between, last, whole, isFinish⟩ := closed
  unfold Cursor.start Cursor.Ends
  rw [whole]
  cases between with
  | nil => exact ⟨[], last, rfl, isFinish⟩
  | cons first between => exact ⟨first :: between, last, rfl, isFinish⟩

/-- A compilation at its beginning. -/
def State.begun (heap : Heap) (registry : Registry) (outside : List ObjectId) (tokens : List Token)
    (id : ObjectId) : State :=
  let callee : Variable := { name := [], depth := some 0 }
  let draft : Draft :=
    { id, kind := .script, name := ascii "script", body := {}, locals := [callee] }
  { heap, registry, outside, cursor := .start tokens, draft }

theorem orderly_begun (tidy : heap.Tidy) (placeholder : heap.get? id = some (.function {})) :
    Orderly (.begun heap registry outside tokens id) := by
  have nothing : ∀ other, ¬ Heap.Reaches heap.objects [] other := by
    intro other reached
    obtain ⟨root, member, _⟩ := reached.single
    cases member
  refine
    { calm := ⟨fun panicking => (by cases panicking), Cursor.ends_start tokens⟩
      tidy
      drafts := fun draft member => ?_
      distinct := by simp [State.drafts, State.begun]
      present := fun other reached => absurd reached (nothing other)
      apart := fun draft _ reached => nothing _ reached
      each := fun draft member => ?_
      captures := rfl
      bare := fun type member => by simp [State.begun] at member
      methods := fun staged member => by cases member }
  · rw [List.mem_singleton.mp member]
    exact placeholder
  · rw [List.mem_singleton.mp member]
    refine ⟨rfl, by simp [State.begun], fun index other here => ?_, fun other here => ?_,
      ⟨_, List.mem_cons_self, rfl⟩, fun _ found inside _ => ?_⟩
    · simp [State.begun] at here
    · cases here
    · rw [List.mem_singleton.mp inside]

theorem atStatement_begun : AtStatement (.begun heap registry outside tokens id) where
  locals found member := by
    rw [List.mem_singleton.mp member]
    exact ⟨0, Nat.zero_le _, rfl⟩
  inside other := absurd rfl other

/-- A unit is one run through its declarations, with a return behind it. -/
theorem does_unit (depth : Nat) (orderly : Orderly state) (resting : AtStatement state) :
    Does (unit depth) state fun _ last => ∃ added middle, Runs added state middle ∧
      Adds 0 middle last [⟨.nil, 0, 0⟩, ⟨.return, 0, 0⟩] := by
  have declarations : ∀ origin, Keeps (Changes origin) (declarationAt depth) :=
    fun _ => (keeps_grammar depth).2.2
  let runs : Unit → State → Prop := fun _ last => ∃ added, Runs added state last
  unfold unit
  refine does_bind (does_idle orderly fun _ first settled => ?_)
  refine does_seq runs (does_iterate runs (fun _ middle holds => ?_) depth () ?_)
    fun _ middle holds => ?_
  · obtain ⟨added, runs⟩ := holds
    refine does_bind (does_idle runs.orderly fun ends second passed => ?_)
    have idle := runs.trans (passed.nothing 0).runs
    refine does_ite (fun _ => does_pure ⟨_, idle⟩) fun _ => ?_
    refine does_bind (((behavesAt depth depth).declaration idle.orderly
      (resting.grown idle.grows)).mono ?_)
    rintro _ last ⟨declared, runs⟩
    exact does_pure ⟨_, idle.trans runs⟩
  · exact ⟨_, (settled.nothing 0).runs⟩
  · obtain ⟨added, runs⟩ := holds
    exact does_emitReturnNil runs.orderly fun last ends => ⟨added, middle, runs, ends⟩

/-- A unit that has been run through to its end without a diagnostic, so that its draft is the
script. -/
structure Ends (registry : Registry) (tokens : List Token) (state : State) : Prop where
  orderly : Orderly state
  registered : state.registry = registry
  sound : ∀ (setting : Setting) (flags : List Bool), setting.body = state.draft.body →
    Foresees setting flags state → Sound setting.heap setting.registry setting.body
  captures : state.draft.body.captures = #[]
  tables : (registry.structs.toList.map StructType.name).Nodup →
    (registry.traits.map TraitType.name).Nodup → (Cursor.start tokens).Worded →
    state.staged.Coherent state.heap state.registry none

/-- Before its first declaration, the tables of a unit are those that are registered. -/
theorem tabled_begun (structs : (registry.structs.toList.map StructType.name).Nodup)
    (traits : (registry.traits.map TraitType.name).Nodup) :
    State.Tabled (.begun heap registry outside tokens id) := fun _ =>
  { structs := by simpa [State.begun] using structs
    fields := fun type member => by simp [State.begun] at member
    bare := fun type member => by simp [State.begun] at member
    traits := by simpa [State.begun] using traits
    signatures := fun trait member => by cases member
    asked := fun method member => by cases member
    separate := .nil
    fresh := fun method member => by cases member
    implemented := fun impl member => by cases member
    complete := fun method member => by cases member }

/-- No token is lost. -/
theorem worded_of_changes {before after : State} (changes : Changes before after) :
    after.cursor.Worded ↔ before.cursor.Worded := by
  induction changes with
  | refl => rfl
  | tail _ last ih =>
    rw [← ih]
    cases last with
    | move => exact Cursor.worded_moved _
    | settle => exact Cursor.worded_settled _
    | _ => rfl

theorem ends_unit {depth : Nat} (tidy : heap.Tidy) (placeholder : heap.get? id = some (.function {}))
    (ran : unit depth (.begun heap registry outside tokens id) = .ok () state)
    (quiet : Quiet state) : Ends registry tokens state := by
  obtain ⟨added, middle, runs, last⟩ :=
    does_unit depth (orderly_begun tidy placeholder) atStatement_begun () state ran quiet
  have grows := runs.grows.trans last.grows
  have outermost : state.enclosing = [] := List.forall₂_nil_left_iff.mp grows.enclosing
  refine ⟨last.orderly, grows.registry, fun setting flags same foresees => ?_, ?_,
    fun structs traits worded => ?_⟩
  · exact sound_of_runs atStatement_begun rfl rfl runs last same foresees
  · have chained := last.orderly.captures
    rwa [State.drafts, outermost] at chained
  · have tabled : state.Tabled := (runs.stages.trans runs.grows last.stages).tabled
      (tabled_begun structs traits)
    exact tabled ((worded_of_changes (changes_of_ran ran)).mpr worded)

/-- What has become of a unit that compiles: its declarations are registered, and its draft is the
script. -/
structure Completes (registry : Registry) (tokens : List Token) (state : State) (heap : Heap)
    (compiled : Compiled) : Prop extends Ends registry tokens state where
  committed : state.committed = .ok compiled.registry
  script : compiled.script = state.draft.id
  heap : heap = (state.returned state.draft []).heap

/-- A unit that compiles has been run through to its end. -/
theorem unit_of_compile {after : Heap} {compiled : Compiled} (tidy : heap.Tidy)
    (ran : compile heap registry outside tokens = (after, .ok compiled)) :
    ∃ start id state, start.Tidy ∧ start.get? id = some (.function {}) ∧
      unit (depthFor tokens.length) (.begun start registry outside tokens id) = .ok () state ∧
      finish state = (after, .ok compiled) := by
  unfold compile at ran
  split at ran
  · cases ran
  next id start allocated =>
  obtain ⟨isTidy, placeholder⟩ : start.Tidy ∧ start.get? id = some (.function {}) := by
    rw [Heap.newFunction, Heap.allocate_eq] at allocated
    dsimp only at allocated
    split at allocated
    · cases allocated
    · cases allocated
      exact ⟨(tidy.prepared _ _).link (by simp), Heap.get?_link_self _ _⟩
  dsimp only at ran
  split at ran
  · next state isRun => exact ⟨start, id, state, isTidy, placeholder, isRun, ran⟩
  · cases ran
  · cases ran

/-- A unit that has been run through to its end without a diagnostic completes. -/
theorem completes_of_run {after : Heap} {compiled : Compiled} {depth : Nat} (tidy : heap.Tidy)
    (placeholder : heap.get? id = some (.function {}))
    (ran : unit depth (.begun heap registry outside tokens id) = .ok () state)
    (finished : finish state = (after, .ok compiled)) :
    Quiet state ∧ Completes registry tokens state after compiled := by
  unfold finish at finished
  split at finished
  · next quiet =>
    split at finished
    · next committed =>
      cases finished
      have quiet := Array.isEmpty_iff.mp quiet
      exact ⟨quiet, ends_unit tidy placeholder ran quiet, committed, rfl, rfl⟩
    · cases finished
  · cases finished

theorem completes_compile {after : Heap} {compiled : Compiled} (tidy : heap.Tidy)
    (ran : compile heap registry outside tokens = (after, .ok compiled)) :
    ∃ state, Completes registry tokens state after compiled := by
  obtain ⟨start, id, state, isTidy, placeholder, isRun, finished⟩ := unit_of_compile tidy ran
  exact ⟨state, (completes_of_run isTidy placeholder isRun finished).2⟩

end Units

/-- A method that one registry has and an earlier one has not. -/
def Registers (before after : Registry) (method : Method) : Prop :=
  ∃ id type name, after.struct? id = some type ∧ (name, method) ∈ type.methods ∧
    ∀ old, before.struct? id = some old → (name, method) ∉ old.methods

/-- The prototypes of a unit: that of its script, those of the methods that it registers, and those
of the functions among their constants. -/
inductive Compiled.Part (compiled : Compiled) (heap : Heap) (before : Registry) : ObjectId → Prop where
  | script : Part compiled heap before compiled.script
  | method {method : Method} {prototype : ObjectId} {upvalues : Array (Option ObjectId)} :
      Registers before compiled.registry method →
      heap.get? method.closure = some (.closure prototype upvalues) →
      Part compiled heap before prototype
  | nested {id inner : ObjectId} {body : Prototype} {index : Nat} : Part compiled heap before id →
      heap.prototype? id = some body → body.constants[index]? = some (.ref inner) →
      (heap.prototype? inner).isSome = true → Part compiled heap before inner

section Parts

variable {heap after : Heap} {registry : Registry} {outside : List ObjectId} {tokens : List Token}
  {compiled : Compiled} {state : State}

theorem Completes.knows (completes : Completes registry tokens state after compiled) :
    Knows compiled.registry (state.returned state.draft []) :=
  knows_committed completes.committed

theorem Completes.script_sound (completes : Completes registry tokens state after compiled) :
    ∃ body, after.get? compiled.script = some (.function body) ∧
      Sound after compiled.registry body := by
  have finished : Finished (state.returned state.draft []) state.draft.id state.draft.body :=
    completes.orderly.returned_finished completes.sound
  rw [completes.script, completes.heap]
  exact ⟨_, finished.1, finished.2 _ _ (fun _ _ => rfl) completes.knows⟩

/-- A new method is a closure over a sound prototype. -/
theorem Completes.method_sound (completes : Completes registry tokens state after compiled) {method : Method}
    (registers : Registers registry compiled.registry method) :
    ∃ prototype upvalues body, after.get? method.closure = some (.closure prototype upvalues) ∧
      after.get? prototype = some (.function body) ∧ Sound after compiled.registry body := by
  obtain ⟨id, type, name, known, member, new⟩ := registers
  rcases method_of_committed completes.orderly completes.committed known member with
    ⟨old, isOld, inside⟩ | ⟨staged, isStaged, same⟩
  · exact absurd inside (new old (completes.registered ▸ isOld))
  · cases same
    obtain ⟨prototype, upvalues, body, closure, finished⟩ : ∃ prototype upvalues body,
        (state.returned state.draft []).heap.get? staged.method.closure
          = some (.closure prototype upvalues) ∧
        Finished (state.returned state.draft []) prototype body :=
      completes.orderly.returned_method isStaged
    rw [completes.heap]
    exact ⟨prototype, upvalues, body, closure, finished.1,
      finished.2 _ _ (fun _ _ => rfl) completes.knows⟩

theorem Completes.part_sound (completes : Completes registry tokens state after compiled) {id : ObjectId}
    (part : compiled.Part after registry id) :
    ∃ body, after.get? id = some (.function body) ∧ Sound after compiled.registry body := by
  induction part with
  | script => exact completes.script_sound
  | method registers closure =>
    obtain ⟨prototype, upvalues, body, here, found, sound⟩ := completes.method_sound registers
    cases closure.symm.trans here
    exact ⟨body, found, sound⟩
  | nested _ isBody constant isFunction ih =>
    obtain ⟨body, found, sound⟩ := ih
    rw [Heap.prototype?, found] at isBody
    cases isBody
    obtain ⟨_, _, _, sounds⟩ := sound
    obtain ⟨inner, isInner⟩ := Option.isSome_iff_exists.mp isFunction
    rw [Heap.prototype?] at isInner
    split at isInner
    · next present => exact ⟨_, present, sounds (Prototype.mem_references constant) present⟩
    · cases isInner

/-- The compiler emits well-formed bytecode only: when a unit compiles, every prototype of it is
there and well formed, with the structs of the unit registered. -/
theorem compile_wellFormed (tidy : heap.Tidy)
    (ran : compile heap registry outside tokens = (after, .ok compiled)) :
    (∀ method, Registers registry compiled.registry method →
      ∃ prototype upvalues, after.get? method.closure = some (.closure prototype upvalues)) ∧
    ∀ id, compiled.Part after registry id →
      ∃ body, after.prototype? id = some body ∧ body.WellFormed after compiled.registry := by
  obtain ⟨state, completes⟩ := completes_compile tidy ran
  refine ⟨fun method registers => ?_, fun id part => ?_⟩
  · obtain ⟨prototype, upvalues, _, here, _⟩ := completes.method_sound registers
    exact ⟨prototype, upvalues, here⟩
  · obtain ⟨body, found, formed, _⟩ := completes.part_sound part
    exact ⟨body, by rw [Heap.prototype?, found], formed⟩

/-- The tokens of a unit that prints nil. -/
def printingNil : List Token :=
  [⟨.printWord, ascii "print", 1, 1⟩, ⟨.nilWord, ascii "nil", 1, 7⟩, ⟨.semicolon, ascii ";", 1, 10⟩]

theorem compile_wellFormed_printingNil : ∃ after compiled,
    compile (.empty {}) {} [] printingNil = (after, .ok compiled) ∧
      ∃ body, after.prototype? compiled.script = some body ∧
        body.WellFormed after compiled.registry := by
  have compiles : (compile (.empty {}) {} [] printingNil).2.isOk = true := by decide +kernel
  cases ran : compile (.empty {}) {} [] printingNil with
  | mk after result =>
    rw [ran] at compiles
    cases result with
    | error failure => cases compiles
    | ok compiled => exact ⟨after, compiled, rfl, (compile_wellFormed (.empty {}) ran).2 _ .script⟩

end Parts

end Compiler

end ScriptMachine
