import ScriptMachine.Proofs.Compiler.Steps
import ScriptMachine.Proofs.Heap.Retained
import ScriptMachine.Proofs.Twins.Machines

set_option autoImplicit false

/- Two compilations of one unit. They differ in the identifiers of the objects that they have made and in
what has been collected. -/
namespace ScriptMachine

namespace Heap

/-- All that the roots lead to is there. -/
def Stocked (heap : Heap) (roots : List ObjectId) : Prop :=
  ∀ id, Reaches heap.objects roots id → (heap.get? id).isSome

variable {heap after : Heap} {roots few : List ObjectId} {id : ObjectId} {object : Object}

theorem Stocked.mono (stocked : heap.Stocked roots) (fewer : ∀ id ∈ few, id ∈ roots) :
    heap.Stocked few :=
  fun id reached => stocked id (reached.mono fun root member => .root (fewer root member))

theorem Stocked.bounded (stocked : heap.Stocked roots) (tidy : heap.Tidy) : heap.Bounded roots := by
  intro id reached
  obtain ⟨object, here⟩ := Option.isSome_iff_exists.mp (stocked id reached)
  exact tidy.bounded here

theorem Stocked.retained (stocked : heap.Stocked roots) (retains : Retains roots heap after) :
    after.Stocked roots := by
  intro id reached
  have before := retains.reaches.mp reached
  rw [retains.kept id before]
  exact stocked id before

/-- An object that refers to roots becomes a root. -/
theorem Stocked.hold (stocked : heap.Stocked roots) (here : heap.get? id = some object)
    (inside : ∀ other ∈ object.references, other ∈ roots) : heap.Stocked (id :: roots) := by
  intro other reached
  have closed : other = id ∨ Reaches heap.objects roots other := by
    refine @Reaches.closed _ _ _ (fun other => other = id ∨ Reaches heap.objects roots other)
      (fun root member => ?_) (fun owner object among present next member => ?_) reached
    · exact (List.mem_cons.mp member).imp_right .root
    · rcases among with rfl | before
      · cases here.symm.trans present
        exact .inr (.root (inside next member))
      · exact .inr (before.next present member)
  rcases closed with rfl | before
  · rw [here]
    rfl
  · exact stocked other before

/-- A new object that refers to roots. -/
theorem Stocked.allocated (stocked : heap.Stocked roots) (tidy : heap.Tidy)
    (made : allocate (fun _ => roots) object heap = .ok id after)
    (inside : ∀ other ∈ object.references, other ∈ roots) : after.Stocked (id :: roots) := by
  have retains : Retains roots heap (stateLeft (allocate (fun _ => roots) object heap)) :=
    (Retains.refl _ _).allocate (stocked.bounded tidy) (fun _ member => member) object
  rw [made] at retains
  exact (stocked.retained retains).hold (get?_of_allocate made) inside

end Heap

namespace Compiler

variable {pairs more : Pairing} {left right : State} {held : List ObjectId}

section Drafts

/-- The same function, written so far alike. -/
structure Draft.Twin (pairs : Pairing) (left right : Draft) : Prop where
  id : pairs left.id right.id
  body : left.body.Twin pairs right.body
  rest : right = { left with id := right.id, body := right.body }

variable {draft draft' : Draft}

theorem Draft.Twin.mono (larger : pairs ≤ more) (twin : draft.Twin pairs draft') :
    draft.Twin more draft' :=
  ⟨larger _ _ twin.id, twin.body.mono larger, twin.rest⟩

theorem Draft.Twin.kind (twin : draft.Twin pairs draft') : draft'.kind = draft.kind := by
  rw [twin.rest]

theorem Draft.Twin.name (twin : draft.Twin pairs draft') : draft'.name = draft.name := by
  rw [twin.rest]

theorem Draft.Twin.locals (twin : draft.Twin pairs draft') : draft'.locals = draft.locals := by
  rw [twin.rest]

theorem Draft.Twin.scopeDepth (twin : draft.Twin pairs draft') :
    draft'.scopeDepth = draft.scopeDepth := by
  rw [twin.rest]

theorem Draft.Twin.branchDepth (twin : draft.Twin pairs draft') :
    draft'.branchDepth = draft.branchDepth := by
  rw [twin.rest]

/-- A change of the code that does not look at name or constants. -/
theorem Draft.Twin.withBody {body body' : Prototype} (twin : draft.Twin pairs draft')
    (same : body.Twin pairs body') :
    ({ draft with body } : Draft).Twin pairs { draft' with body := body' } := by
  refine ⟨twin.id, same, ?_⟩
  rw [twin.rest]

/-- A change that looks at neither the object nor the code of a draft. -/
theorem Draft.Twin.change {change : Draft → Draft} (twin : draft.Twin pairs draft')
    (same : ∀ draft id body, change { draft with id, body } = { change draft with id, body }) :
    (change draft).Twin pairs (change draft') := by
  have ours := same draft draft.id draft.body
  have theirs := same draft draft'.id draft'.body
  rw [← twin.rest] at theirs
  rw [theirs]
  refine ⟨?_, ?_, rfl⟩
  · rw [ours]
    exact twin.id
  · rw [ours]
    exact twin.body

end Drafts

section States

/-- A method that waits for the end of the unit on both sides. -/
structure StagedMethod.Twin (pairs : Pairing) (left right : StagedMethod) : Prop where
  struct : right.struct = left.struct
  name : right.name = left.name
  method : left.method.Twin pairs right.method

structure Staged.Twin (pairs : Pairing) (left right : Staged) : Prop where
  methods : List.Forall₂ (StagedMethod.Twin pairs) left.methods right.methods
  bare : ∀ type ∈ left.structs, type.methods = []
  rest : right = { left with methods := right.methods }

/-- Compilations at the same place, which have found out and written the same. -/
structure State.Twin (pairs : Pairing) (left right : State) : Prop where
  heap : Heap.Twin pairs left.heap right.heap
  registry : left.registry.Twin pairs right.registry
  draft : left.draft.Twin pairs right.draft
  enclosing : List.Forall₂ (Draft.Twin pairs) left.enclosing right.enclosing
  staged : left.staged.Twin pairs right.staged
  cursor : right.cursor = left.cursor
  panicking : right.panicking = left.panicking
  diagnostics : right.diagnostics = left.diagnostics
  globals : right.globals = left.globals
  implType : right.implType = left.implType

theorem StagedMethod.Twin.mono {staged staged' : StagedMethod} (larger : pairs ≤ more)
    (twin : staged.Twin pairs staged') : staged.Twin more staged' :=
  ⟨twin.struct, twin.name, twin.method.trait, larger _ _ twin.method.closure⟩

theorem Staged.Twin.mono {staged staged' : Staged} (larger : pairs ≤ more)
    (twin : staged.Twin pairs staged') : staged.Twin more staged' :=
  ⟨twin.methods.imp fun _ _ => StagedMethod.Twin.mono larger, twin.bare, twin.rest⟩

theorem State.Twin.withHeap {heap heap' : Heap} (twin : State.Twin pairs left right)
    (goes : Heap.Goes pairs left.heap right.heap more heap heap') :
    State.Twin more { left with heap } { right with heap := heap' } :=
  { twin with
    heap := goes.twin
    registry := twin.registry.mono goes.larger
    draft := twin.draft.mono goes.larger
    enclosing := twin.enclosing.imp fun _ _ => Draft.Twin.mono goes.larger
    staged := twin.staged.mono goes.larger }

end States

section Lookups

variable {staged staged' : Staged}

theorem Staged.Twin.structs (twin : staged.Twin pairs staged') : staged'.structs = staged.structs := by
  rw [twin.rest]

theorem Staged.Twin.traits (twin : staged.Twin pairs staged') : staged'.traits = staged.traits := by
  rw [twin.rest]

theorem Staged.Twin.impls (twin : staged.Twin pairs staged') : staged'.impls = staged.impls := by
  rw [twin.rest]

theorem State.Twin.nextId (twin : State.Twin pairs left right) :
    right.registry.nextId = left.registry.nextId :=
  twin.registry.structs.size.symm

theorem findIdx?_across {α β : Type} {relation : α → β → Prop} {ours : Array α} {theirs : Array β}
    (across : Across relation ours theirs) {here : α → Bool} {there : β → Bool}
    (agree : ∀ a ∈ ours, ∀ b ∈ theirs, relation a b → there b = here a) :
    theirs.findIdx? there = ours.findIdx? here := by
  have same : theirs.map there = ours.map here := by
    refine Array.ext_getElem? fun index => ?_
    rw [Array.getElem?_map, Array.getElem?_map]
    cases isOurs : ours[index]? with
    | none => rw [across.at_none isOurs]; rfl
    | some a =>
      obtain ⟨b, isTheirs, related⟩ := across.at isOurs
      rw [isTheirs, Option.map_some, Option.map_some,
        agree a (Array.mem_of_getElem? isOurs) b (Array.mem_of_getElem? isTheirs) related]
  have mapped : ∀ {γ : Type} (list : Array γ) (test : γ → Bool),
      list.findIdx? test = (list.map test).findIdx? id := fun list test => by
    rw [Array.findIdx?_map]
    rfl
  rw [mapped theirs, mapped ours, same]

theorem State.Twin.findStruct (twin : State.Twin pairs left right) (name : Text) :
    right.findStruct name = left.findStruct name := by
  have registered : right.registry.findStruct name = left.registry.findStruct name :=
    findIdx?_across twin.registry.structs fun _ _ _ _ same => by rw [same.name]
  simp only [State.findStruct, registered, twin.staged.structs, twin.nextId]

theorem State.Twin.findTrait (twin : State.Twin pairs left right) (name : Text) :
    right.findTrait name = left.findTrait name := by
  simp only [State.findTrait, Registry.findTrait, twin.registry.traits, twin.staged.traits]

theorem State.Twin.struct? (twin : State.Twin pairs left right) (id : StructId) :
    Option.Rel (StructType.Twin pairs) (left.struct? id) (right.struct? id) := by
  have registered := twin.registry.struct? id
  simp only [State.struct?, twin.staged.structs, twin.nextId]
  generalize left.registry.struct? id = one at registered
  generalize right.registry.struct? id = other at registered
  cases registered with
  | some same => exact .some same
  | none =>
    simp only [Option.orElse_eq_orElse, Option.orElse_eq_or, Option.none_or]
    cases here : left.staged.structs[id - left.registry.nextId]? with
    | none => exact .none
    | some type =>
      refine .some ⟨rfl, rfl, rfl, ?_⟩
      rw [twin.staged.bare type (Array.mem_of_getElem? here)]
      exact .nil

theorem State.Twin.structName (twin : State.Twin pairs left right) (id : StructId) :
    (right.struct? id).map StructType.name = (left.struct? id).map StructType.name := by
  have same := twin.struct? id
  generalize left.struct? id = one at same
  generalize right.struct? id = other at same
  cases same with
  | none => rfl
  | some same => rw [Option.map_some, Option.map_some, same.name]

theorem State.Twin.implements (twin : State.Twin pairs left right) (struct : StructId) (trait : Text) :
    right.implements struct trait = left.implements struct trait := by
  have same := twin.struct? struct
  simp only [State.implements, twin.staged.impls]
  generalize left.struct? struct = one at same
  generalize right.struct? struct = other at same
  cases same with
  | none => rfl
  | some same => simp only [Option.any_some, StructType.implements, same.traits]

theorem State.Twin.findMethod (twin : State.Twin pairs left right) (struct : StructId) (name : Text) :
    Option.Rel (Method.Twin pairs) (left.findMethod struct name) (right.findMethod struct name) := by
  have registered : Option.Rel (Method.Twin pairs)
      ((left.struct? struct).bind fun type => type.findMethod name)
      ((right.struct? struct).bind fun type => type.findMethod name) := by
    have same := twin.struct? struct
    generalize left.struct? struct = one at same
    generalize right.struct? struct = other at same
    cases same with
    | none => exact .none
    | some same => exact same.findMethod name
  have staged : Option.Rel (Method.Twin pairs)
      ((left.staged.methods.find? fun staged => staged.struct == struct && staged.name == name).map
        StagedMethod.method)
      ((right.staged.methods.find? fun staged => staged.struct == struct && staged.name == name).map
        StagedMethod.method) := by
    have methods := twin.staged.methods
    generalize left.staged.methods = ours at methods
    generalize right.staged.methods = theirs at methods
    induction methods with
    | nil => exact .none
    | cons same _ ih =>
      simp only [List.find?_cons, same.struct, same.name]
      split
      · exact .some same.method
      · exact ih
  simp only [State.findMethod]
  generalize ((left.struct? struct).bind fun type => type.findMethod name) = one at registered
  generalize ((right.struct? struct).bind fun type => type.findMethod name) = other at registered
  cases registered with
  | some same => exact .some same
  | none => exact staged

end Lookups

section Presence

/-- All that the compilation has in use is there, and so is all that `held` leads to. -/
structure Backed (held : List ObjectId) (state : State) : Prop where
  stocked : state.heap.Stocked (held ++ state.roots)
  registered : ∀ id ∈ state.registry.roots, id ∈ state.outside
  functions : ∀ draft ∈ state.drafts, ∃ body, state.heap.get? draft.id = some (.function body)

variable {state after : State} {id : ObjectId} {object : Object} {heap : Heap}

/-- Objects have been allocated, and maybe collected. -/
theorem Backed.retained (backed : Backed held state)
    (retains : Heap.Retains (held ++ state.roots) state.heap heap) :
    Backed held { state with heap } where
  stocked := backed.stocked.retained retains
  registered := backed.registered
  functions draft member := by
    obtain ⟨body, here⟩ := backed.functions draft member
    exact ⟨body, (retains.kept _ (.root (List.mem_append_right _ (mem_roots_of_draft member)))).trans here⟩

/-- An object is held that refers to what is there. -/
theorem Backed.hold (backed : Backed held state) (here : state.heap.get? id = some object)
    (inside : ∀ other ∈ object.references, other ∈ held ++ state.roots) :
    Backed (id :: held) state :=
  ⟨backed.stocked.hold here inside, backed.registered, backed.functions⟩

/-- The compilation goes on with some of what it has in use. -/
theorem Backed.reroot {kept : List ObjectId} (backed : Backed held state) (heap : after.heap = state.heap)
    (registry : after.registry = state.registry) (outside : after.outside = state.outside)
    (fewer : ∀ id ∈ kept ++ after.roots, id ∈ held ++ state.roots)
    (functions : ∀ draft ∈ after.drafts, ∃ body, state.heap.get? draft.id = some (.function body)) :
    Backed kept after where
  stocked := by
    rw [heap]
    exact backed.stocked.mono fewer
  registered := by
    rw [registry, outside]
    exact backed.registered
  functions := by
    rw [heap]
    exact functions

theorem Backed.drop (backed : Backed (id :: held) state) : Backed held state :=
  backed.reroot rfl rfl rfl (fun _ member => List.mem_cons_of_mem _ member) backed.functions

end Presence

end Compiler

end ScriptMachine
