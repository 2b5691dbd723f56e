import ScriptMachine.Compiler.Lookup
import ScriptMachine.Proofs.Registry.Coherent

set_option autoImplicit false

/- The tables of a unit: its declarations next to those that are registered. What each declaration
checks before it is staged keeps the tables in order, and tables in order can be committed. Then the
registry answers every question as the unit has answered it while it was compiled. -/
namespace ScriptMachine

namespace StructType

variable {type : StructType} {trait : Text}

@[simp] theorem addTrait_name (type : StructType) (trait : Text) :
    (type.addTrait trait).name = type.name := by
  unfold addTrait
  split <;> rfl

@[simp] theorem addTrait_fields (type : StructType) (trait : Text) :
    (type.addTrait trait).fields = type.fields := by
  unfold addTrait
  split <;> rfl

@[simp] theorem addTrait_methods (type : StructType) (trait : Text) :
    (type.addTrait trait).methods = type.methods := by
  unfold addTrait
  split <;> rfl

theorem mem_addTrait {other : Text} :
    other ∈ (type.addTrait trait).traits ↔ other ∈ type.traits ∨ other = trait := by
  unfold addTrait
  split
  · next known =>
    have member : trait ∈ type.traits := by simpa [implements] using known
    exact ⟨Or.inl, fun either => either.elim id fun same => same ▸ member⟩
  · simp

/-- A struct with traits and methods added to it, as a commit adds them. -/
def extended (type : StructType) (traits : List Text) (methods : List Compiler.StagedMethod) :
    StructType :=
  methods.foldl (fun type staged => type.addMethod staged.name staged.method)
    (traits.foldl addTrait type)

theorem foldl_addTrait (traits : List Text) (type : StructType) :
    (traits.foldl addTrait type).name = type.name ∧
      (traits.foldl addTrait type).fields = type.fields ∧
      (traits.foldl addTrait type).methods = type.methods ∧
      ∀ trait, trait ∈ (traits.foldl addTrait type).traits ↔ trait ∈ type.traits ∨ trait ∈ traits := by
  induction traits generalizing type with
  | nil => simp
  | cons first rest ih =>
    obtain ⟨name, fields, methods, members⟩ := ih (type.addTrait first)
    refine ⟨by simpa using name, by simpa using fields, by simpa using methods, fun trait => ?_⟩
    rw [List.foldl_cons, members, mem_addTrait, List.mem_cons, or_assoc]

theorem foldl_addMethod (methods : List Compiler.StagedMethod) (type : StructType)
    (separate : methods.Pairwise fun one other => one.name ≠ other.name)
    (fresh : ∀ method ∈ methods, ∀ entry ∈ type.methods, entry.1 ≠ method.name) :
    let result := methods.foldl (fun type staged => type.addMethod staged.name staged.method) type
    result.name = type.name ∧ result.fields = type.fields ∧
      result.methods = type.methods ++ methods.map (fun staged => (staged.name, staged.method)) ∧
      ∀ trait, trait ∈ result.traits ↔
        trait ∈ type.traits ∨ ∃ staged ∈ methods, staged.method.trait = trait := by
  induction methods generalizing type with
  | nil => simp
  | cons first rest ih =>
    rw [List.pairwise_cons] at separate
    -- nothing is replaced
    have filed : (type.addMethod first.name first.method).methods
        = type.methods ++ [(first.name, first.method)] := by
      have others : type.methods.filter (fun entry => entry.1 != first.name) = type.methods := by
        rw [List.filter_eq_self]
        intro entry member
        simpa using fresh first List.mem_cons_self entry member
      simp only [addMethod, others]
    obtain ⟨name, fields, methods, members⟩ := ih (type.addMethod first.name first.method)
      separate.2 (by
        intro method member entry inside
        rw [filed, List.mem_append, List.mem_singleton] at inside
        rcases inside with old | rfl
        · exact fresh method (List.mem_cons_of_mem _ member) entry old
        · exact separate.1 method member)
    refine ⟨?_, ?_, ?_, fun trait => ?_⟩
    · rw [List.foldl_cons, name]
      exact addTrait_name _ _
    · rw [List.foldl_cons, fields]
      exact addTrait_fields _ _
    · rw [List.foldl_cons, methods, filed, List.append_assoc, List.map_cons]
      rfl
    · have same : (type.addMethod first.name first.method).traits
          = (type.addTrait first.method.trait).traits := rfl
      rw [List.foldl_cons, members, same, mem_addTrait, List.exists_mem_cons_iff, or_assoc, eq_comm]

end StructType

namespace Compiler

open StructType (extended)

/-- The declarations of a unit are in order, next to those that are registered. While an impl is being
compiled, its methods are there before the impl itself. -/
structure Staged.Coherent (heap : Heap) (registry : Registry) (pending : Option (StructId × Text))
    (staged : Staged) : Prop where
  structs : ((registry.structs ++ staged.structs).toList.map StructType.name).Nodup
  fields : ∀ type ∈ staged.structs, type.fields.Nodup
  bare : ∀ type ∈ staged.structs, type.methods = [] ∧ type.traits = []
  traits : ((registry.traits ++ staged.traits).map TraitType.name).Nodup
  signatures : ∀ trait ∈ staged.traits, (trait.methods.map Signature.name).Nodup
  asked : ∀ method ∈ staged.methods,
    method.method.Asked heap (registry.traits ++ staged.traits) method.name
  separate : staged.methods.Pairwise fun one other => one.struct = other.struct →
    one.name ≠ other.name
  fresh : ∀ method ∈ staged.methods, ∀ type, registry.struct? method.struct = some type →
    ∀ entry ∈ type.methods, entry.1 ≠ method.name
  implemented : ∀ impl ∈ staged.impls, ∃ trait ∈ registry.traits ++ staged.traits,
    trait.name = impl.2 ∧ ∀ signature ∈ trait.methods, ∃ method ∈ staged.methods,
      method.struct = impl.1 ∧ method.name = signature.name ∧ method.method.trait = impl.2
  complete : ∀ method ∈ staged.methods, (method.struct, method.method.trait) ∈ staged.impls ∨
    pending = some (method.struct, method.method.trait)

section Staging

variable {state : State} {heap : Heap} {pending : Option (StructId × Text)} {name : Text}

theorem State.unknown_struct (unknown : state.findStruct name = none) :
    ∀ type ∈ state.registry.structs ++ state.staged.structs, type.name ≠ name := by
  unfold State.findStruct at unknown
  rw [Option.orElse_eq_orElse, Option.orElse_eq_or, Option.or_eq_none_iff, Option.map_eq_none_iff,
    Registry.findStruct, Array.findIdx?_eq_none_iff, Array.findIdx?_eq_none_iff] at unknown
  intro type member
  rcases Array.mem_append.mp member with old | new
  · simpa using unknown.1 type old
  · simpa using unknown.2 type new

theorem State.unknown_trait (unknown : state.findTrait name = none) :
    ∀ trait ∈ state.registry.traits ++ state.staged.traits, trait.name ≠ name := by
  unfold State.findTrait at unknown
  rw [Option.orElse_eq_orElse, Option.orElse_eq_or, Option.or_eq_none_iff, Registry.findTrait, List.find?_eq_none,
    List.find?_eq_none] at unknown
  intro trait member
  rcases List.mem_append.mp member with old | new
  · simpa using unknown.1 trait old
  · simpa using unknown.2 trait new

theorem State.known_trait {trait : TraitType} (known : state.findTrait name = some trait) :
    trait ∈ state.registry.traits ++ state.staged.traits ∧ trait.name = name := by
  unfold State.findTrait at known
  rw [Option.orElse_eq_orElse, Option.orElse_eq_or, Option.or_eq_some_iff] at known
  rcases known with old | ⟨_, new⟩
  · exact ⟨List.mem_append_left _ (List.mem_of_find?_eq_some old), by simpa using List.find?_some old⟩
  · exact ⟨List.mem_append_right _ (List.mem_of_find?_eq_some new), by simpa using List.find?_some new⟩

theorem State.unknown_method {struct : StructId} (unknown : state.findMethod struct name = none) :
    (∀ type, state.registry.struct? struct = some type →
      ∀ entry ∈ type.methods, entry.1 ≠ name) ∧
      ∀ staged ∈ state.staged.methods, staged.struct = struct → staged.name ≠ name := by
  unfold State.findMethod at unknown
  rw [Option.orElse_eq_orElse, Option.orElse_eq_or, Option.or_eq_none_iff, Option.map_eq_none_iff,
    List.find?_eq_none] at unknown
  refine ⟨fun type known entry member same => ?_, fun staged member same => ?_⟩
  · have seen : state.struct? struct = some type := by
      unfold State.struct?
      rw [known]
      rfl
    rw [seen, Option.bind_some, StructType.findMethod, List.lookup_eq_none_iff] at unknown
    simpa [same] using unknown.1 entry member
  · intro isName
    simpa [same, isName] using unknown.2 staged member

theorem Staged.Coherent.stageStruct (coherent : state.staged.Coherent heap state.registry pending)
    (unknown : state.findStruct name = none) {fields : List Text} (distinct : fields.Nodup) :
    Staged.Coherent heap state.registry pending
      { state.staged with structs := state.staged.structs.push { name, fields } } where
  structs := by
    rw [← Array.push_append, Array.toList_push, List.map_append]
    refine List.nodup_append.mpr ⟨coherent.structs, by simp, fun one inside other isName => ?_⟩
    obtain ⟨type, member, rfl⟩ := List.mem_map.mp inside
    rw [List.map_singleton, List.mem_singleton] at isName
    rw [isName]
    exact state.unknown_struct unknown type (Array.mem_toList_iff.mp member)
  fields type member := by
    rcases Array.mem_push.mp member with old | rfl
    · exact coherent.fields type old
    · exact distinct
  bare type member := by
    rcases Array.mem_push.mp member with old | rfl
    · exact coherent.bare type old
    · exact ⟨rfl, rfl⟩
  traits := coherent.traits
  signatures := coherent.signatures
  asked := coherent.asked
  separate := coherent.separate
  fresh := coherent.fresh
  implemented := coherent.implemented
  complete := coherent.complete

theorem Staged.Coherent.stageTrait (coherent : state.staged.Coherent heap state.registry pending)
    (unknown : state.findTrait name = none) {methods : List Signature}
    (distinct : (methods.map Signature.name).Nodup) :
    Staged.Coherent heap state.registry pending
      { state.staged with traits := state.staged.traits ++ [{ name, methods }] } := by
  have more : ∀ trait ∈ state.registry.traits ++ state.staged.traits,
      trait ∈ state.registry.traits ++ (state.staged.traits ++ [TraitType.mk name methods]) := by
    intro trait member
    rw [← List.append_assoc]
    exact List.mem_append_left _ member
  exact
    { structs := coherent.structs
      fields := coherent.fields
      bare := coherent.bare
      traits := by
        rw [← List.append_assoc, List.map_append]
        refine List.nodup_append.mpr ⟨coherent.traits, by simp, fun one inside other isName => ?_⟩
        obtain ⟨trait, member, rfl⟩ := List.mem_map.mp inside
        rw [List.map_singleton, List.mem_singleton] at isName
        rw [isName]
        exact state.unknown_trait unknown trait member
      signatures := fun trait member => by
        rcases List.mem_append.mp member with old | new
        · exact coherent.signatures trait old
        · rw [List.mem_singleton.mp new]
          exact distinct
      asked := fun method member => (coherent.asked method member).mono more
      separate := coherent.separate
      fresh := coherent.fresh
      implemented := fun impl member => by
        obtain ⟨trait, inside, rest⟩ := coherent.implemented impl member
        exact ⟨trait, more trait inside, rest⟩
      complete := coherent.complete }

variable {struct : StructId} {trait : TraitType} {provided : List Text}

/-- An impl has been begun. -/
theorem Staged.Coherent.open {registry : Registry} {staged : Staged}
    (coherent : staged.Coherent heap registry none) (pending : Option (StructId × Text)) :
    staged.Coherent heap registry pending :=
  { coherent with
    complete := fun method member => by
      rcases coherent.complete method member with there | none
      · exact Or.inl there
      · cases none }

theorem Staged.Coherent.stageMethod
    (coherent : state.staged.Coherent heap state.registry (some (struct, trait.name)))
    (member : trait ∈ state.registry.traits ++ state.staged.traits)
    {signature : Signature} (asked : signature ∈ trait.methods)
    (unknown : state.findMethod struct signature.name = none) {closure : ObjectId}
    (serves : Method.Serves heap ⟨trait.name, closure⟩ signature.arity) :
    Staged.Coherent heap state.registry (some (struct, trait.name))
      { state.staged with
        methods := state.staged.methods
          ++ [⟨struct, signature.name, ⟨trait.name, closure⟩⟩] } := by
  obtain ⟨fresh, separate⟩ := state.unknown_method unknown
  exact
    { structs := coherent.structs
      fields := coherent.fields
      bare := coherent.bare
      traits := coherent.traits
      signatures := coherent.signatures
      asked := fun method inside => by
        rcases List.mem_append.mp inside with old | new
        · exact coherent.asked method old
        · rw [List.mem_singleton.mp new]
          exact ⟨trait, member, rfl, signature, asked, rfl, serves⟩
      separate := by
        refine List.pairwise_append.mpr ⟨coherent.separate, List.pairwise_singleton _ _, ?_⟩
        intro method inside other new same
        rw [List.mem_singleton.mp new] at same ⊢
        exact separate method inside same
      fresh := fun method inside => by
        rcases List.mem_append.mp inside with old | new
        · exact coherent.fresh method old
        · rw [List.mem_singleton.mp new]
          exact fresh
      implemented := fun impl inside => by
        obtain ⟨trait, isTrait, same, provided⟩ := coherent.implemented impl inside
        refine ⟨trait, isTrait, same, fun signature asked => ?_⟩
        obtain ⟨method, old, rest⟩ := provided signature asked
        exact ⟨method, List.mem_append_left _ old, rest⟩
      complete := fun method inside => by
        rcases List.mem_append.mp inside with old | new
        · exact coherent.complete method old
        · rw [List.mem_singleton.mp new]
          exact Or.inr rfl }

/-- An impl is there when its methods are. -/
theorem Staged.Coherent.stageImpl
    (coherent : state.staged.Coherent heap state.registry (some (struct, trait.name)))
    (member : trait ∈ state.registry.traits ++ state.staged.traits)
    (all : ∀ signature ∈ trait.methods, ∃ method ∈ state.staged.methods,
      method.struct = struct ∧ method.name = signature.name ∧ method.method.trait = trait.name) :
    Staged.Coherent heap state.registry none
      { state.staged with impls := state.staged.impls ++ [(struct, trait.name)] } :=
  { coherent with
    implemented := fun impl inside => by
      rcases List.mem_append.mp inside with old | new
      · exact coherent.implemented impl old
      · rw [List.mem_singleton.mp new]
        exact ⟨trait, member, rfl, all⟩
    complete := fun method inside => by
      rcases coherent.complete method inside with old | isPending
      · exact Or.inl (List.mem_append_left _ old)
      · rw [Option.some.injEq] at isPending
        exact Or.inl (List.mem_append_right _ (List.mem_singleton.mpr isPending.symm)) }

/-- Tables stay in order while the closures of staged methods stay as they are. -/
theorem Staged.Coherent.transfer {registry : Registry} {staged : Staged} {other : Heap}
    (coherent : staged.Coherent heap registry pending)
    (kept : ∀ method ∈ staged.methods, ∀ {arity}, method.method.Serves heap arity →
      method.method.Serves other arity) : staged.Coherent other registry pending :=
  { coherent with
    asked := fun method member => by
      obtain ⟨trait, inside, same, signature, asked, isName, serves⟩ := coherent.asked method member
      exact ⟨trait, inside, same, signature, asked, isName, kept method member serves⟩ }

end Staging

section Committing

variable {registry : Registry}

theorem addStructs_ok {types : List StructType}
    (names : ((registry.structs.toList ++ types).map StructType.name).Nodup) :
    types.foldlM (fun registry type => registry.addStruct registry.nextId type) registry
      = .ok { registry with structs := registry.structs ++ types.toArray } := by
  induction types generalizing registry with
  | nil =>
    rw [List.foldlM_nil]
    simp [pure, Except.pure]
  | cons type types ih =>
    have unknown : registry.findStruct type.name = none := by
      rw [Registry.findStruct, Array.findIdx?_eq_none_iff]
      intro known member
      rw [List.map_append, List.nodup_append] at names
      have differs := names.2.2 known.name
        (List.mem_map_of_mem (Array.mem_toList_iff.mpr member)) type.name (by simp)
      simpa using differs
    have added : registry.addStruct registry.nextId type
        = .ok { registry with structs := registry.structs.push type } := by
      simp [Registry.addStruct, unknown]
    rw [List.foldlM_cons, added]
    refine (ih (by simpa using names)).trans ?_
    simp

theorem addTraits_ok {traits : List TraitType}
    (names : ((registry.traits ++ traits).map TraitType.name).Nodup) :
    traits.foldlM Registry.addTrait registry
      = .ok { registry with traits := registry.traits ++ traits } := by
  induction traits generalizing registry with
  | nil =>
    rw [List.foldlM_nil]
    simp [pure, Except.pure]
  | cons trait traits ih =>
    have unknown : registry.findTrait trait.name = none := by
      rw [Registry.findTrait, List.find?_eq_none]
      intro known member
      rw [List.map_append, List.nodup_append] at names
      have differs := names.2.2 known.name (List.mem_map_of_mem member) trait.name (by simp)
      simpa using differs
    have added : registry.addTrait trait
        = .ok { registry with traits := registry.traits ++ [trait] } := by
      simp [Registry.addTrait, unknown]
    rw [List.foldlM_cons, added]
    refine (ih (by simpa using names)).trans ?_
    simp

/-- Structs are changed one by one, each by the changes that are meant for it. -/
theorem struct?_foldl {α : Type} (struct : α → StructId) (change : α → StructType → StructType)
    (items : List α) (registry : Registry) (id : StructId) :
    (items.foldl (fun registry item => { registry with
        structs := registry.structs.modify (struct item) (change item) }) registry).struct? id
      = (registry.struct? id).map fun type =>
        (items.filter fun item => struct item == id).foldl (fun type item => change item type) type := by
  induction items generalizing registry with
  | nil => simp
  | cons item items ih =>
    rw [List.foldl_cons, ih, Registry.struct?, Registry.struct?, Array.getElem?_modify]
    by_cases here : struct item = id
    · rw [if_pos here, List.filter_cons, if_pos (by simpa using here), Option.map_map]
      rfl
    · rw [if_neg here, List.filter_cons, if_neg (by simpa using here)]

theorem traits_foldl {α : Type} (struct : α → StructId) (change : α → StructType → StructType)
    (items : List α) (registry : Registry) :
    (items.foldl (fun registry item => { registry with
        structs := registry.structs.modify (struct item) (change item) }) registry).traits
      = registry.traits := by
  induction items generalizing registry with
  | nil => rfl
  | cons item items ih => rw [List.foldl_cons, ih]

/-- The traits that a unit implements for a struct. -/
def Staged.implsOf (staged : Staged) (id : StructId) : List Text :=
  (staged.impls.filter fun impl => impl.1 == id).map Prod.snd

/-- The methods that a unit declares for a struct. -/
def Staged.methodsOf (staged : Staged) (id : StructId) : List StagedMethod :=
  staged.methods.filter fun method => method.struct == id

theorem Staged.mem_methodsOf {staged : Staged} {id : StructId} {method : StagedMethod} :
    method ∈ staged.methodsOf id ↔ method ∈ staged.methods ∧ method.struct = id := by
  rw [methodsOf, List.mem_filter, beq_iff_eq]

theorem Staged.mem_implsOf {staged : Staged} {id : StructId} {trait : Text} :
    trait ∈ staged.implsOf id ↔ (id, trait) ∈ staged.impls := by
  simp only [implsOf, List.mem_map, List.mem_filter, beq_iff_eq]
  constructor
  · rintro ⟨⟨_, _⟩, ⟨member, rfl⟩, rfl⟩
    exact member
  · exact fun member => ⟨_, ⟨member, rfl⟩, rfl⟩

/-- A registry has what a unit has seen: its structs and traits, with what the unit has added to
each of them. -/
structure Commits (state : State) (registry : Registry) : Prop where
  traits : registry.traits = state.registry.traits ++ state.staged.traits
  struct? : ∀ id, registry.struct? id = (state.struct? id).map fun type =>
    type.extended (state.staged.implsOf id) (state.staged.methodsOf id)

variable {state : State} {heap : Heap} {pending : Option (StructId × Text)}

theorem State.struct?_eq (state : State) (id : StructId) :
    state.struct? id = (state.registry.structs ++ state.staged.structs)[id]? := by
  unfold State.struct? Registry.struct? Registry.nextId
  rw [Array.getElem?_append]
  split
  · next inside =>
    rw [Array.getElem?_eq_getElem inside]
    rfl
  · next outside =>
    rw [Array.getElem?_eq_none (Nat.not_lt.mp outside)]
    rfl

/-- Tables in order are committed. -/
theorem Staged.Coherent.commits (coherent : state.staged.Coherent heap state.registry pending) :
    ∃ registry, state.committed = .ok registry ∧ Commits state registry := by
  let joined : Registry :=
    { structs := state.registry.structs ++ state.staged.structs
      traits := state.registry.traits ++ state.staged.traits }
  let implemented := state.staged.impls.foldl (fun registry impl => { registry with
    structs := registry.structs.modify impl.1 fun type => type.addTrait impl.2 }) joined
  let full := state.staged.methods.foldl (fun registry staged => { registry with
    structs := registry.structs.modify staged.struct fun type =>
      type.addMethod staged.name staged.method }) implemented
  have structs := @addStructs_ok state.registry state.staged.structs.toList
    (by simpa using coherent.structs)
  have traits := @addTraits_ok { state.registry with
    structs := state.registry.structs ++ state.staged.structs } _ coherent.traits
  refine ⟨full, ?_, ?_, fun id => ?_⟩
  · unfold State.committed
    rw [← Array.foldlM_toList, structs]
    simp only [bind, Except.bind, Array.toArray_toList]
    rw [traits]
    rfl
  · exact (traits_foldl _ _ _ _).trans (traits_foldl _ _ _ _)
  · rw [state.struct?_eq]
    refine (struct?_foldl _ _ _ _ _).trans ?_
    rw [struct?_foldl (fun impl : StructId × Text => impl.1)
      (fun impl type => type.addTrait impl.2), Option.map_map]
    unfold StructType.extended Staged.implsOf Staged.methodsOf
    simp only [List.foldl_map]
    rfl

end Committing

section Visible

variable {state : State} {heap : Heap} {registry : Registry} {id : StructId} {type : StructType}

section Methods

variable {method : StagedMethod}

theorem Staged.Coherent.separate_methodsOf {pending : Option (StructId × Text)}
    (coherent : state.staged.Coherent heap state.registry pending) (id : StructId) :
    (state.staged.methodsOf id).Pairwise fun one other => one.name ≠ other.name := by
  refine List.Pairwise.imp_of_mem ?_ (coherent.separate.filter _)
  intro one other inside among apart
  exact apart ((Staged.mem_methodsOf.mp inside).2.trans (Staged.mem_methodsOf.mp among).2.symm)

/-- A struct has not got a method yet that the unit declares for it. -/
theorem Staged.Coherent.fresh_methodsOf {pending : Option (StructId × Text)}
    (coherent : state.staged.Coherent heap state.registry pending)
    (known : state.struct? id = some type) (member : method ∈ state.staged.methodsOf id)
    {entry : Text × Method} (inside : entry ∈ type.methods) : entry.1 ≠ method.name := by
  obtain ⟨isMethod, isMine⟩ := Staged.mem_methodsOf.mp member
  rw [state.struct?_eq, Array.getElem?_append] at known
  split at known
  · exact coherent.fresh method isMethod type (isMine ▸ known) entry inside
  · -- structs are staged without methods
    rw [(coherent.bare type (Array.mem_of_getElem? known)).1] at inside
    cases inside

theorem Staged.Coherent.impl_methodsOf (coherent : state.staged.Coherent heap state.registry none)
    (member : method ∈ state.staged.methodsOf id) :
    (id, method.method.trait) ∈ state.staged.impls := by
  obtain ⟨isMethod, isMine⟩ := Staged.mem_methodsOf.mp member
  rcases coherent.complete method isMethod with there | none
  · exact isMine ▸ there
  · cases none

end Methods

theorem Staged.Coherent.extended (coherent : state.staged.Coherent heap state.registry none)
    (known : state.struct? id = some type) :
    let result := type.extended (state.staged.implsOf id) (state.staged.methodsOf id)
    result.name = type.name ∧ result.fields = type.fields ∧
      result.methods = type.methods
        ++ (state.staged.methodsOf id).map (fun staged => (staged.name, staged.method)) ∧
      ∀ trait, trait ∈ result.traits ↔
        trait ∈ type.traits ∨ (id, trait) ∈ state.staged.impls := by
  obtain ⟨name, fields, methods, traits⟩ :=
    StructType.foldl_addTrait (state.staged.implsOf id) type
  obtain ⟨name', fields', methods', traits'⟩ := StructType.foldl_addMethod
    (state.staged.methodsOf id) ((state.staged.implsOf id).foldl StructType.addTrait type)
    (coherent.separate_methodsOf id) fun method member entry inside => by
      rw [methods] at inside
      exact coherent.fresh_methodsOf known member inside
  refine ⟨name'.trans name, fields'.trans fields, ?_, fun trait => ?_⟩
  · rw [methods] at methods'
    exact methods'
  · refine (traits' trait).trans ?_
    rw [traits, Staged.mem_implsOf, or_assoc]
    refine or_congr_right ⟨fun either => either.elim (fun there => there) ?_, Or.inl⟩
    rintro ⟨staged, member, rfl⟩
    exact coherent.impl_methodsOf member

theorem Commits.names (commits : Commits state registry)
    (coherent : state.staged.Coherent heap state.registry none) :
    registry.structs.toList.map StructType.name
      = (state.registry.structs ++ state.staged.structs).toList.map StructType.name := by
  refine List.ext_getElem? fun position => ?_
  have here := commits.struct? position
  rw [List.getElem?_map, List.getElem?_map, Array.getElem?_toList, Array.getElem?_toList,
    ← state.struct?_eq]
  change (registry.struct? position).map _ = _
  rw [here, Option.map_map]
  cases known : state.struct? position with
  | none => rfl
  | some type => exact congrArg some (coherent.extended known).1

/-- A struct is known after the unit under the identifier that the unit has used for it. -/
theorem Commits.findStruct (commits : Commits state registry)
    (coherent : state.staged.Coherent heap state.registry none) (name : Text) :
    registry.findStruct name = state.findStruct name := by
  have byName : ∀ types : Array StructType, types.findIdx? (fun type => type.name == name)
      = (types.toList.map StructType.name).findIdx? (· == name) := by
    intro types
    rw [List.findIdx?_map, ← List.findIdx?_toArray]
    rfl
  unfold Registry.findStruct State.findStruct
  rw [byName, commits.names coherent, ← byName, Array.findIdx?_append, Option.orElse_eq_orElse,
    Option.orElse_eq_or]
  unfold Registry.findStruct Registry.nextId
  congr 2
  funext index
  exact Nat.add_comm _ _

theorem Commits.findTrait (commits : Commits state registry) (name : Text) :
    registry.findTrait name = state.findTrait name := by
  unfold Registry.findTrait State.findTrait
  rw [commits.traits, List.find?_append, Option.orElse_eq_orElse, Option.orElse_eq_or]
  rfl

/-- A struct has the fields, traits and methods after the unit that the unit has seen. -/
theorem Commits.seen (commits : Commits state registry)
    (coherent : state.staged.Coherent heap state.registry none)
    (known : state.struct? id = some type) :
    ∃ result, registry.struct? id = some result ∧ result.name = type.name ∧
      result.fields = type.fields ∧ (∀ trait, result.implements trait = state.implements id trait) ∧
      ∀ name, result.findMethod name = state.findMethod id name := by
  obtain ⟨name, fields, methods, traits⟩ := coherent.extended known
  refine ⟨_, by rw [commits.struct?, known]; rfl, name, fields, fun trait => ?_, fun method => ?_⟩
  · rw [Bool.eq_iff_iff]
    simpa [StructType.implements, State.implements, known] using traits trait
  · have mine : ∀ list : List StagedMethod,
        ((list.filter fun staged => staged.struct == id).map fun staged =>
          (staged.name, staged.method)).lookup method
        = (list.find? fun staged => staged.struct == id && staged.name == method).map
          StagedMethod.method := by
      intro list
      induction list with
      | nil => rfl
      | cons staged rest ih =>
        by_cases isMine : staged.struct = id
        · by_cases isName : staged.name = method
          · simp [isMine, isName]
          · have other : (method == staged.name) = false :=
              beq_eq_false_iff_ne.mpr (Ne.symm isName)
            simpa [isMine, isName, List.lookup_cons, other] using ih
        · simpa [isMine] using ih
    unfold StructType.findMethod State.findMethod
    rw [methods, List.lookup_append, known, Option.bind_some, Option.orElse_eq_orElse,
      Option.orElse_eq_or]
    exact congrArg _ (mine state.staged.methods)

/-- What is committed is a registry in order. -/
theorem Commits.coherent (commits : Commits state registry)
    (before : state.registry.Coherent heap)
    (coherent : state.staged.Coherent heap state.registry none) : registry.Coherent heap := by
  have old : ∀ trait ∈ state.registry.traits, trait ∈ registry.traits := by
    intro trait member
    rw [commits.traits]
    exact List.mem_append_left _ member
  refine ⟨?_, ?_, ?_, fun type member => ?_⟩
  · rw [commits.names coherent]
    exact coherent.structs
  · rw [commits.traits]
    exact coherent.traits
  · intro trait member
    rw [commits.traits, List.mem_append] at member
    exact member.elim (before.signatures trait) (coherent.signatures trait)
  · obtain ⟨id, here⟩ := Array.getElem?_of_mem member
    have here : registry.struct? id = some type := here
    rw [commits.struct?, Option.map_eq_some_iff] at here
    obtain ⟨base, known, rfl⟩ := here
    obtain ⟨_, fields, methods, traits⟩ := coherent.extended known
    have isBase : base.Coherent heap registry.traits := by
      rw [state.struct?_eq, Array.getElem?_append] at known
      split at known
      · have each := before.each base (Array.mem_of_getElem? known)
        refine ⟨each.fields, each.names, fun name implements => ?_, fun filed => ?_⟩
        · obtain ⟨trait, inside, rest⟩ := each.implemented name implements
          exact ⟨trait, old trait inside, rest⟩
        · obtain ⟨implements, asked⟩ := each.declared filed
          exact ⟨implements, Method.Asked.mono asked old⟩
      · have isNew := Array.mem_of_getElem? known
        obtain ⟨noMethods, noTraits⟩ := coherent.bare base isNew
        refine ⟨coherent.fields base isNew, by simp [noMethods], ?_, ?_⟩
        · intro name implements
          rw [noTraits] at implements
          cases implements
        · intro name method filed
          rw [noMethods] at filed
          cases filed
    refine ⟨?_, ?_, fun name implements => ?_, fun {name method} filed => ?_⟩
    · rw [fields]
      exact isBase.fields
    · rw [methods, List.map_append, List.map_map, List.nodup_append]
      refine ⟨isBase.names, List.pairwise_map.mpr (coherent.separate_methodsOf id), ?_⟩
      intro one inside other among
      obtain ⟨entry, isEntry, rfl⟩ := List.mem_map.mp inside
      obtain ⟨staged, isStaged, rfl⟩ := List.mem_map.mp among
      exact coherent.fresh_methodsOf known isStaged isEntry
    · rw [methods]
      rcases (traits name).mp implements with isOld | isNew
      · obtain ⟨trait, inside, same, provided⟩ := isBase.implemented name isOld
        refine ⟨trait, inside, same, fun signature asked => ?_⟩
        obtain ⟨method, filed, isTrait⟩ := provided signature asked
        exact ⟨method, List.mem_append_left _ filed, isTrait⟩
      · obtain ⟨trait, inside, same, provided⟩ := coherent.implemented _ isNew
        refine ⟨trait, commits.traits ▸ inside, same, fun signature asked => ?_⟩
        obtain ⟨staged, isStaged, isMine, isName, isTrait⟩ := provided signature asked
        refine ⟨staged.method, List.mem_append_right _ (List.mem_map.mpr ⟨staged, ?_, ?_⟩), isTrait⟩
        · exact Staged.mem_methodsOf.mpr ⟨isStaged, isMine⟩
        · rw [isName]
    · rw [methods] at filed
      rw [traits]
      rcases List.mem_append.mp filed with isOld | isNew
      · obtain ⟨implements, asked⟩ := isBase.declared isOld
        exact ⟨Or.inl implements, asked⟩
      · obtain ⟨staged, isStaged, same⟩ := List.mem_map.mp isNew
        cases same
        exact ⟨Or.inr (coherent.impl_methodsOf isStaged),
          commits.traits ▸ coherent.asked staged (Staged.mem_methodsOf.mp isStaged).1⟩

end Visible

end Compiler

end ScriptMachine
