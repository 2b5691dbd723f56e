import Mathlib.Data.List.Nodup
import ScriptMachine.Proofs.Heap.Reach
import ScriptMachine.Registry

set_option autoImplicit false

/- Registries in order. Names are unique, a struct has exactly the methods that its traits ask for, and
every method is a closure that suits the signature it answers. -/
namespace ScriptMachine

/-- A method takes the given number of arguments, is marked as a method and captures nothing. -/
def Method.Serves (heap : Heap) (method : Method) (arity : Nat) : Prop :=
  ∃ prototype body, heap.get? method.closure = some (.closure prototype #[]) ∧
    heap.get? prototype = some (.function body) ∧ body.arity = arity ∧ body.captures = #[] ∧
    body.isMethod = true

/-- Some trait, the one that the method is filed for, asks for a method of this name and kind. -/
def Method.Asked (heap : Heap) (traits : List TraitType) (name : Text) (method : Method) : Prop :=
  ∃ trait ∈ traits, trait.name = method.trait ∧
    ∃ signature ∈ trait.methods, signature.name = name ∧ method.Serves heap signature.arity

theorem Method.Asked.mono {heap : Heap} {traits more : List TraitType} {name : Text} {method : Method}
    (asked : method.Asked heap traits name) (among : ∀ trait ∈ traits, trait ∈ more) :
    method.Asked heap more name := by
  obtain ⟨trait, member, rest⟩ := asked
  exact ⟨trait, among trait member, rest⟩

/-- A struct that implements its traits, and has no other methods. -/
structure StructType.Coherent (heap : Heap) (traits : List TraitType) (type : StructType) : Prop where
  fields : type.fields.Nodup
  names : (type.methods.map Prod.fst).Nodup
  implemented : ∀ name ∈ type.traits, ∃ trait ∈ traits, trait.name = name ∧
    ∀ signature ∈ trait.methods, ∃ method, (signature.name, method) ∈ type.methods ∧
      method.trait = name
  declared : ∀ {name : Text} {method : Method}, (name, method) ∈ type.methods →
    method.trait ∈ type.traits ∧ method.Asked heap traits name

structure Registry.Coherent (heap : Heap) (registry : Registry) : Prop where
  structs : (registry.structs.toList.map StructType.name).Nodup
  traits : (registry.traits.map TraitType.name).Nodup
  signatures : ∀ trait ∈ registry.traits, (trait.methods.map Signature.name).Nodup
  each : ∀ type ∈ registry.structs, type.Coherent heap registry.traits

theorem Registry.coherent_empty (heap : Heap) : Registry.Coherent heap {} where
  structs := .nil
  traits := .nil
  signatures trait member := by cases member
  each type member := by simp at member

section Lookups

variable {heap : Heap} {traits : List TraitType} {type : StructType} {name : Text}

/-- The method of a name is the one that is filed under it. -/
theorem StructType.Coherent.findMethod (coherent : type.Coherent heap traits) {method : Method}
    (filed : (name, method) ∈ type.methods) : type.findMethod name = some method := by
  unfold StructType.findMethod
  have names := coherent.names
  generalize type.methods = methods at filed names
  induction methods with
  | nil => cases filed
  | cons entry rest ih =>
    rw [List.map_cons, List.nodup_cons] at names
    rcases List.mem_cons.mp filed with rfl | later
    · simp
    · have differs : name ≠ entry.1 := fun same =>
        names.1 (same ▸ List.mem_map_of_mem (f := Prod.fst) later)
      rw [List.lookup_cons, beq_eq_false_iff_ne.mpr differs]
      exact ih later names.2

theorem StructType.mem_of_findMethod {method : Method} (found : type.findMethod name = some method) :
    (name, method) ∈ type.methods := by
  unfold StructType.findMethod at found
  generalize type.methods = methods at found
  induction methods with
  | nil => cases found
  | cons entry rest ih =>
    rw [List.lookup_cons] at found
    split at found
    · next same =>
      cases found
      rw [eq_of_beq same]
      exact List.mem_cons_self
    · exact List.mem_cons_of_mem _ (ih found)

/-- A field is found at its position. -/
theorem StructType.Coherent.findField (coherent : type.Coherent heap traits) {position : Nat}
    (here : type.fields[position]? = some name) : type.findField name = some position := by
  obtain ⟨inside, same⟩ := List.getElem?_eq_some_iff.mp here
  unfold StructType.findField
  rw [List.idxOf?_eq_some_iff]
  refine ⟨inside, same, fun earlier below other => ?_⟩
  have distinct := coherent.fields
  rw [List.nodup_iff_injective_get] at distinct
  have equal : earlier = position := by
    have := @distinct ⟨earlier, by omega⟩ ⟨position, inside⟩ (by simpa [other] using same.symm)
    simpa using this
  omega

variable {registry : Registry} {trait other : TraitType}

theorem trait_unique {traits : List TraitType} (names : (traits.map TraitType.name).Nodup)
    (member : trait ∈ traits) (inside : other ∈ traits) (same : trait.name = other.name) :
    trait = other :=
  List.inj_on_of_nodup_map names member inside same

/-- A trait is found under its name. -/
theorem find?_trait {traits : List TraitType} (names : (traits.map TraitType.name).Nodup)
    (member : trait ∈ traits) :
    traits.find? (fun known => known.name == trait.name) = some trait := by
  obtain ⟨found, here⟩ : ∃ found, traits.find? (fun known => known.name == trait.name)
      = some found :=
    Option.isSome_iff_exists.mp (List.find?_isSome.mpr ⟨trait, member, by simp⟩)
  have same : found.name = trait.name := by simpa using List.find?_some here
  rw [here, trait_unique names (List.mem_of_find?_eq_some here) member same]

theorem Registry.Coherent.findTrait (coherent : registry.Coherent heap)
    (member : trait ∈ registry.traits) : registry.findTrait trait.name = some trait :=
  find?_trait coherent.traits member

/-- A struct is found under its name. -/
theorem Registry.Coherent.findStruct (coherent : registry.Coherent heap) {id : StructId}
    (here : registry.struct? id = some type) : registry.findStruct type.name = some id := by
  obtain ⟨inside, same⟩ := Array.getElem?_eq_some_iff.mp here
  unfold Registry.findStruct
  rw [Array.findIdx?_eq_some_iff_getElem]
  refine ⟨inside, by simp [same], fun earlier below => ?_⟩
  have distinct := coherent.structs
  rw [List.nodup_iff_injective_get] at distinct
  intro equal
  have sameName : registry.structs[earlier].name = type.name := by simpa using equal
  have position := @distinct ⟨earlier, by simp; omega⟩ ⟨id, by simpa using inside⟩
    (by simpa [same] using sameName)
  simp only [Fin.mk.injEq] at position
  omega

/-- A struct answers every signature of its traits. -/
theorem Registry.Coherent.answers (coherent : registry.Coherent heap) {id : StructId}
    (here : registry.struct? id = some type) (implements : name ∈ type.traits) :
    ∃ trait, registry.findTrait name = some trait ∧ trait.name = name ∧
      ∀ signature ∈ trait.methods, ∃ method, type.findMethod signature.name = some method ∧
        method.trait = name ∧ method.Serves heap signature.arity := by
  have each := coherent.each type (Array.mem_of_getElem? here)
  obtain ⟨trait, member, rfl, provided⟩ := each.implemented name implements
  refine ⟨trait, coherent.findTrait member, rfl, fun signature asked => ?_⟩
  obtain ⟨method, filed, isTrait⟩ := provided signature asked
  refine ⟨method, each.findMethod filed, isTrait, ?_⟩
  -- the trait and the signature that the method is filed for are these
  obtain ⟨_, asking, inside, sameTrait, answered, isAsked, sameName, serves⟩ := each.declared filed
  obtain rfl : asking = trait :=
    trait_unique coherent.traits inside member (sameTrait.trans isTrait)
  have same : answered = signature :=
    List.inj_on_of_nodup_map (coherent.signatures asking inside) isAsked asked sameName
  rw [← same]
  exact serves

/-- A struct has no method that none of its traits asks for. -/
theorem Registry.Coherent.asked (coherent : registry.Coherent heap) {id : StructId}
    (here : registry.struct? id = some type) {method : Method}
    (filed : (name, method) ∈ type.methods) :
    method.trait ∈ type.traits ∧ ∃ trait, registry.findTrait method.trait = some trait ∧
      ∃ signature ∈ trait.methods, signature.name = name ∧ method.Serves heap signature.arity := by
  obtain ⟨implements, trait, member, same, signature⟩ :=
    (coherent.each type (Array.mem_of_getElem? here)).declared filed
  exact ⟨implements, trait, same ▸ coherent.findTrait member, signature⟩

end Lookups

section Transfer

variable {heap other : Heap} {registry : Registry}

/-- A method stays what it is while its closure and all that this leads to stay as they are. -/
theorem Method.Serves.transfer {method : Method} {arity : Nat} (serves : method.Serves heap arity)
    (same : ∀ id, Heap.Reaches heap.objects [method.closure] id → other.get? id = heap.get? id) :
    method.Serves other arity := by
  obtain ⟨prototype, body, closure, function, rest⟩ := serves
  have root : Heap.Reaches heap.objects [method.closure] method.closure :=
    .root List.mem_cons_self
  refine ⟨prototype, body, (same _ root).trans closure, ?_, rest⟩
  exact (same _ (root.next closure List.mem_cons_self)).trans function

theorem Registry.mem_roots {type : StructType} (member : type ∈ registry.structs) {name : Text}
    {method : Method} (filed : (name, method) ∈ type.methods) : method.closure ∈ registry.roots :=
  List.mem_flatMap.mpr ⟨type, Array.mem_toList_iff.mpr member, List.mem_map.mpr ⟨_, filed, rfl⟩⟩

/-- A registry stays in order while the closures of its methods stay as they are. -/
theorem Registry.Coherent.transfer (coherent : registry.Coherent heap)
    (kept : ∀ {method : Method} {arity : Nat}, method.closure ∈ registry.roots →
      method.Serves heap arity → method.Serves other arity) : registry.Coherent other where
  structs := coherent.structs
  traits := coherent.traits
  signatures := coherent.signatures
  each type member := by
    have each := coherent.each type member
    refine ⟨each.fields, each.names, each.implemented, fun filed => ?_⟩
    obtain ⟨implements, trait, inside, same, signature, asked, isName, serves⟩ := each.declared filed
    exact ⟨implements, trait, inside, same, signature, asked, isName,
      kept (mem_roots member filed) serves⟩

end Transfer

end ScriptMachine
