import ScriptMachine.Proofs.Session.Sound

set_option autoImplicit false

/- Units of a session. A unit that compiles has all of its declarations registered, under the
identifiers that its code uses, and one that does not leaves nothing behind. The registry that any
units lead to has one method for each signature of each trait that a struct implements. -/
namespace ScriptMachine

namespace Registry

variable {registry : Registry} {heap : Heap} {id : StructId} {type : StructType}

/-- The identifiers of structs are their positions. -/
theorem struct?_isSome : (registry.struct? id).isSome = true ↔ id < registry.structs.size := by
  rw [struct?, Option.isSome_iff_ne_none, ne_eq, Array.getElem?_eq_none_iff, Nat.not_le]

/-- No two traits of a struct ask for a method of the same name. -/
theorem Coherent.trait_unambiguous (coherent : registry.Coherent heap)
    (here : registry.struct? id = some type) {first second : TraitType}
    (one : registry.findTrait first.name = some first) (implements : first.name ∈ type.traits)
    (other : registry.findTrait second.name = some second) (implements' : second.name ∈ type.traits)
    {signature signature' : Signature} (asked : signature ∈ first.methods)
    (asked' : signature' ∈ second.methods) (same : signature.name = signature'.name) :
    first = second := by
  obtain ⟨_, found, _, answers⟩ := coherent.answers here implements
  cases found.symm.trans one
  obtain ⟨_, found', _, answers'⟩ := coherent.answers here implements'
  cases found'.symm.trans other
  obtain ⟨method, isMethod, isFirst, _⟩ := answers signature asked
  obtain ⟨method', isMethod', isSecond, _⟩ := answers' signature' asked'
  rw [same] at isMethod
  cases isMethod.symm.trans isMethod'
  rw [← isFirst, isSecond] at one
  exact Option.some.inj (one.symm.trans other)

end Registry

namespace Compiler

variable {heap start : Heap} {registry : Registry} {outside : List ObjectId} {tokens : List Token}
  {id : ObjectId} {state : State}

/-- A registry has all that a unit has seen and declared: every struct under the identifier that the
unit has used for it, and every trait, impl and method. -/
structure Shows (state : State) (registry : Registry) : Prop where
  findStruct : ∀ name, registry.findStruct name = state.findStruct name
  findTrait : ∀ name, registry.findTrait name = state.findTrait name
  staged : ∀ {position : Nat} {type : StructType}, state.staged.structs[position]? = some type →
    registry.findStruct type.name = some (state.registry.nextId + position)
  seen : ∀ {id : StructId} {type : StructType}, state.struct? id = some type →
    ∃ result, registry.struct? id = some result ∧ result.name = type.name ∧
      result.fields = type.fields ∧ (∀ trait, result.implements trait = state.implements id trait) ∧
      ∀ name, result.findMethod name = state.findMethod id name

theorem Commits.shows (commits : Commits state registry)
    (coherent : state.staged.Coherent heap state.registry none) : Shows state registry where
  findStruct := commits.findStruct coherent
  findTrait := commits.findTrait
  seen known := commits.seen coherent known
  staged {position type} here := by
    have known : state.struct? (state.registry.nextId + position) = some type := by
      rw [state.struct?_eq, Array.getElem?_append, if_neg (by simp [Registry.nextId])]
      simpa [Registry.nextId] using here
    obtain ⟨result, found, name, _⟩ := commits.seen coherent known
    obtain ⟨inside, isResult⟩ := Array.getElem?_eq_some_iff.mp found
    -- The names of the structs are those of the unit, and these are all different.
    have distinct : (registry.structs.toList.map StructType.name).Nodup := by
      rw [commits.names coherent]
      exact coherent.structs
    unfold Registry.findStruct
    rw [Array.findIdx?_eq_some_iff_getElem]
    refine ⟨inside, by simp [isResult, name], fun earlier below equal => ?_⟩
    have before : earlier < registry.structs.size := Nat.lt_trans below inside
    have sameName : registry.structs[earlier].name = type.name := by simpa using equal
    have injective := List.nodup_iff_injective_get.mp distinct
    have same := @injective ⟨earlier, by simpa using before⟩
      ⟨state.registry.nextId + position, by simpa using inside⟩ (by simp [isResult, name, sameName])
    simp only [Fin.mk.injEq] at same
    omega

end Compiler

namespace Session

open Compiler (Failure Shows compileSource depthFor unit)

variable {session : Session}

/-- The registry of a session is in order: a struct is found by its name and by its identifier, its
fields by their names, and it has exactly one method for every signature of every trait that it
implements, and no other methods. -/
theorem registry_in_order (reachable : Reachable session) :
    (∀ id : StructId, (session.machine.registry.struct? id).isSome = true ↔
      id < session.machine.registry.structs.size) ∧
    ∀ {id : StructId} {type : StructType}, session.machine.registry.struct? id = some type →
      session.machine.registry.findStruct type.name = some id ∧
      (∀ {position : Nat} {field : Text}, type.fields[position]? = some field →
        type.findField field = some position) ∧
      (∀ name ∈ type.traits, ∃ trait, session.machine.registry.findTrait name = some trait ∧
        trait.name = name ∧ ∀ signature ∈ trait.methods,
          ∃ method, type.findMethod signature.name = some method ∧ method.trait = name ∧
            method.Serves session.machine.heap signature.arity) ∧
      (∀ {name : Text} {method : Method}, (name, method) ∈ type.methods →
        type.findMethod name = some method ∧ method.trait ∈ type.traits ∧
        ∃ trait, session.machine.registry.findTrait method.trait = some trait ∧
          ∃ signature ∈ trait.methods, signature.name = name) ∧
      ∀ {first second : TraitType} {signature signature' : Signature},
        session.machine.registry.findTrait first.name = some first → first.name ∈ type.traits →
        session.machine.registry.findTrait second.name = some second → second.name ∈ type.traits →
        signature ∈ first.methods → signature' ∈ second.methods →
        signature.name = signature'.name → first = second := by
  obtain ⟨program, live, shape, ordered, data⟩ := reachable.usable.data
  have coherent := data.coherent ordered
  refine ⟨fun _ => Registry.struct?_isSome, fun {id type} here => ?_⟩
  have each := coherent.each type (Array.mem_of_getElem? here)
  refine ⟨coherent.findStruct here, each.findField, fun name => coherent.answers here,
    fun filed => ?_, fun one implements other implements' asked asked' same =>
      coherent.trait_unambiguous here one implements other implements' asked asked' same⟩
  obtain ⟨implements, trait, found, signature, asked, same, _⟩ := coherent.asked here filed
  exact ⟨each.findMethod filed, implements, trait, found, signature, asked, same⟩

/-- A unit that declares a struct and a trait, and implements the trait. -/
def implementing : Text :=
  ascii "trait T \x7b \x7d struct P \x7b x \x7d impl T for P \x7b \x7d"

theorem registry_in_order_implementing : ∃ type trait,
    ((fresh {}).interpret [] implementing 0).1.machine.registry.struct? 0 = some type ∧
      type.traits = [ascii "T"] ∧ type.findField (ascii "x") = some 0 ∧
      ((fresh {}).interpret [] implementing 0).1.machine.registry.findTrait (ascii "T")
        = some trait := by
  obtain ⟨type, here, traits, fields⟩ : ∃ type,
      ((fresh {}).interpret [] implementing 0).1.machine.registry.struct? 0 = some type ∧
        type.traits = [ascii "T"] ∧ type.fields = [ascii "x"] :=
    ⟨⟨ascii "P", [ascii "x"], [], [ascii "T"]⟩, by decide +kernel, rfl, rfl⟩
  obtain ⟨_, findField, answers, _⟩ :=
    (registry_in_order (.interpret [] implementing 0 (reachable_fresh {}))).2 here
  obtain ⟨trait, found, _⟩ := answers (ascii "T") (by simp [traits])
  exact ⟨type, trait, here, traits, findField (by rw [fields]; rfl), found⟩

end Session

end ScriptMachine
