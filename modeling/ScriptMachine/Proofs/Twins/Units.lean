import ScriptMachine.Proofs.Compiler.Units
import ScriptMachine.Proofs.Twins.Productions

set_option autoImplicit false
set_option synthInstance.maxSize 20000

/- A unit is compiled to twins. -/
namespace ScriptMachine

section Registries

variable {pairs : Pairing} {left right : Registry} {type type' : StructType} {method method' : Method}

theorem Across.modify {α β : Type} {relation : α → β → Prop} {ours : Array α} {theirs : Array β}
    (across : Across relation ours theirs) (index : Nat) {change : α → α} {change' : β → β}
    (same : ∀ a b, relation a b → relation (change a) (change' b)) :
    Across relation (ours.modify index change) (theirs.modify index change') where
  size := by rw [Array.size_modify, Array.size_modify, across.size]
  each {place a b} here there := by
    rw [Array.getElem?_modify] at here there
    split at here
    · next isPlace =>
      rw [if_pos isPlace] at there
      obtain ⟨_, isOurs, rfl⟩ := Option.map_eq_some_iff.mp here
      obtain ⟨_, isTheirs, rfl⟩ := Option.map_eq_some_iff.mp there
      exact same _ _ (across.each isOurs isTheirs)
    · next notPlace =>
      rw [if_neg notPlace] at there
      exact across.each here there

theorem StructType.Twin.addTrait (twin : type.Twin pairs type') (trait : Text) :
    (type.addTrait trait).Twin pairs (type'.addTrait trait) := by
  have known : type'.implements trait = type.implements trait := by
    rw [StructType.implements, twin.traits]
    rfl
  unfold StructType.addTrait
  rw [known]
  split
  · exact twin
  · exact ⟨twin.name, twin.fields, by dsimp only; rw [twin.traits], twin.methods⟩

theorem StructType.Twin.addMethod (twin : type.Twin pairs type') (name : Text)
    (same : method.Twin pairs method') :
    (type.addMethod name method).Twin pairs (type'.addMethod name method') := by
  have added := twin.addTrait method.trait
  have others : List.Forall₂ (fun entry entry' => entry'.1 = entry.1 ∧
      Method.Twin pairs entry.2 entry'.2) (type.methods.filter fun entry => entry.1 != name)
      (type'.methods.filter fun entry => entry.1 != name) := by
    have methods := twin.methods
    generalize type.methods = ours at methods
    generalize type'.methods = theirs at methods
    induction methods with
    | nil => exact .nil
    | cons first _ ih =>
      simp only [List.filter_cons, first.1]
      split
      · exact .cons first ih
      · exact ih
  simp only [StructType.addMethod, same.trait]
  exact ⟨added.name, added.fields, added.traits, List.rel_append others (.cons ⟨rfl, same⟩ .nil)⟩

theorem Registry.Twin.implement (twin : left.Twin pairs right) (id : StructId) (trait : Text) :
    (left.implement id trait).Twin pairs (right.implement id trait) :=
  ⟨twin.structs.modify id fun _ _ same => same.addTrait trait, twin.traits⟩

theorem Registry.Twin.addMethod (twin : left.Twin pairs right) (id : StructId) (name : Text)
    (same : method.Twin pairs method') :
    (left.addMethod id name method).Twin pairs (right.addMethod id name method') :=
  ⟨twin.structs.modify id fun _ _ types => types.addMethod name same, twin.traits⟩

/-- Two registrations: both succeed, or both fail for the same reason. -/
inductive Registered (pairs : Pairing) : Except RegistryError Registry → Except RegistryError Registry →
    Prop where
  | ok {left right : Registry} : left.Twin pairs right → Registered pairs (.ok left) (.ok right)
  | error (failure : RegistryError) : Registered pairs (.error failure) (.error failure)

theorem Registered.bind {one other : Except RegistryError Registry}
    {next next' : Registry → Except RegistryError Registry} (registered : Registered pairs one other)
    (goesOn : ∀ left right : Registry, left.Twin pairs right → Registered pairs (next left) (next' right)) :
    Registered pairs (one >>= next) (other >>= next') := by
  cases registered with
  | ok twin => exact goesOn _ _ twin
  | error failure => exact .error failure

theorem registered_foldlM_of_mem {α : Type} {step : Registry → α → Except RegistryError Registry}
    {list : List α} (each : ∀ item ∈ list, ∀ left right : Registry, left.Twin pairs right →
      Registered pairs (step left item) (step right item)) (twin : left.Twin pairs right) :
    Registered pairs (list.foldlM step left) (list.foldlM step right) := by
  induction list generalizing left right with
  | nil => exact .ok twin
  | cons item rest ih =>
    rw [List.foldlM_cons, List.foldlM_cons]
    refine (each item List.mem_cons_self left right twin).bind fun _ _ twin => ih ?_ twin
    exact fun item member => each item (List.mem_cons_of_mem _ member)

theorem Registry.Twin.findStruct (twin : left.Twin pairs right) (name : Text) :
    right.findStruct name = left.findStruct name :=
  Compiler.findIdx?_across twin.structs fun _ _ _ _ same => by rw [same.name]

/-- A struct without methods is its own twin. -/
theorem Registry.Twin.addStruct (twin : left.Twin pairs right) (bare : type.methods = []) :
    Registered pairs (left.addStruct left.nextId type) (right.addStruct right.nextId type) := by
  simp only [Registry.addStruct, twin.findStruct, bne_self_eq_false, Bool.false_eq_true, if_false]
  split
  · exact .error _
  · exact .ok ⟨twin.structs.push ⟨rfl, rfl, rfl, by rw [bare]; exact .nil⟩, twin.traits⟩

theorem Registry.Twin.addTrait (twin : left.Twin pairs right) (trait : TraitType) :
    Registered pairs (left.addTrait trait) (right.addTrait trait) := by
  have known : right.findTrait trait.name = left.findTrait trait.name := by
    rw [Registry.findTrait, twin.traits]
    rfl
  unfold Registry.addTrait
  rw [known]
  split
  · exact .error _
  · exact .ok ⟨twin.structs, by dsimp only; rw [twin.traits]⟩

end Registries

namespace Compiler

variable {pairs : Pairing} {left right : State}

/-- The declarations of a unit are registered on both sides, or on none. -/
theorem State.Twin.committed (twin : State.Twin pairs left right) :
    Registered pairs left.committed right.committed := by
  have staged := twin.staged
  have structs : Registered pairs
      (left.staged.structs.foldlM (fun registry type => registry.addStruct registry.nextId type)
        left.registry)
      (left.staged.structs.foldlM (fun registry type => registry.addStruct registry.nextId type)
        right.registry) := by
    rw [← Array.foldlM_toList, ← Array.foldlM_toList]
    refine registered_foldlM_of_mem (fun type member left right same => ?_) twin.registry
    exact same.addStruct (staged.bare type (Array.mem_toList_iff.mp member))
  unfold State.committed
  rw [staged.structs, staged.traits, staged.impls]
  refine structs.bind fun one one' twins => ?_
  refine (registered_foldlM_of_mem (fun trait _ left right same => same.addTrait trait) twins).bind
    fun two two' twins => .ok ?_
  have implemented : ∀ (impls : List (StructId × Text)) {left right : Registry}, left.Twin pairs right →
      (impls.foldl (fun registry entry => registry.implement entry.1 entry.2) left).Twin pairs
        (impls.foldl (fun registry entry => registry.implement entry.1 entry.2) right) := by
    intro impls
    induction impls with
    | nil => exact fun twin => twin
    | cons entry rest ih => exact fun twin => ih (twin.implement entry.1 entry.2)
  have answered : ∀ {methods methods' : List StagedMethod},
      List.Forall₂ (StagedMethod.Twin pairs) methods methods' → ∀ {left right : Registry},
      left.Twin pairs right →
      (methods.foldl (fun registry staged =>
        registry.addMethod staged.struct staged.name staged.method) left).Twin pairs
        (methods'.foldl (fun registry staged =>
          registry.addMethod staged.struct staged.name staged.method) right) := by
    intro methods methods' same
    induction same with
    | nil => exact fun twin => twin
    | cons first _ ih =>
      intro left right twin
      simp only [List.foldl_cons, first.struct, first.name]
      exact ih (twin.addMethod _ _ first.method)
  exact answered staged.methods (implemented _ twins)

section Units

theorem even_grammar (depth : Nat) :
    (∀ level, Even (operandAt depth level)) ∧ Even (statementAt depth) ∧ Even (declarationAt depth) := by
  induction depth with
  | zero =>
    simp only [operandAt, statementAt, declarationAt]
    exact ⟨fun _ => inferInstance, inferInstance, inferInstance⟩
  | succ depth ih =>
    obtain ⟨operands, statements, declarations⟩ := ih
    simp only [operandAt, statementAt, declarationAt]
    exact ⟨fun _ => inferInstance, inferInstance, inferInstance⟩

instance (depth : Nat) : Even (unit depth) := by
  have declares : Even (declarationAt depth) := (even_grammar depth).2.2
  unfold unit
  infer_instance

/-- What is in use outside of a compilation is there, and that includes the registered methods. -/
structure Provided (outside : List ObjectId) (registry : Registry) (heap : Heap) : Prop where
  stocked : heap.Stocked outside
  registered : ∀ id ∈ registry.roots, id ∈ outside

/-- How a unit is compiled on both sides: to twins, or with the same failure, unless one side finds no
room on the heap. What a failed compilation leaves on the heap does not matter. -/
inductive Compiles (pairs : Pairing) (left right : Heap) :
    Heap × Except Failure Compiled → Heap × Except Failure Compiled → Prop
  | exhausted {failure : Exhausted} {heap : Heap} {other : Heap × Except Failure Compiled} :
      Compiles pairs left right (heap, .error (.exhausted failure)) other
  | exhausted' {failure : Exhausted} {heap : Heap} {other : Heap × Except Failure Compiled} :
      Compiles pairs left right other (heap, .error (.exhausted failure))
  | failed {heap heap' : Heap} (failure : Failure) :
      Compiles pairs left right (heap, .error failure) (heap', .error failure)
  | compiled {more : Pairing} {heap heap' : Heap} {one other : Compiled} :
      Heap.Goes pairs left right more heap heap' → one.registry.Twin more other.registry →
      more one.script other.script → Compiles pairs left right (heap, .ok one) (heap', .ok other)

variable {heap heap' : Heap} {registry registry' : Registry} {outside outside' : List ObjectId}

theorem Provided.begun {id : ObjectId} {after : Heap} (provided : Provided outside registry heap)
    (tidy : heap.Tidy) (made : Heap.newFunction (fun _ => outside) heap = .ok id after)
    (tokens : List Token) : Backed [] (.begun after registry outside tokens id) where
  stocked := by
    refine (provided.stocked.allocated tidy made (by simp [Object.references, Prototype.references])).mono
      fun root member => ?_
    simpa [State.begun, State.roots, Draft.roots, Prototype.references, or_comm] using member
  registered := provided.registered
  functions draft member := by
    rw [List.mem_singleton.mp member]
    exact ⟨_, Heap.get?_of_allocate made⟩

/-- The end of a unit whose tokens have all been passed. -/
theorem Paced.finish {more : Pairing} (paced : Paced more [] [] left right)
    (goes : Heap.Goes pairs heap heap' more left.heap right.heap) :
    Compiles pairs heap heap' (finish left) (finish right) := by
  have twin := paced.twin
  have committed := twin.committed
  have plain : ∀ {state : State}, Backed [] state →
      ∀ text, state.heap.get? state.draft.id ≠ some (.string text) := by
    intro state backed text present
    obtain ⟨body, here⟩ := backed.functions state.draft List.mem_cons_self
    rw [here] at present
    cases present
  have altered := twin.heap.altered twin.draft.id
    (Heap.alters_set twin.heap.tidy (by simp) (plain paced.backed))
    (Heap.alters_set twin.heap.tidy' (by simp) (plain paced.backed'))
    (fun _ _ => .function twin.draft.body) (by simp) (by simp)
  unfold Compiler.finish
  rw [twin.diagnostics]
  split
  · generalize left.committed = one at committed
    generalize right.committed = other at committed
    cases committed with
    | error failure => exact .failed _
    | ok registries => exact .compiled (goes.trans altered) registries twin.draft.id
  · exact .failed _

theorem compile_twins (twin : Heap.Twin pairs heap heap') (registries : registry.Twin pairs registry')
    (provided : Provided outside registry heap) (provided' : Provided outside' registry' heap')
    (tokens : List Token) :
    Compiles pairs heap heap' (compile heap registry outside tokens)
      (compile heap' registry' outside' tokens) := by
  unfold compile
  cases made : Heap.newFunction (fun _ => outside) heap with
  | error failure after => exact .exhausted
  | ok a after =>
    cases made' : Heap.newFunction (fun _ => outside') heap' with
    | error failure after' => exact .exhausted'
    | ok b after' =>
      obtain ⟨more, goes, joined⟩ := twin.allocated (by simp) (by simp)
        (.function ⟨.none, .empty, rfl⟩) made made'
      have begun : Paced more [] [] (.begun after registry outside tokens a)
          (.begun after' registry' outside' tokens b) := by
        refine ⟨?_, provided.begun twin.tidy made tokens, provided'.begun twin.tidy' made' tokens⟩
        exact
          { heap := goes.twin
            registry := registries.mono goes.larger
            draft := ⟨joined, ⟨.none, .empty, rfl⟩, rfl⟩
            enclosing := .nil
            staged := ⟨.nil, fun type member => by simp [State.begun] at member, rfl⟩
            cursor := rfl
            panicking := rfl
            diagnostics := rfl
            globals := rfl
            implType := rfl }
      have units := (inferInstance : Even (unit (depthFor tokens.length))).coupled begun
      unfold Coupled at units
      dsimp only [State.begun] at units ⊢
      generalize unit (depthFor tokens.length) _ = one at units
      generalize unit (depthFor tokens.length) _ = other at units
      cases units with
      | both ended =>
        obtain ⟨_, most, proceeds⟩ := ended
        exact proceeds.paced.finish (goes.trans proceeds.goes)
      | diverged => exact .failed _
      | exhausted => exact .exhausted
      | exhausted' => exact .exhausted'

end Units

end Compiler

end ScriptMachine
