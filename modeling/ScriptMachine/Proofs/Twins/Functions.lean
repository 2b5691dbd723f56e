import ScriptMachine.Proofs.Compiler.Retaining
import ScriptMachine.Proofs.Twins.Scopes

set_option autoImplicit false
set_option synthInstance.maxSize 20000

/- Functions and closures keep pace. A finished prototype is held until something refers to it. -/
namespace ScriptMachine.Compiler

variable {pairs more : Pairing} {left right left' right' : State} {held : List ObjectId} {state : State}
  {heap : Heap} {id a b : ObjectId}

section Requests

/-- What a new object refers to has been in use before. -/
theorem Backed.allocated {object : Object} (backed : Backed held state) (tidy : state.heap.Tidy)
    (made : Heap.allocate (fun _ => held ++ state.roots) object state.heap = .ok id heap)
    (inside : ∀ other ∈ object.references, other ∈ held ++ state.roots) :
    Backed (id :: held) { state with heap } := by
  have retains : Heap.Retains (held ++ state.roots) state.heap
      (stateLeft (Heap.allocate (fun _ => held ++ state.roots) object state.heap)) :=
    (Heap.Retains.refl _ _).allocate (backed.stocked.bounded tidy) (fun _ member => member) object
  rw [made] at retains
  exact (backed.retained retains).hold (Heap.get?_of_allocate made) inside

/-- Going on with a new draft around which the current one waits. -/
theorem Backed.enter {draft : Draft} (backed : Backed [draft.id] state)
    (here : ∃ body, state.heap.get? draft.id = some (.function body))
    (blank : draft.body.references = []) :
    Backed [] { state with draft, enclosing := state.draft :: state.enclosing } := by
  refine backed.reroot rfl rfl rfl (fun id member => ?_) fun other member => ?_
  · simp only [State.roots, Draft.roots, blank, List.nil_append, List.mem_append, List.flatMap_cons,
      List.mem_cons, List.not_mem_nil, or_false] at member ⊢
    tauto
  · rcases List.mem_cons.mp member with rfl | waiting
    · exact here
    · exact backed.functions other waiting

theorem even_openDraft (kind : FunctionKind) (name : Text) : Even (Grammar.openDraft kind name) where
  coupled {pairs left right} paced := by
    have twin := paced.twin
    unfold Grammar.openDraft
    refine coupled_bind (coupled_allocating fun a b heap heap' made made' => ?_)
    obtain ⟨more, goes, joined⟩ := twin.heap.allocated (by simp) (by simp)
      (.function ⟨.none, .empty, rfl⟩) made made'
    have moved := twin.withHeap goes
    have entered : ∀ {state : State} {heap : Heap} {id : ObjectId} (draft : Draft), Backed [] state →
        state.heap.Tidy → Heap.newFunction (fun _ => [] ++ state.roots) state.heap = .ok id heap →
        draft.id = id → draft.body.references = [] →
        Backed [] { state with heap, draft, enclosing := state.draft :: state.enclosing } := by
      intro state heap id draft backed tidy made same blank
      subst same
      have held := backed.allocated tidy made (by simp [Object.references, Prototype.references])
      exact held.enter ⟨_, Heap.get?_of_allocate made⟩ blank
    refine .both ⟨rfl, more, goes, ?_, @entered left heap a _ paced.backed twin.heap.tidy made rfl rfl,
      @entered right heap' b _ paced.backed' twin.heap.tidy' made' rfl rfl⟩
    refine { moved with draft := ⟨joined, ⟨.none, .empty, rfl⟩, ?_⟩, enclosing := ?_ }
    · dsimp only
      rw [twin.implType]
    · exact .cons moved.draft moved.enclosing

instance (kind : FunctionKind) (name : Text) : Even (Grammar.beginFunction kind name) where
  coupled {pairs left right} paced := by
    have opens := even_openDraft kind name
    rw [Grammar.beginFunction_eq]
    refine Even.andThen paced fun _ more left' right' proceeds => ?_
    refine coupled_bind (coupled_intern proceeds.paced name fun a b most left'' right'' named joined => ?_)
    have refers : ∀ {state : State} {id : ObjectId}, ∀ other ∈ Prototype.references
        { state.draft.body with name := some id },
        other ∈ [id] ∨ other ∈ state.draft.body.references := by
      intro state id other member
      simp only [Prototype.references, Option.toList_some, List.mem_append] at member ⊢
      tauto
    have twin := named.paced.twin
    refine .both ⟨rfl, most, (proceeds.goes.trans named.goes), ?_,
      named.paced.backed.withDraft rfl refers, named.paced.backed'.withDraft rfl refers⟩
    refine { twin with draft := twin.draft.withBody ⟨.some joined, twin.draft.body.constants, ?_⟩ }
    dsimp only
    rw [twin.draft.body.rest]

end Requests

section Endings

/-- A prototype that has just been finished on both sides, and its arity. -/
structure Readied (pairs : Pairing) (left right : State) (result result' : ObjectId × Nat) : Prop where
  joined : pairs result.1 result'.1
  arity : result'.2 = result.2
  here : ∃ body, left.heap.prototype? result.1 = some body
  there : ∃ body, right.heap.prototype? result'.1 = some body

/-- The prototype of the current draft is filled. It refers to what the draft has referred to. -/
theorem Backed.fill (backed : Backed [] state) :
    Backed [state.draft.id]
      { state with heap := state.heap.set state.draft.id (.function state.draft.body) } := by
  have below : ∀ other, Heap.Reaches (state.heap.set state.draft.id (.function state.draft.body)).objects
      ([state.draft.id] ++ state.roots) other → Heap.Reaches state.heap.objects state.roots other := by
    intro other reached
    refine reached.closed (fun root member => ?_) fun owner object among present next member => ?_
    · rcases List.mem_cons.mp member with rfl | inRoots
      · exact .root (mem_roots_of_draft List.mem_cons_self)
      · exact .root inRoots
    · change (state.heap.set state.draft.id (.function state.draft.body)).get? owner = some object at present
      rw [Heap.get?_set] at present
      split at present
      · obtain ⟨_, _, rfl⟩ := Option.map_eq_some_iff.mp present
        exact .root (mem_roots_of_pool (mem_pool_of_references member))
      · exact among.next present member
  refine ⟨fun other reached => ?_, backed.registered, fun draft member => ?_⟩
  · have before := backed.stocked other (below other reached)
    rw [Heap.get?_set]
    split
    · rwa [Option.isSome_map]
    · exact before
  · obtain ⟨body, here⟩ := backed.functions draft member
    change ∃ body, (state.heap.set _ _).get? _ = _
    rw [Heap.get?_set, here]
    split
    · exact ⟨_, rfl⟩
    · exact ⟨body, rfl⟩

theorem Backed.prototype_filled (backed : Backed held state) :
    (state.heap.set state.draft.id (.function state.draft.body)).prototype? state.draft.id
      = some state.draft.body := by
  obtain ⟨body, here⟩ := backed.functions state.draft List.mem_cons_self
  rw [Heap.prototype?, Heap.get?_set, if_pos rfl, here]
  rfl

theorem endFunction_eq :
    Grammar.endFunction = modifyGet fun state : State => ((state.draft.id, state.draft.body.arity),
      { state with
        heap := state.heap.set state.draft.id (.function state.draft.body)
        draft := state.enclosing.head?.getD state.draft
        enclosing := state.enclosing.tail }) := by
  unfold Grammar.endFunction
  congr 1
  funext state
  obtain ⟨_, _, _, _, _, _, _, enclosing⟩ := state
  cases enclosing <;> rfl

/-- Going on with the draft around a finished one. -/
theorem Backed.leave (backed : Backed held state) :
    Backed held { state with
      draft := state.enclosing.head?.getD state.draft, enclosing := state.enclosing.tail } := by
  refine backed.reroot rfl rfl rfl (fun id member => ?_)
    fun draft member => backed.functions draft (mem_drafts_of_waiting member)
  cases around : state.enclosing with
  | nil =>
    simp only [State.roots, around] at member ⊢
    exact member
  | cons outer rest =>
    simp only [State.roots, around, List.flatMap_cons, List.head?_cons, Option.getD_some, List.tail_cons,
      List.mem_append] at member ⊢
    tauto

theorem coupled_endFunction (paced : Paced pairs [] [] left right) :
    Coupled Grammar.endFunction Grammar.endFunction left right fun result result' left' right' =>
      Proceeds pairs left right pairs [result.1] [result'.1] left' right' ∧
        Readied pairs left' right' result result' := by
  have twin := paced.twin
  have plain : ∀ {state : State}, Backed [] state →
      ∀ text, state.heap.get? state.draft.id ≠ some (.string text) := by
    intro state backed text present
    obtain ⟨body, here⟩ := backed.functions state.draft List.mem_cons_self
    rw [here] at present
    cases present
  have goes := twin.heap.altered twin.draft.id
    (Heap.alters_set twin.heap.tidy (by simp) (plain paced.backed))
    (Heap.alters_set twin.heap.tidy' (by simp) (plain paced.backed'))
    (fun _ _ => .function twin.draft.body) (by simp) (by simp)
  have filled := twin.withHeap goes
  have ready : Readied pairs
      { left with heap := left.heap.set left.draft.id (.function left.draft.body) }
      { right with heap := right.heap.set right.draft.id (.function right.draft.body) }
      (left.draft.id, left.draft.body.arity) (right.draft.id, right.draft.body.arity) :=
    ⟨twin.draft.id, twin.draft.body.arity, ⟨_, paced.backed.prototype_filled⟩,
      ⟨_, paced.backed'.prototype_filled⟩⟩
  rw [endFunction_eq]
  refine .both ⟨⟨goes, { filled with draft := ?_, enclosing := ?_ }, paced.backed.fill.leave,
    paced.backed'.fill.leave⟩, ready.joined, ready.arity, ready.here, ready.there⟩
  all_goals
    have around := twin.enclosing
    generalize left.enclosing = ours at around ⊢
    generalize right.enclosing = theirs at around ⊢
  · cases around with
    | nil => exact twin.draft
    | cons same _ => exact same
  · cases around with
    | nil => exact .nil
    | cons _ others => exact others

/-- A new method is in use as soon as it is staged. -/
theorem Backed.stage {state : State} {prototype closure : ObjectId} {body : Prototype} {heap : Heap}
    {struct : StructId} {name trait : Text} (backed : Backed [prototype] state) (tidy : state.heap.Tidy)
    (isBody : state.heap.prototype? prototype = some body)
    (made : Heap.newClosure (fun _ => [prototype] ++ state.roots) prototype state.heap
      = .ok closure heap) :
    Backed [] { state with
      heap
      staged := { state.staged with
        methods := state.staged.methods ++ [⟨struct, name, ⟨trait, closure⟩⟩] } } := by
  rw [Heap.newClosure_eq _ isBody] at made
  have held := backed.allocated tidy made (by simp [Object.references])
  refine held.reroot rfl rfl rfl (fun id member => ?_) held.functions
  simp only [State.roots, List.map_append, List.map_cons, List.map_nil, List.nil_append, List.mem_append,
    List.mem_cons, List.cons_append, List.not_mem_nil, or_false] at member ⊢
  tauto

end Endings

end ScriptMachine.Compiler
