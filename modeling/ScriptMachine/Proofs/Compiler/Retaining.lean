import ScriptMachine.Proofs.Compiler.Growth
import ScriptMachine.Proofs.Heap.Retained

set_option autoImplicit false

/- A compilation works on new objects only. Whether it succeeds, is rejected or stops for lack of
room, all that was in use outside of it is there as before. -/
namespace ScriptMachine.Compiler

/-- A compilation in a heap that was `origin` at its beginning. Its drafts stand for objects that
have been allocated since. -/
structure Secure (origin : Heap) (outside : List ObjectId) (state : State) : Prop where
  around : state.outside = outside
  tidy : state.heap.Tidy
  retains : Heap.Retains outside origin state.heap
  drafts : ∀ draft ∈ state.drafts, origin.nextId ≤ draft.id ∧ draft.id < state.heap.nextId ∧
    ∀ text, state.heap.get? draft.id ≠ some (.string text)

variable {origin : Heap} {outside : List ObjectId} {state : State}

theorem mem_roots_of_outside {id : ObjectId} (member : id ∈ state.outside) : id ∈ state.roots := by
  simp only [State.roots, List.mem_append]
  tauto

/-- Another heap, in which objects have been allocated and maybe collected. -/
theorem Secure.withHeap {heap : Heap} (secure : Secure origin outside state) (tidy : heap.Tidy)
    (retains : Heap.Retains outside origin heap) (later : Heap.Retains [] state.heap heap) :
    Secure origin outside { state with heap } where
  around := secure.around
  tidy := tidy
  retains := retains
  drafts draft member := by
    obtain ⟨new, below, plain⟩ := secure.drafts draft member
    refine ⟨new, Nat.lt_of_lt_of_le below later.grown, fun text found => ?_⟩
    exact plain text (later.old below found)

theorem bounded_nil (heap : Heap) : heap.Bounded [] := by
  intro id reached
  obtain ⟨root, member, _⟩ := reached.single
  cases member

theorem Secure.allocate (secure : Secure origin outside state) (bounded : origin.Bounded outside)
    {object : Object} (plain : ∀ text, object ≠ .string text) {roots : Unit → List ObjectId}
    (among : ∀ id ∈ state.roots, id ∈ roots ()) :
    Secure origin outside
      { state with heap := stateLeft (Heap.allocate roots object state.heap) } := by
  refine secure.withHeap (secure.tidy.allocate plain _) ?_ ?_
  · refine secure.retains.allocate bounded (fun id member => among id ?_) object
    exact mem_roots_of_outside (secure.around ▸ member)
  · exact (Heap.Retains.refl [] state.heap).allocate (bounded_nil _) (by simp) object

/-- A new prototype gets the next identifier. -/
theorem newFunction_eq {roots : Unit → List ObjectId} {heap after : Heap} {id : ObjectId}
    (allocated : Heap.newFunction roots heap = .ok id after) :
    id = heap.nextId ∧ after.nextId = heap.nextId + 1 ∧ after.get? id = some (.function {}) := by
  rw [Heap.newFunction, Heap.allocate_eq] at allocated
  dsimp only at allocated
  split at allocated
  · cases allocated
  · cases allocated
    refine ⟨Heap.prepared_nextId _ _ _, ?_, Heap.get?_link_self _ _⟩
    change (heap.prepared _ _).nextId + 1 = _
    rw [Heap.prepared_nextId]

theorem tidy_newFunction {roots : Unit → List ObjectId} {heap after : Heap} {id : ObjectId}
    (tidy : heap.Tidy) (allocated : Heap.newFunction roots heap = .ok id after) : after.Tidy := by
  have left : (stateLeft (Heap.newFunction roots heap)).Tidy := tidy.allocate (by simp) _
  rwa [allocated] at left

/-- The drafts that are left when the innermost function is complete. -/
theorem mem_drafts_of_waiting {draft : Draft}
    (member : draft ∈ state.enclosing.head?.getD state.draft :: state.enclosing.tail) :
    draft ∈ state.drafts := by
  rw [State.drafts]
  cases around : state.enclosing with
  | nil =>
    rw [around] at member
    simpa using member
  | cons outer rest =>
    rw [around] at member
    exact List.mem_cons_of_mem _ (by simpa using member)

theorem Secure.change (bounded : origin.Bounded outside) {before after : State}
    (change : Change before after) (secure : Secure origin outside before) :
    Secure origin outside after := by
  have same : ∀ draft : Draft, draft.id = before.draft.id → ∀ other ∈ draft :: before.enclosing,
      origin.nextId ≤ other.id ∧ other.id < before.heap.nextId ∧
        ∀ text, before.heap.get? other.id ≠ some (.string text) := by
    intro draft isSame other member
    rcases List.mem_cons.mp member with rfl | later
    · rw [isSame]
      exact secure.drafts before.draft List.mem_cons_self
    · exact secure.drafts other (List.mem_cons_of_mem _ later)
  cases change with
  | report | calm | move | settle | declare => exact { secure with }
  | function => exact secure.allocate bounded (by simp) fun _ member => member
  | string text =>
    have among : ∀ id ∈ outside, id ∈ before.roots :=
      fun id member => mem_roots_of_outside (secure.around ▸ member)
    refine secure.withHeap (secure.tidy.interning _ _) ?_ ?_
    · exact secure.retains.intern bounded among text
    · exact (Heap.Retains.refl [] before.heap).intern (bounded_nil _) (by simp) text
  | closure prototype =>
    exact secure.allocate bounded (by simp) fun _ member => List.mem_cons_of_mem _ member
  | scope | constant => exact { secure with drafts := same _ rfl }
  | body body isSame => exact { secure with drafts := same _ rfl }
  | capture name =>
    refine { secure with drafts := fun draft member => ?_ }
    have ids := capture_map Draft.id addCapture_id (fun _ _ _ => rfl) name before.draft
      before.enclosing
    have inList := List.mem_map_of_mem (f := Draft.id) member
    rw [State.drafts, ids] at inList
    obtain ⟨old, inDrafts, isSame⟩ := List.mem_map.mp inList
    rw [← isSame]
    exact secure.drafts old inDrafts
  | @enter draft heap allocated blank =>
    have among : ∀ id ∈ before.roots, id ∈ before.roots := fun _ member => member
    have secure' : Secure origin outside
        { before with heap := stateLeft (Heap.newFunction (fun _ => before.roots) before.heap) } :=
      secure.allocate bounded (by simp) among
    obtain ⟨isNext, grown, placed⟩ := newFunction_eq allocated
    rw [allocated] at secure'
    dsimp only [stateLeft] at secure'
    refine { secure' with drafts := fun other member => ?_ }
    rcases List.mem_cons.mp member with rfl | waiting
    · refine ⟨?_, ?_, ?_⟩
      · rw [isNext]
        exact secure.retains.grown
      · rw [isNext, grown]
        exact Nat.lt_succ_self _
      · intro text found
        change heap.get? _ = _ at found
        rw [placed] at found
        cases found
    · exact secure'.drafts other waiting
  | leave =>
    obtain ⟨new, below, plain⟩ := secure.drafts before.draft List.mem_cons_self
    refine ⟨secure.around, secure.tidy.set (by simp) plain, secure.retains.set bounded new _,
      fun draft member => ?_⟩
    obtain ⟨new', below', plain'⟩ := secure.drafts draft (mem_drafts_of_waiting member)
    refine ⟨new', below', fun text found => ?_⟩
    change (before.heap.set _ _).get? _ = _ at found
    rw [Heap.get?_set] at found
    split at found
    · obtain ⟨_, _, isString⟩ := Option.map_eq_some_iff.mp found
      cases isString
    · exact plain' text found

section Units

variable {registry : Registry} {tokens : List Token}

/-- What every change keeps, and the end of a unit too, holds of the heap that a compilation
leaves. -/
theorem compile_keeps {inv : State → Prop} {good : Heap → Prop}
    (each : ∀ before after, Change before after → inv before → inv after)
    (allocated : good (stateLeft (Heap.newFunction (fun _ => outside) origin)))
    (starts : ∀ {id heap}, Heap.newFunction (fun _ => outside) origin = .ok id heap →
      inv { heap, registry, outside, cursor := .start tokens
            draft := { id, kind := .script, name := ascii "script", body := {},
                       locals := [{ name := [], depth := some 0 }] } })
    (left : ∀ {state}, inv state → good state.heap)
    (ends : ∀ {state}, inv state →
      good (state.heap.set state.draft.id (.function state.draft.body))) :
    good (compile origin registry outside tokens).1 := by
  unfold compile
  split
  · next ran => rwa [ran] at allocated
  · next id heap ran =>
    have kept := unit_keeps each (starts ran) (depthFor tokens.length)
    dsimp only
    split
    · next state ran =>
      rw [ran] at kept
      unfold finish
      split
      · split
        · exact ends kept
        · exact left kept
      · exact left kept
    · next ran =>
      rw [ran] at kept
      exact left kept
    · next ran =>
      rw [ran] at kept
      exact left kept

/-- The prototype of the script is the first object of a compilation. -/
theorem secure_begun (tidy : origin.Tidy) (bounded : origin.Bounded outside) {id : ObjectId}
    {heap : Heap} (ran : Heap.newFunction (fun _ => outside) origin = .ok id heap) :
    Secure origin outside
      { heap, registry, outside, cursor := .start tokens
        draft := { id, kind := .script, name := ascii "script", body := {},
                   locals := [{ name := [], depth := some 0 }] } } := by
  have retained : Heap.Retains outside origin
      (stateLeft (Heap.newFunction (fun _ => outside) origin)) :=
    (Heap.Retains.refl outside origin).allocate bounded (fun _ member => member) (.function {})
  have isTidy : (stateLeft (Heap.newFunction (fun _ => outside) origin)).Tidy :=
    tidy.allocate (by simp) _
  obtain ⟨isNext, grown, placed⟩ := newFunction_eq ran
  rw [ran] at retained isTidy
  refine ⟨rfl, isTidy, retained, fun draft member => ?_⟩
  rw [List.mem_singleton.mp member]
  refine ⟨Nat.le_of_eq isNext.symm, ?_, fun text found => ?_⟩
  · rw [isNext, grown]
    exact Nat.lt_succ_self _
  · rw [placed] at found
    cases found

/-- However a compilation ends, what is reached from outside is as it was, and the table of objects
is in order. -/
theorem compile_retains (tidy : origin.Tidy) (bounded : origin.Bounded outside) :
    Heap.Retains outside origin (compile origin registry outside tokens).1 ∧
      (compile origin registry outside tokens).1.Tidy := by
  have allocated : Heap.Retains outside origin
      (stateLeft (Heap.newFunction (fun _ => outside) origin)) :=
    (Heap.Retains.refl outside origin).allocate bounded (fun _ member => member) (.function {})
  refine @compile_keeps origin outside registry tokens (Secure origin outside)
    (fun heap => Heap.Retains outside origin heap ∧ heap.Tidy) (fun _ _ => Secure.change bounded)
    ⟨allocated, tidy.allocate (by simp) _⟩ (secure_begun tidy bounded)
    (fun secure => ⟨secure.retains, secure.tidy⟩) fun {state} secure => ?_
  obtain ⟨new, _, plain⟩ := secure.drafts state.draft List.mem_cons_self
  exact ⟨secure.retains.set bounded new _, secure.tidy.set (by simp) plain⟩

/-- A compilation makes no cells. -/
theorem compile_cells : Heap.CellsOf origin (compile origin registry outside tokens).1 := by
  have allocated : Heap.CellsOf origin (stateLeft (Heap.newFunction (fun _ => outside) origin)) :=
    (Heap.CellsOf.refl origin).allocate (by simp)
  refine @compile_keeps origin outside registry tokens (fun state => Heap.CellsOf origin state.heap)
    (Heap.CellsOf origin) (fun before after change cells => ?_) allocated (fun {id heap} ran => ?_)
    (fun cells => cells) fun cells => cells.set (by simp)
  · cases change with
    | report | calm | move | settle | declare | scope | body | constant | capture => exact cells
    | function => exact cells.allocate (by simp)
    | string text => exact cells.intern text
    | closure prototype => exact cells.allocate (by simp)
    | enter ran _ =>
      have entered : Heap.CellsOf origin
          (stateLeft (Heap.newFunction (fun _ => before.roots) before.heap)) :=
        cells.allocate (by simp)
      rwa [ran] at entered
    | leave => exact cells.set (by simp)
  · rwa [ran] at allocated

end Units

end ScriptMachine.Compiler
