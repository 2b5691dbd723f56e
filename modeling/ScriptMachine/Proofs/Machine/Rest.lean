import ScriptMachine.Proofs.Machine.Safety

set_option autoImplicit false

/- The ends of runs. However a run ends, it leaves a machine that executes nothing and whose data are
in order, so that the next script can be run on it. -/
namespace ScriptMachine.Machine

variable {program : Program} {live : ObjectId → Prop} {machine : Machine}

section Reset

/-- What an aborted run leaves in a captured variable may be stored there. -/
theorem Lasting.abandoned (lasting : Lasting program live machine) {slot : Nat} {id : ObjectId}
    (member : (slot, id) ∈ machine.openCells) (isLive : live id) :
    (machine.abandonedValue slot).Kept live := by
  unfold abandonedValue
  split
  · trivial
  · next value notStack here =>
    cases value with
    | nil | bool _ | number _ => trivial
    | ref object => exact lasting.slots member isLive here
    | stack node => exact absurd rfl (notStack node)
  · trivial

/-- The open cells of a list are closed, each with the value it is given. -/
def closedWith (value : Nat → Value) (cells : List (Nat × ObjectId)) (heap : Heap) : Heap :=
  cells.foldl (fun heap (slot, cell) => heap.set cell (.cell (.closed (value slot)))) heap

theorem Stored.closedWith {value : Nat → Value} {cells : List (Nat × ObjectId)} {heap : Heap}
    (stored : Stored program live [] cells heap)
    (opened : ∀ {slot id}, (slot, id) ∈ cells → ∃ contents, heap.get? id = some (.cell contents))
    (kept : ∀ {slot id}, (slot, id) ∈ cells → live id → (value slot).Kept live) :
    Stored program live [] [] (closedWith value cells heap) ∧
      ∀ {id old}, heap.get? id = some old →
        ∃ new, (closedWith value cells heap).get? id = some new ∧ old.Alike new := by
  induction cells generalizing heap with
  | nil => exact ⟨stored, fun found => ⟨_, found, .refl _⟩⟩
  | cons entry rest ih =>
    obtain ⟨slot, cell⟩ := entry
    obtain ⟨contents, present⟩ := opened List.mem_cons_self
    have alike : (Object.cell contents).Alike (.cell (.closed (value slot))) := trivial
    have others : ∀ {id old}, heap.get? id = some old →
        ∃ new, (heap.set cell (.cell (.closed (value slot)))).get? id = some new ∧ old.Alike new := by
      intro id old found
      by_cases same : cell = id
      · subst same
        rw [present] at found
        cases found
        exact ⟨_, Heap.get?_set_self present, alike⟩
      · exact ⟨old, by rw [Heap.get?_set_of_ne same, found], .refl old⟩
    have first : Stored program live [] rest (heap.set cell (.cell (.closed (value slot)))) := by
      refine stored.set present alike rfl (fun _ _ member => member) ?_ fun isLive =>
        kept List.mem_cons_self isLive
      intro place other differs member
      rcases List.mem_cons.mp member with same | inRest
      · cases same
        exact absurd rfl differs
      · exact inRest
    obtain ⟨last, alikeLast⟩ := ih first
      (fun member => by
        obtain ⟨contents', found⟩ := opened (List.mem_cons_of_mem _ member)
        obtain ⟨new, here, same⟩ := others found
        obtain ⟨contents'', rfl⟩ := same.cell
        exact ⟨contents'', here⟩)
      fun member => kept (List.mem_cons_of_mem _ member)
    refine ⟨last, fun found => ?_⟩
    obtain ⟨middle, here, same⟩ := others found
    obtain ⟨new, here', same'⟩ := alikeLast here
    exact ⟨new, here', same.trans same'⟩

/-- A machine that was reset executes nothing, and its data are in order. -/
theorem Lasting.reset (lasting : Lasting program live machine) :
    Data program live [] { calls := [], captured := [], height := 0 } machine.reset := by
  obtain ⟨stored, alike⟩ := lasting.stored.closedWith
    (fun member => ⟨_, lasting.opened member⟩) lasting.abandoned
  have bodies : ∀ {id body}, live id → machine.heap.closurePrototype? id = some body →
      (closedWith machine.abandonedValue machine.openCells machine.heap).closurePrototype? id
        = some body :=
    fun isLive => lasting.stored.closurePrototype? stored (fun _ _ => alike) isLive isLive
  have closed : Data program live [] { calls := [], captured := [], height := 0 }
      { machine with
        heap := closedWith machine.abandonedValue machine.openCells machine.heap
        arenaBytes := 0
        openCells := []
        stack := #[]
        frames := [] } :=
    { registry := lasting.registry
      methods := fun id member => by
        obtain ⟨isLive, body, here⟩ := lasting.methods id member
        exact ⟨isLive, body, bodies isLive here⟩
      held := lasting.held
      globals := lasting.globals
      natives := lasting.natives
      stored
      calls := .nil
      captured := rfl
      descending := .nil
      cells := fun member => by cases member
      size := rfl
      values := fun here => by simp at here
      fitting := fun struct member => by cases member
      unique := fun id => by simp [nodeIds, arenas, StackStruct.idsAmong]
      numbered := fun id member => by simp [nodeIds, arenas, StackStruct.idsAmong] at member }
  exact closed.recount rfl rfl rfl

theorem Intact.rested (intact : Intact program machine) : Rested program machine.reset := by
  obtain ⟨live, lasting⟩ := intact
  exact ⟨live, lasting.reset⟩

end Reset

section Ends

/-- What a run leaves: a machine that can go on when the run has not ended, and otherwise one that
executes nothing. -/
structure Outcome.Settles (program : Program) (result : Outcome × Machine) : Prop where
  right : result.1 ≠ .wrong
  running : result.1 = .paused → Machine.Sound program result.2
  rested : result.1 ≠ .paused → Rested program result.2

theorem Outcome.Settles.faulted {error : RuntimeError} (intact : Intact program machine) :
    Outcome.Settles program (.faulted error, machine.reset) :=
  ⟨by simp, by simp, fun _ => intact.rested⟩

theorem run_settles (steps : Nat) : ∀ {machine : Machine}, Sound program machine →
    Outcome.Settles program (run steps machine) := by
  induction steps with
  | zero => exact fun sound => ⟨by simp [run], fun _ => sound, by simp [run]⟩
  | succ steps ih =>
    intro machine sound
    have safe := safe_step sound
    unfold Safe at safe
    rw [run]
    cases result : step machine with
    | ok progress after =>
      rw [result] at safe
      cases progress with
      | running => exact ih safe
      | finished => exact ⟨by simp, by simp, fun _ => safe⟩
    | error stop after =>
      rw [result] at safe
      cases stop with
      | fault error => exact .faulted safe.2
      | wrong => exact safe.elim

/-- A machine can call any live script that captures nothing, whatever it has been doing before. -/
theorem Lasting.enters {script : ObjectId} {body : Prototype}
    (lasting : Lasting program live machine) (isLive : live script)
    (present : machine.heap.get? script = some (.function body)) (complete : body.captures = #[]) :
    Safe program (enter script) machine fun _ after => Sound program after := by
  obtain ⟨_, alike⟩ := lasting.stored.closedWith
    (fun member => ⟨_, lasting.opened member⟩) lasting.abandoned
  obtain ⟨new, found, same⟩ := alike present
  rw [same.code rfl] at found
  have isScript : machine.reset.heap.get? script = some (.function body) := found
  exact safe_enter lasting.reset isLive (by rw [Heap.prototype?, isScript]) (by rw [complete]; rfl)

theorem Lasting.interpret {script : ObjectId} {body : Prototype}
    (lasting : Lasting program live machine) (isLive : live script)
    (present : machine.heap.get? script = some (.function body)) (complete : body.captures = #[])
    (steps : Nat) : Outcome.Settles program (interpret machine script steps) := by
  have safe := lasting.enters isLive present complete
  unfold Safe at safe
  rw [Machine.interpret]
  cases result : enter script machine with
  | ok _ after =>
    rw [result] at safe
    exact run_settles steps safe
  | error stop after =>
    rw [result] at safe
    cases stop with
    | fault error => exact .faulted safe.2
    | wrong => exact safe.elim

end Ends

end ScriptMachine.Machine
