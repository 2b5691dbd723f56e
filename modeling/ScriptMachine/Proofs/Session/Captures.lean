import ScriptMachine.Proofs.Code.Pieces
import ScriptMachine.Proofs.Machine.Variables
import ScriptMachine.Proofs.Session.Histories

set_option autoImplicit false

/- Captured variables through the life of a session. In a history a variable is a slot at a moment,
and stays the same variable until an instruction or the end of the unit gives the slot up. Two
closures share a cell when it is the cell of one variable, and only then. -/
namespace ScriptMachine

namespace Machine

section Resets

variable {released : Nat → Prop} {before after : Machine} {heap : Heap}

theorem Passes.of_steady (steady : Steady before.heap after.heap)
    (same : after.openCells = before.openCells) : Passes (fun _ => False) before after :=
  ⟨steady, fun member _ => same ▸ member, fun member => Or.inl ⟨same ▸ member, id⟩⟩

theorem Passes.of_closed (steady : Steady before.heap after.heap) (closed : after.openCells = [])
    (all : ∀ {slot cell}, (slot, cell) ∈ before.openCells → released slot) :
    Passes released before after := by
  refine ⟨steady, fun member unreleased => absurd (all member) unreleased, fun member => ?_⟩
  rw [closed] at member
  cases member

theorem Passes.of_same {other : Machine} (passes : Passes released before after)
    (steady : Steady after.heap other.heap) (same : other.openCells = after.openCells) :
    Passes released before other :=
  ⟨passes.steady.trans steady, fun member unreleased => same ▸ passes.kept member unreleased,
    fun member => passes.origin (same ▸ member)⟩

theorem Passes.unreleased (passes : Passes (fun _ => False) before after)
    (unreleased : ∀ slot, ¬ released slot) : Passes released before after :=
  ⟨passes.steady, fun member _ => passes.kept member id, fun member =>
    (passes.origin member).imp_left fun old => ⟨old.1, unreleased _⟩⟩

theorem steady_closedWith (value : Nat → Value) (cells : List (Nat × ObjectId)) (heap : Heap) :
    Steady heap (closedWith value cells heap) := by
  induction cells generalizing heap with
  | nil => exact .refl heap
  | cons entry rest ih =>
    exact ((Steady.refl heap).setCell entry.2 (.closed (value entry.1))).trans (ih _)

theorem steady_reset (machine : Machine) : Steady machine.heap machine.reset.heap := by
  have closed := steady_closedWith machine.abandonedValue machine.openCells machine.heap
  exact ⟨closed.grown, closed.closures⟩

/-- A script begins with no open cells. -/
theorem steady_interpret {machine : Machine} {script : ObjectId}
    (right : (machine.interpret script 0).1 ≠ .wrong) :
    Steady machine.heap (machine.interpret script 0).2.heap ∧
      (machine.interpret script 0).2.openCells = [] := by
  have leads := @leads_enter machine script
  rw [interpret] at right ⊢
  cases entered : enter script machine with
  | ok _ after =>
    rw [Leads, entered] at leads
    obtain ⟨middle, closure, touches, rfl⟩ := leads
    obtain ⟨steady, cells⟩ := Touches.steady touches id
    exact ⟨(steady_reset machine).trans steady, cells⟩
  | error stop after =>
    rw [Leads, entered] at leads
    rw [entered] at right
    cases stop with
    | fault error =>
      obtain ⟨steady, _⟩ := Touches.steady leads.1 id
      exact ⟨((steady_reset machine).trans steady).trans (steady_reset after), rfl⟩
    | wrong => exact absurd rfl right

end Resets

/-- One instruction hands on the captured variables whose slots are still there and that it does not
give up. The end of a run gives up all slots. -/
theorem Usable.passes_run {machine : Machine} (usable : Usable machine) :
    Passes (fun slot => machine.spared ≤ slot ∨ (machine.run 1).2.stack.size ≤ slot) machine
      (machine.run 1).2 := by
  have inside : ∀ {slot cell}, (slot, cell) ∈ (machine.run 1).2.openCells →
      slot < (machine.run 1).2.stack.size := by
    intro slot cell member
    obtain ⟨_, _, _, _, data⟩ := (usable.run 1).data
    exact data.size ▸ (data.cells member).1
  have ended : ∀ {last : Machine}, Steady machine.heap last.heap →
      Passes (fun slot => machine.spared ≤ slot ∨ last.reset.stack.size ≤ slot) machine last.reset :=
    fun steady => .of_closed (steady.trans (steady_reset _)) rfl fun _ => Or.inr (Nat.zero_le _)
  obtain ⟨program, proper, sound | rested⟩ := usable.runs
  · cases ran : step machine with
    | ok progress after =>
      have isRun : (machine.run 1).2 = after := by
        rw [Machine.run, ran]
        cases progress <;> rfl
      rw [isRun] at inside ⊢
      exact sound.passes usable.poised.filed ran inside
    | error stop after =>
      have safe := safe_step sound
      rw [Safe, ran] at safe
      cases stop with
      | fault error =>
        have isRun : (machine.run 1).2 = after.reset := by rw [Machine.run, ran]
        obtain ⟨frame, waiting, body, code, atCode⟩ := sound.atCode
        obtain ⟨live, shape, data, _⟩ := sound
        have handles := atCode.handles data usable.poised.filed
        rw [Leads, ran] at handles
        rw [isRun]
        exact ended handles.1
      | wrong => exact safe.elim
  · have isRun : (machine.run 1).2 = machine.reset := by rw [Machine.run, step_rested rested]
    rw [isRun]
    exact ended (.refl _)

end Machine

namespace Session

open Machine (Passes Steady Launches Made AtCode)

/-- The slots that are given up in an event. A new unit gives up all of them. -/
def released (session : Session) : Event → Nat → Prop
  | .resume time, slot => session.machine.spared ≤ slot ∨
      (session.resume time 1).1.machine.stack.size ≤ slot
  | event, _ => (event.source?.bind session.launched).isSome

section Events

variable {session next : Session} {event : Event}

theorem passes_define {native : Native} (defined : session.define native = .ok next) :
    Passes (fun _ => False) session.machine next.machine := by
  unfold define at defined
  rcases Machine.defineNative_cases native session.machine with ⟨_, _, _, failed⟩ |
    ⟨key, named, id, heap, interned, allocated, isDefined⟩
  · rw [failed] at defined
    cases defined
  rw [isDefined] at defined
  cases defined
  have first := (inferInstance : Machine.Touching .none
    (Machine.allocating [] (Heap.intern · native.name))).leads session.machine
  rw [Machine.leads_allocating, interned] at first
  have second := (Machine.touching_allocate [key] (by simp) (by simp) : Machine.Touching .none
    (Machine.allocating [key] (Heap.allocate · (.native native)))).leads
      { session.machine with heap := named }
  rw [Machine.leads_allocating, allocated] at second
  obtain ⟨steady, _⟩ := Machine.Touches.steady (first.trans second) False.elim
  exact .of_steady steady rfl

theorem steady_drained (session : Session) (time : Text) :
    Steady session.machine.heap (session.drained time).machine.heap :=
  ⟨Nat.le_refl _, fun _ found => found⟩

theorem machine_rejected (session : Session) (time : Text) (failure : Compiler.Failure) :
    Steady session.machine.heap (session.rejected time failure).1.machine.heap ∧
      (session.rejected time failure).1.machine.openCells = session.machine.openCells := by
  cases failure <;> exact ⟨⟨Nat.le_refl _, fun _ found => found⟩, rfl⟩

theorem machine_concluded (session : Session) (time : Text) (result : Machine.Outcome × Machine) :
    Steady result.2.heap (session.concluded time result).1.machine.heap ∧
      (session.concluded time result).1.machine.openCells = result.2.openCells ∧
      (session.concluded time result).1.machine.stack = result.2.stack := by
  obtain ⟨outcome, machine⟩ := result
  cases outcome <;> exact ⟨⟨Nat.le_refl _, fun _ found => found⟩, rfl, rfl⟩

/-- A unit that is launched closes what was open, and one that is not leaves it. -/
theorem passes_interpret (usable : Machine.Usable session.machine)
    (plain : session.machine.heap.Plain) (time source : Text) :
    Passes (fun _ => (session.launched source).isSome) session.machine
      (session.interpret time source 0).1.machine := by
  obtain ⟨_, _, _, _, data⟩ := usable.data
  obtain ⟨retains, _⟩ := @Compiler.compile_retains session.machine.heap session.machine.roots
    session.machine.registry (Token.scan source) data.stored.tidy data.bounded
  have compiled := Steady.of_retains retains
  cases isLaunched : session.launched source with
  | none =>
    obtain ⟨failure, isRejected⟩ := @interpret_of_rejected _ time _ 0 isLaunched
    rw [isRejected]
    obtain ⟨steady, cells⟩ := machine_rejected
      { session with
        lastError := []
        machine := { session.machine with
          heap := (Compiler.compileSource session.machine.heap session.machine.registry
            session.machine.roots source).1 } } time failure
    simpa using Passes.of_steady (compiled.trans steady) cells
  | some unit =>
    obtain ⟨machine, script⟩ := unit
    have launches := launches_of_launched usable plain isLaunched
    obtain ⟨begun, closed⟩ := Machine.steady_interpret (launches.interpret 0).2
    rw [interpret_of_launched isLaunched]
    obtain ⟨_, _, isMachine⟩ := machine_of_launched isLaunched
    have isHeap := congrArg Machine.heap isMachine
    rw [isHeap] at begun
    obtain ⟨steady, cells, _⟩ := machine_concluded { session with lastError := [], machine } time
      (machine.interpret script 0)
    exact .of_closed (compiled.trans (begun.trans steady)) (cells.trans closed) fun _ => rfl

theorem passes_resume (reachable : Reachable session) (time : Text) :
    Passes (fun slot => session.machine.spared ≤ slot ∨
        (session.resume time 1).1.machine.stack.size ≤ slot)
      session.machine (session.resume time 1).1.machine := by
  obtain ⟨steady, cells, stack⟩ := machine_concluded session time (session.machine.run 1)
  have passes := reachable.usable.passes_run
  rw [← stack] at passes
  exact passes.of_same steady cells

/-- Every event hands on the captured variables whose slots it does not give up. -/
theorem passes_after (reachable : Reachable session) (leads : session.after event = .ok next) :
    Passes (session.released event) session.machine next.machine := by
  cases event with
  | define native => exact (passes_define leads).unreleased fun _ => Bool.false_ne_true
  | interpret time source =>
    cases leads
    exact passes_interpret reachable.usable reachable.confined.heap time source
  | interpretFile time path source =>
    cases leads
    cases source with
    | none =>
      have passes : Passes (fun _ => False) session.machine
          (session.interpretFile time path none 0).1.machine :=
        .of_steady ⟨Nat.le_refl _, fun _ found => found⟩ rfl
      exact passes.unreleased fun _ => Bool.false_ne_true
    | some source =>
      let opened := { session with journal := session.journal.addContext (ascii "script") path }
      have passes := @passes_interpret opened reachable.usable reachable.confined.heap time source
      have same : opened.launched source = session.launched source := launched_addContext ..
      rw [same] at passes
      exact passes
  | resume time =>
    cases leads
    exact passes_resume reachable time
  | collect time =>
    cases leads
    have passes : Passes (fun _ => False) session.machine (session.collected time).machine := by
      refine .of_steady ⟨Nat.le_of_eq Heap.collect_nextId.symm, fun _ found => ?_⟩ rfl
      exact (Heap.get?_collect.mp found).1
    exact passes.unreleased fun _ => Bool.false_ne_true
  | takeOutput =>
    cases leads
    have passes : Passes (fun _ => False) session.machine session.takeOutput.2.machine :=
      .of_steady (.refl _) rfl
    exact passes.unreleased fun _ => Bool.false_ne_true
  | takeEntries =>
    cases leads
    have passes : Passes (fun _ => False) session.machine session.takeEntries.2.machine :=
      .of_steady (.refl _) rfl
    exact passes.unreleased fun _ => Bool.false_ne_true

end Events

section Variables

open Machine (Fills)

/-- The variable that is in a stack slot at some moment. -/
structure Variable where
  slot : Nat
  time : Nat

namespace History

variable {history : History} {slot first last : Nat} {cell : ObjectId}

/-- The cell that is open for a variable. -/
def IsCell (history : History) (named : Variable) (cell : ObjectId) : Prop :=
  (named.slot, cell) ∈ (history.machine named.time).openCells

/-- The slots that are given up from one moment to the next. -/
def released (history : History) (time slot : Nat) : Prop :=
  (history.moment time).released (history.event time) slot

/-- One variable, seen at two moments: its slot is not given up in between. -/
def Same (history : History) (one other : Variable) : Prop :=
  one.slot = other.slot ∧ ∀ time, min one.time other.time ≤ time →
    time < max one.time other.time → ¬ history.released time one.slot

theorem passes (history : History) (time : Nat) :
    Passes (history.released time) (history.machine time) (history.machine (time + 1)) :=
  passes_after (history.reachable time) (history.goesOn time)

theorem steady (history : History) (before : first ≤ last) :
    Steady (history.machine first).heap (history.machine last).heap := by
  induction last, before using Nat.le_induction with
  | base => exact .refl _
  | succ last _ ih => exact ih.trans (history.passes last).steady

theorem IsCell.present {named : Variable} (isCell : history.IsCell named cell) :
    (history.machine named.time).heap.get? cell = some (.cell (.onStack named.slot)) := by
  obtain ⟨_, _, _, _, data⟩ := (history.usable named.time).data
  exact (data.cells isCell).2.2

theorem IsCell.below {named : Variable} (isCell : history.IsCell named cell) :
    cell < (history.machine named.time).heap.nextId :=
  (history.usable named.time).poised.filed.tidy.bounded isCell.present

/-- A variable has its cell for as long as its slot is not given up. -/
theorem IsCell.kept (isCell : history.IsCell ⟨slot, first⟩ cell) (before : first ≤ last)
    (unreleased : ∀ time, first ≤ time → time < last → ¬ history.released time slot) :
    history.IsCell ⟨slot, last⟩ cell := by
  induction last, before using Nat.le_induction with
  | base => exact isCell
  | succ last before ih =>
    have still := ih fun time after earlier => unreleased time after (Nat.lt_succ_of_lt earlier)
    exact (history.passes last).kept still (unreleased last before (Nat.lt_succ_self last))

/-- A cell that was there before was the cell of the same variable. -/
theorem IsCell.origin (isCell : history.IsCell ⟨slot, last⟩ cell) (before : first ≤ last)
    (old : cell < (history.machine first).heap.nextId) :
    history.IsCell ⟨slot, first⟩ cell ∧
      ∀ time, first ≤ time → time < last → ¬ history.released time slot := by
  induction last, before using Nat.le_induction with
  | base => exact ⟨isCell, fun time after earlier => absurd earlier (Nat.not_lt_of_le after)⟩
  | succ last before ih =>
    have grown := (history.steady before).grown
    rcases (history.passes last).origin isCell with ⟨listed, unreleased⟩ | new
    · obtain ⟨isCell, others⟩ := ih listed
      refine ⟨isCell, fun time after earlier => ?_⟩
      rcases Nat.lt_succ_iff_lt_or_eq.mp earlier with sooner | rfl
      · exact others time after sooner
      · exact unreleased
    · exact absurd (Nat.lt_of_lt_of_le old grown) (Nat.not_lt_of_le new)

theorem IsCell.unique {named : Variable} {other : ObjectId}
    (isCell : history.IsCell named cell) (isCell' : history.IsCell named other) :
    cell = other := by
  obtain ⟨_, _, _, _, data⟩ := (history.usable named.time).data
  have descending := data.descending
  rw [← data.captured] at descending
  have distinct : ((history.machine named.time).openCells.map Prod.fst).Nodup :=
    descending.imp Nat.ne_of_gt
  exact congrArg Prod.snd (List.inj_on_of_nodup_map distinct isCell isCell' rfl)

theorem IsCell.eq_iff_of_le {one other : Variable} {cell' : ObjectId}
    (isCell : history.IsCell one cell) (isCell' : history.IsCell other cell')
    (before : one.time ≤ other.time) : cell = cell' ↔ history.Same one other := by
  obtain ⟨slot, first⟩ := one
  obtain ⟨slot', last⟩ := other
  dsimp only at before
  rw [Same]
  dsimp only
  rw [Nat.min_eq_left before, Nat.max_eq_right before]
  constructor
  · rintro rfl
    obtain ⟨earlier, unreleased⟩ := isCell'.origin before isCell.below
    have same : slot = slot' := by
      have present := isCell.present
      rw [earlier.present] at present
      cases present
      rfl
    subst same
    exact ⟨rfl, unreleased⟩
  · rintro ⟨rfl, unreleased⟩
    exact (isCell.kept before unreleased).unique isCell'

/-- Variables have the same cell when they are one variable, and only then. -/
theorem IsCell.eq_iff {one other : Variable} {cell' : ObjectId}
    (isCell : history.IsCell one cell) (isCell' : history.IsCell other cell') :
    cell = cell' ↔ history.Same one other := by
  rcases Nat.le_total one.time other.time with before | after
  · exact isCell.eq_iff_of_le isCell' before
  · have swapped := isCell'.eq_iff_of_le isCell after
    have symmetric : history.Same other one ↔ history.Same one other := by
      unfold Same
      rw [Nat.min_comm, Nat.max_comm]
      constructor <;> rintro ⟨same, unreleased⟩ <;> exact ⟨same.symm, same ▸ unreleased⟩
    rw [eq_comm, swapped, symmetric]

end History

end Variables

section Closures

open Machine (Fills fetch step fetched)

namespace History

variable {history : History} {time : Nat} {site : Machine.Site} {inner : Prototype}
  {closure : ObjectId}

/-- At a moment a closure of the prototype `inner` is made and put on the stack. -/
structure Makes (history : History) (time : Nat) (site : Machine.Site) (inner : Prototype)
    (closure : ObjectId) : Prop where
  instruction : ∃ code later, fetch (history.machine time) = .ok (site, code) later ∧
    code.op = .closure ∧ site.prototype.Makes (history.machine time).heap code.a inner
  runs : ∃ clock, (history.moment time).resume clock 1 = (history.moment (time + 1), .running)
  top : (history.machine (time + 1)).stack.back? = some (.ref closure)

/-- The variable that a closure captures with one of its captures. It is a variable of the frame
that makes the closure, or one that the closure of this frame captures. -/
inductive Denotes (history : History) : ObjectId → Nat → Variable → Prop where
  | own {time index : Nat} {site : Machine.Site} {inner : Prototype} {closure : ObjectId}
      {capture : Capture} : history.Makes time site inner closure →
      inner.captures[index]? = some capture → capture.isLocal = true →
      Denotes history closure index ⟨site.frame.base + capture.index, time + 1⟩
  | outer {time index : Nat} {site : Machine.Site} {inner : Prototype} {closure : ObjectId}
      {capture : Capture} {named : Variable} : history.Makes time site inner closure →
      inner.captures[index]? = some capture → capture.isLocal = false →
      Denotes history site.frame.closure capture.index named → Denotes history closure index named

/-- Only an instruction that leaves the unit running ends with this status. -/
theorem stepped_of_resume {session next : Session} {clock : Text}
    (resumed : session.resume clock 1 = (next, .running)) :
    ∃ after, step session.machine = .ok .running after ∧
      next = { session with machine := after }.drained clock := by
  unfold resume Machine.run at resumed
  cases ran : step session.machine with
  | ok progress after =>
    rw [ran] at resumed
    cases progress with
    | running =>
      cases resumed
      exact ⟨after, rfl, rfl⟩
    | finished => cases resumed
  | error stop after =>
    rw [ran] at resumed
    cases stop with
    | fault error => cases resumed
    | wrong => cases resumed

/-- What a new closure has been filled with. -/
theorem Makes.filled (makes : history.Makes time site inner closure) :
    (history.machine time).heap.nextId ≤ closure ∧
    ∃ maker outer prototype upvalues,
      (history.machine time).heap.get? site.frame.closure = some (.closure maker outer) ∧
      (history.machine (time + 1)).heap.get? closure = some (.closure prototype upvalues) ∧
      ∀ (index : Nat) (capture : Capture), inner.captures[index]? = some capture →
        Fills site.frame.base outer (history.machine (time + 1)).openCells capture
          upvalues[index]? := by
  obtain ⟨⟨code, later, isFetched, isClosure, makes⟩, ⟨clock, resumed⟩, top⟩ := makes
  obtain ⟨after, stepped, next⟩ := stepped_of_resume resumed
  have isNext : history.machine (time + 1)
      = ({ history.moment time with machine := after }.drained clock).machine := by
    rw [machine, next]
  rw [isNext] at top ⊢
  obtain ⟨program, proper, sound | rested⟩ := (history.usable time).runs
  · obtain ⟨frame, waiting, body, known, atCode⟩ := sound.atCode
    obtain ⟨live, shape, data, _⟩ := sound
    have isHere : fetch (history.machine time)
        = .ok (⟨frame, body⟩, known) (fetched (history.machine time) frame waiting) := by
      simp only [fetch, atCode.frames, atCode.isBody, atCode.here, fetched]
    rw [isHere] at isFetched
    cases isFetched
    have handles := atCode.handles data (history.usable time).poised.filed
    rw [Machine.Leads, machine, stepped] at handles
    cases handles with
    | mild moves _ _ => simp [isClosure, Opcode.movesCells] at moves
    | closes isClose _ => cases isClose.symm.trans isClosure
    | returns isReturn _ => cases isReturn.symm.trans isClosure
    | @makes maker made outer other _ found makes' isMade =>
      cases Prototype.makes_unique makes makes'
      have same : made = closure := by
        have isTop : after.stack.back? = some (.ref closure) := top
        rw [isMade.stack, Array.back?_push] at isTop
        cases isTop
        rfl
      subst same
      obtain ⟨prototype, upvalues, isFilled, fills⟩ := isMade.upvalues
      exact ⟨isMade.new, maker, outer, prototype, upvalues, found, isFilled, fills⟩
  · have nothing : (history.machine time).frames = [] := by
      obtain ⟨live, data⟩ := rested
      exact List.forall₂_nil_right_iff.mp data.calls
    simp only [fetch, nothing] at isFetched
    cases isFetched

/-- A closure has the captures that it was made with. -/
theorem Makes.lasting (makes : history.Makes time site inner closure) {later : Nat}
    {prototype : ObjectId} {upvalues : Array (Option ObjectId)}
    (here : (history.machine later).heap.get? closure = some (.closure prototype upvalues)) :
    ∃ maker outer,
      (history.machine time).heap.get? site.frame.closure = some (.closure maker outer) ∧
      ∀ (index : Nat) (capture : Capture), inner.captures[index]? = some capture →
        Fills site.frame.base outer (history.machine (time + 1)).openCells capture
          upvalues[index]? := by
  obtain ⟨new, maker, outer, first, filled, found, isFilled, fills⟩ := makes.filled
  have below := fun {moment id object} (present : (history.machine moment).heap.get? id = some object) =>
    (history.usable moment).poised.filed.tidy.bounded present
  rcases Nat.lt_or_ge time later with after | before
  · have known := (history.steady after).closures (below isFilled) here
    cases known.symm.trans isFilled
    exact ⟨maker, outer, found, fills⟩
  · have grown := (history.steady before).grown
    exact absurd (Nat.lt_of_lt_of_le (below here) grown) (Nat.not_lt_of_le new)

/-- A closure holds the cells of the variables that it captures. -/
theorem Denotes.holds {index : Nat} {named : Variable} (denotes : history.Denotes closure index named) :
    ∀ {time : Nat} {prototype : ObjectId} {upvalues : Array (Option ObjectId)},
      (history.machine time).heap.get? closure = some (.closure prototype upvalues) →
      ∃ cell, upvalues[index]? = some (some cell) ∧ history.IsCell named cell := by
  induction denotes with
  | own makes isCapture isLocal =>
    intro time prototype upvalues here
    obtain ⟨maker, outer, _, fills⟩ := makes.lasting here
    have filled := fills _ _ isCapture
    rw [Fills, if_pos isLocal] at filled
    exact filled
  | outer makes isCapture isOuter _ ih =>
    intro time prototype upvalues here
    obtain ⟨maker, outer, found, fills⟩ := makes.lasting here
    have filled := fills _ _ isCapture
    rw [Fills, if_neg (by simp [isOuter])] at filled
    rw [filled]
    exact ih found

/-- Captures of closures that are there at some moment hold one cell if they are of one variable, and
different cells otherwise. -/
def SharesCells (history : History) (time : Nat) : Prop :=
  ∀ ⦃one other : ObjectId⦄ ⦃prototype prototype' : ObjectId⦄
    ⦃upvalues upvalues' : Array (Option ObjectId)⦄ ⦃index index' : Nat⦄ ⦃named named' : Variable⦄,
    (history.machine time).heap.get? one = some (.closure prototype upvalues) →
    (history.machine time).heap.get? other = some (.closure prototype' upvalues') →
    history.Denotes one index named → history.Denotes other index' named' →
    ∃ cell cell', upvalues[index]? = some (some cell) ∧ upvalues'[index']? = some (some cell') ∧
      (cell = cell' ↔ history.Same named named')

theorem sharesCells (history : History) (time : Nat) : history.SharesCells time := by
  intro one other prototype prototype' upvalues upvalues' index index' named named'
    here here' denotes denotes'
  obtain ⟨cell, held, isCell⟩ := denotes.holds here
  obtain ⟨cell', held', isCell'⟩ := denotes'.holds here'
  exact ⟨cell, cell', held, held', isCell.eq_iff isCell'⟩

end History

end Closures

section Discipline

/-- The open cells of a machine. No slot has two of them, and none is left behind when its slot is
gone. -/
structure Disciplined (machine : Machine) : Prop where
  descending : (machine.openCells.map Prod.fst).Pairwise (· > ·)
  «open» : ∀ {slot : Nat} {cell : ObjectId}, (slot, cell) ∈ machine.openCells →
    machine.heap.get? cell = some (.cell (.onStack slot)) ∧ slot < machine.stack.size
  listed : ∀ {id prototype cell : ObjectId} {upvalues : Array (Option ObjectId)} {slot : Nat},
    Heap.Reaches machine.heap.objects machine.roots id →
    machine.heap.get? id = some (.closure prototype upvalues) → some cell ∈ upvalues →
    machine.heap.get? cell = some (.cell (.onStack slot)) → (slot, cell) ∈ machine.openCells
  gone : ∀ {cell : ObjectId} {slot : Nat}, machine.stack.size ≤ slot →
    machine.heap.get? cell ≠ some (.cell (.onStack slot))

theorem disciplined {machine : Machine} (usable : Machine.Usable machine) : Disciplined machine := by
  have filed := usable.poised.filed
  obtain ⟨_, _, _, _, data⟩ := usable.data
  have inside : ∀ {slot : Nat} {cell : ObjectId}, (slot, cell) ∈ machine.openCells →
      slot < machine.stack.size := fun member => data.size ▸ (data.cells member).1
  refine ⟨filed.descending, fun member => ⟨(data.cells member).2.2, inside member⟩,
    fun _ _ _ isOpen => filed.listed.mp isOpen, fun outside isOpen => ?_⟩
  exact absurd (inside (filed.listed.mp isOpen)) (Nat.not_lt_of_le outside)

/-- Between any two instructions the open cells are those that the machine lists, at most one for
every slot that there is, and through the whole life of a session closures share a cell where they
capture one variable, and nowhere else. -/
theorem captured_variables_have_one_cell (history : History) (time : Nat) :
    Disciplined (history.machine time) ∧ history.SharesCells time :=
  ⟨disciplined (history.usable time), history.sharesCells time⟩

end Discipline

end Session

end ScriptMachine
