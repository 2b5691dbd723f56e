import ScriptMachine.Proofs.Machine.Charges
import ScriptMachine.Proofs.Session.Histories

set_option autoImplicit false

/- The books of a session. The bytes that are charged for structs are those of the structs that the
active calls own, and the bytes that the heap counts are those of the objects and of these structs. It
holds between any two instructions, and when a unit is over nothing is charged for structs. What is
given back must have been counted before: that it is not more than the count shows is what a word can
hold, so all that is in use has to be less than the addresses there are. -/
namespace ScriptMachine

namespace Compiler

variable {origin : Heap} {outside : List ObjectId} {external : Nat} {registry : Registry}

/-- A compilation whose heap counts right. The objects of its drafts are prototypes, if they are
there. -/
structure Booked (origin : Heap) (outside : List ObjectId) (external : Nat) (state : State) : Prop
    extends Secure origin outside state where
  tallies : state.heap.Tallies external
  drafted : ∀ draft ∈ state.drafts, ∀ object, state.heap.get? draft.id = some object →
    object.size = (Object.function {}).size

/-- Allocating leaves the objects of the drafts as they are. -/
theorem Booked.later {state : State} {heap : Heap} (booked : Booked origin outside external state)
    (later : Heap.Retains [] state.heap heap) :
    ∀ draft ∈ state.drafts, ∀ object, heap.get? draft.id = some object →
      object.size = (Object.function {}).size :=
  fun draft member object found => booked.drafted draft member object
    (later.old (booked.drafts draft member).2.1 found)

theorem Booked.change (bounded : origin.Bounded outside) {before after : State}
    (change : Change before after) (booked : Booked origin outside external before) :
    Booked origin outside external after := by
  have secure := booked.toSecure.change bounded change
  have same : ∀ draft : Draft, draft.id = before.draft.id → ∀ other ∈ draft :: before.enclosing,
      ∀ object, before.heap.get? other.id = some object →
        object.size = (Object.function {}).size := by
    intro draft isSame other member
    rcases List.mem_cons.mp member with rfl | later
    · rw [isSame]
      exact booked.drafted before.draft List.mem_cons_self
    · exact booked.drafted other (List.mem_cons_of_mem _ later)
  have allocated : ∀ roots object, Heap.Retains [] before.heap
      (stateLeft (Heap.allocate roots object before.heap)) := fun roots object =>
    (Heap.Retains.refl [] before.heap).allocate (bounded_nil _) (by simp) object
  cases change with
  | report | calm | move | settle | declare => exact ⟨secure, booked.tallies, booked.drafted⟩
  | function | closure _ =>
    exact ⟨secure, booked.tallies.allocate booked.tidy _, booked.later (allocated _ _)⟩
  | string text =>
    refine ⟨secure, booked.tallies.intern booked.tidy _ text, booked.later ?_⟩
    exact (Heap.Retains.refl [] before.heap).intern (bounded_nil _) (by simp) text
  | scope | constant => exact ⟨secure, booked.tallies, same _ rfl⟩
  | body body isSame => exact ⟨secure, booked.tallies, same _ rfl⟩
  | capture name =>
    refine ⟨secure, booked.tallies, fun draft member => ?_⟩
    have ids := capture_map Draft.id addCapture_id (fun _ _ _ => rfl) name before.draft
      before.enclosing
    have inList := List.mem_map_of_mem (f := Draft.id) member
    rw [State.drafts, ids] at inList
    obtain ⟨old, inDrafts, isSame⟩ := List.mem_map.mp inList
    rw [← isSame]
    exact booked.drafted old inDrafts
  | @enter draft heap ran blank =>
    have tallies : (stateLeft (Heap.newFunction (fun _ => before.roots) before.heap)).Tallies
        external := booked.tallies.allocate booked.tidy _
    have later : Heap.Retains [] before.heap
        (stateLeft (Heap.newFunction (fun _ => before.roots) before.heap)) := allocated _ _
    obtain ⟨_, _, placed⟩ := newFunction_eq ran
    rw [ran] at tallies later
    refine ⟨secure, tallies, fun other member object found => ?_⟩
    rcases List.mem_cons.mp member with rfl | waiting
    · cases placed.symm.trans found
      rfl
    · exact booked.later later other waiting object found
  | leave =>
    refine ⟨secure, ?_, fun draft member object found => ?_⟩
    · exact booked.tallies.set fun old found =>
        (booked.drafted before.draft List.mem_cons_self old found).symm
    · change (before.heap.set _ _).get? _ = _ at found
      rw [Heap.get?_set] at found
      split at found
      · obtain ⟨_, _, rfl⟩ := Option.map_eq_some_iff.mp found
        rfl
      · exact booked.drafted draft (mem_drafts_of_waiting member) object found

/-- However a compilation ends, the heap that it leaves counts right. -/
theorem tallies_compile (tokens : List Token) (tidy : origin.Tidy) (bounded : origin.Bounded outside)
    (tallies : origin.Tallies external) :
    (compile origin registry outside tokens).1.Tallies external := by
  have allocated : (stateLeft (Heap.newFunction (fun _ => outside) origin)).Tallies external :=
    tallies.allocate tidy _
  refine @compile_keeps origin outside registry tokens (Booked origin outside external)
    (fun heap => heap.Tallies external) (fun _ _ => Booked.change bounded) allocated
    (fun {id heap} ran => ?_) (fun booked => booked.tallies) fun {state} booked => ?_
  · rw [ran] at allocated
    refine ⟨secure_begun tidy bounded ran, allocated, fun draft member object found => ?_⟩
    rw [List.mem_singleton.mp member] at found
    cases (newFunction_eq ran).2.2.symm.trans found
    rfl
  · exact booked.tallies.set fun old found =>
      (booked.drafted state.draft List.mem_cons_self old found).symm

end Compiler

namespace Machine

section Resets

variable {machine : Machine} {script : ObjectId}

theorem bytesOf_closedWith (value : Nat → Value) (cells : List (Nat × ObjectId)) (heap : Heap)
    (sized : ∀ id ∈ cells.map Prod.snd, ∀ object, heap.get? id = some object →
      object.size = (Object.cell (.closed .nil)).size) :
    Heap.bytesOf (closedWith value cells heap).listed = Heap.bytesOf heap.listed ∧
      (closedWith value cells heap).bytes = heap.bytes := by
  induction cells generalizing heap with
  | nil => exact ⟨rfl, rfl⟩
  | cons entry rest ih =>
    have first : Heap.bytesOf (heap.set entry.2 (.cell (.closed (value entry.1)))).listed
        = Heap.bytesOf heap.listed :=
      Heap.bytesOf_set fun old found => (sized entry.2 List.mem_cons_self old found).symm
    obtain ⟨listed, bytes⟩ := ih (heap.set entry.2 (.cell (.closed (value entry.1))))
      fun id member object found => by
        rw [Heap.get?_set] at found
        split at found
        · obtain ⟨_, _, rfl⟩ := Option.map_eq_some_iff.mp found
          rfl
        · exact sized id (List.mem_cons_of_mem _ member) object found
    exact ⟨listed.trans first, bytes⟩

/-- A reset gives back all that is charged for structs. -/
theorem Owes.reset (balanced : Balanced machine) (filed : Filed machine)
    (enough : machine.inUse < 2 ^ 64 ∨ machine.frames = []) : Balanced machine.reset := by
  obtain ⟨listed, bytes⟩ := bytesOf_closedWith machine.abandonedValue machine.openCells machine.heap
    fun id member object found => by
      obtain ⟨entry, inside, rfl⟩ := List.mem_map.mp member
      cases (filed.listed.mpr inside).symm.trans found
      rfl
  have closed : (closedWith machine.abandonedValue machine.openCells machine.heap).Tallies
      machine.structBytes := by
    rw [Heap.Tallies, listed, bytes]
    exact balanced.tallies
  refine ⟨rfl, ?_⟩
  change ((closedWith machine.abandonedValue machine.openCells machine.heap).release
    machine.arenaBytes).Tallies 0
  rw [balanced.counter, Nat.add_zero]
  rcases enough with fits | nothing
  · have left := closed.release (by rw [listed]; exact fits) (Nat.le_refl machine.structBytes)
    rwa [Nat.sub_self] at left
  · have none : machine.structBytes = 0 := by
      rw [structBytes, nothing]
      rfl
    rw [none] at closed ⊢
    exact (release_zero _).symm ▸ closed

theorem Owes.of_idle (balanced : Balanced machine) (nothing : machine.frames = []) :
    machine.arenaBytes = 0 ∧ machine.heap.Tallies 0 := by
  have none : machine.structBytes = 0 := by
    rw [structBytes, nothing]
    rfl
  obtain ⟨counter, tallies⟩ := balanced
  rw [none] at counter tallies
  exact ⟨counter, tallies⟩

/-- Nothing is charged for structs when a script begins. -/
theorem Owes.interpret (balanced : Balanced machine) (filed : Filed machine)
    (fits : machine.inUse < 2 ^ 64) (right : (machine.interpret script 0).1 ≠ .wrong) :
    Balanced (machine.interpret script 0).2 := by
  have ready := balanced.reset filed (Or.inl fits)
  have leads := @leads_enter machine script
  rw [Machine.interpret] at right ⊢
  cases entered : enter script machine with
  | ok _ after =>
    rw [Leads, entered] at leads
    obtain ⟨middle, closure, touches, rfl⟩ := leads
    have empty : middle.frames = [] := by
      have same := (Touches.still touches).calls
      exact List.map_eq_nil_iff.mp same
    obtain ⟨counter, tallies⟩ := (Touches.owes touches id filed.reset ready).of_idle empty
    exact ⟨counter, tallies⟩
  | error stop after =>
    rw [Leads, entered] at leads
    rw [entered] at right
    cases stop with
    | fault error =>
      have empty : after.frames = [] := List.map_eq_nil_iff.mp (Touches.still leads.1).calls
      exact (Touches.owes leads.1 id filed.reset ready).reset (filed.reset.touches leads.1)
        (Or.inr empty)
    | wrong => exact absurd rfl right

theorem Usable.balances_step (usable : Usable machine) (balanced : Balanced machine)
    (fits : ∀ moment, Releases machine moment → moment.inUse < 2 ^ 64) : Balances step machine := by
  obtain ⟨program, proper, sound | rested⟩ := usable.runs
  · exact Machine.balances_step sound usable.poised.filed balanced fits
  · rw [Balances, Leads, step_rested rested]
    trivial

/-- One instruction keeps the books, and so does the end of the run. -/
theorem Usable.balanced_run (usable : Usable machine) (balanced : Balanced machine)
    (fits : ∀ moment, Releases machine moment → moment.inUse < 2 ^ 64) :
    Balanced (machine.run 1).2 := by
  have filed := usable.poised.filed
  have balances := usable.balances_step balanced fits
  obtain ⟨program, proper, sound | rested⟩ := usable.runs
  · have safe := safe_step sound
    obtain ⟨frame, waiting, body, code, atCode⟩ := sound.atCode
    have leads := atCode.leads filed
    rw [Machine.run]
    rw [Balances, Leads] at balances
    rw [Leads] at leads
    rw [Safe] at safe
    cases ran : step machine with
    | ok progress after =>
      rw [ran] at balances
      cases progress <;> exact balances
    | error stop after =>
      rw [ran] at balances leads safe
      cases stop with
      | fault error =>
        have isFiled : Filed after := (filed.withFrames _ : Filed (fetched ..)).struck leads.1
        exact balances.1.reset isFiled (Or.inl (fits after (.struck ran)))
      | wrong => exact safe.elim
  · have nothing : machine.frames = [] := by
      obtain ⟨live, data⟩ := rested
      exact List.forall₂_nil_right_iff.mp data.calls
    rw [Machine.run, step_rested rested]
    exact balanced.reset filed (Or.inr nothing)

end Resets

end Machine

namespace Session

open Machine (Balanced Owes Exact Covers)

/-- The machines at which an event gives bytes back. A unit that begins gives up what is left of the
one before. -/
inductive Releases (session : Session) : Event → Machine → Prop where
  | running {time : Text} {moment : Machine} : session.machine.Releases moment →
      Releases session (.resume time) moment
  | launched {event : Event} {moment : Machine} {script : ObjectId} :
      event.source?.bind session.launched = some (moment, script) → Releases session event moment

section Events

variable {session next : Session} {event : Event}

theorem balanced_define {native : Native} (tidy : session.machine.heap.Tidy)
    (balanced : Balanced session.machine) (defined : session.define native = .ok next) :
    Balanced next.machine := by
  unfold define at defined
  rcases Machine.defineNative_cases native session.machine with ⟨_, _, _, failed⟩ |
    ⟨key, named, id, heap, interned, allocated, isDefined⟩
  · rw [failed] at defined
    cases defined
  rw [isDefined] at defined
  cases defined
  have first := balanced.tallies.intern tidy (fun _ => [] ++ session.machine.roots) native.name
  have isTidy := tidy.interning (fun _ => [] ++ session.machine.roots) native.name
  rw [interned] at first isTidy
  have second : (stateLeft (Heap.allocate (fun _ => [key] ++ { session.machine with
      heap := named }.roots) (.native native) named)).Tallies (session.machine.structBytes + 0) :=
    Heap.Tallies.allocate first isTidy _
  rw [allocated] at second
  exact ⟨balanced.counter, second⟩

theorem balanced_drained (balanced : Balanced session.machine) (time : Text) :
    Balanced (session.drained time).machine :=
  ⟨balanced.counter, balanced.tallies.recount rfl rfl⟩

theorem balanced_rejected (balanced : Balanced session.machine) (time : Text)
    (failure : Compiler.Failure) : Balanced (session.rejected time failure).1.machine := by
  cases failure with
  | diagnostics _ | exhausted _ => exact balanced_drained balanced time
  | diverged | unregistered _ => exact balanced

theorem balanced_concluded (time : Text) (result : Machine.Outcome × Machine)
    (balanced : Balanced result.2) : Balanced (session.concluded time result).1.machine := by
  obtain ⟨outcome, machine⟩ := result
  cases outcome with
  | finished | faulted _ | paused => exact ⟨balanced.counter, balanced.tallies.recount rfl rfl⟩
  | wrong => exact balanced

theorem tallies_compiled (usable : Machine.Usable session.machine)
    (balanced : Balanced session.machine) (source : Text) :
    (Compiler.compileSource session.machine.heap session.machine.registry session.machine.roots
      source).1.Tallies (session.machine.structBytes + 0) := by
  obtain ⟨_, _, _, _, data⟩ := usable.data
  exact Compiler.tallies_compile (Token.scan source) data.stored.tidy data.bounded balanced.tallies

theorem balanced_launched {source : Text} {machine : Machine} {script : ObjectId}
    (usable : Machine.Usable session.machine) (balanced : Balanced session.machine)
    (isLaunched : session.launched source = some (machine, script)) : Balanced machine := by
  obtain ⟨_, _, rfl⟩ := machine_of_launched isLaunched
  exact ⟨balanced.counter, tallies_compiled usable balanced source⟩

theorem balanced_interpret (usable : Machine.Usable session.machine)
    (plain : session.machine.heap.Plain) (balanced : Balanced session.machine) (time source : Text)
    (fits : ∀ moment script, session.launched source = some (moment, script) →
      moment.inUse < 2 ^ 64) : Balanced (session.interpret time source 0).1.machine := by
  cases isLaunched : session.launched source with
  | none =>
    obtain ⟨failure, isRejected⟩ := @interpret_of_rejected _ time _ 0 isLaunched
    rw [isRejected]
    refine balanced_rejected ?_ time failure
    exact ⟨balanced.counter, tallies_compiled usable balanced source⟩
  | some unit =>
    obtain ⟨machine, script⟩ := unit
    have launches := launches_of_launched usable plain isLaunched
    have filed : Machine.Filed machine := by
      obtain ⟨_, _, _, _, _, filed, _⟩ := launches
      exact filed
    have ready := balanced_launched usable balanced isLaunched
    rw [interpret_of_launched isLaunched]
    exact balanced_concluded time _
      (ready.interpret filed (fits machine script isLaunched) (launches.interpret 0).2)

/-- Every event keeps the books. -/
theorem balanced_after (reachable : Reachable session) (balanced : Balanced session.machine)
    (leads : session.after event = .ok next)
    (fits : ∀ moment, session.Releases event moment → moment.inUse < 2 ^ 64) :
    Balanced next.machine := by
  have tidy := reachable.usable.poised.filed.tidy
  cases event with
  | define native => exact balanced_define tidy balanced leads
  | interpret time source =>
    cases leads
    exact balanced_interpret reachable.usable reachable.confined.heap balanced time source
      fun moment script isLaunched => fits moment (.launched isLaunched)
  | interpretFile time path source =>
    cases leads
    cases source with
    | none => exact balanced_drained balanced time
    | some source =>
      let opened := { session with journal := session.journal.addContext (ascii "script") path }
      have same : opened.launched source = session.launched source := launched_addContext ..
      exact @balanced_interpret opened reachable.usable reachable.confined.heap balanced time source
        fun moment script isLaunched => fits moment (.launched (same ▸ isLaunched))
  | resume time =>
    cases leads
    exact balanced_concluded time _ (reachable.usable.balanced_run balanced fun moment releases =>
      fits moment (.running releases))
  | collect time =>
    cases leads
    refine balanced_drained ?_ time
    exact ⟨balanced.counter, balanced.tallies.collect _⟩
  | takeOutput =>
    cases leads
    exact ⟨balanced.counter, balanced.tallies⟩
  | takeEntries =>
    cases leads
    exact balanced

/-- How a unit stands after an event that begins it or goes on with it. -/
def status? (session : Session) : Event → Option Status
  | .interpret time source => some (session.interpret time source 0).2
  | .interpretFile time path (some source) =>
    some (session.interpretFile time path (some source) 0).2
  | .resume time => some (session.resume time 1).2
  | _ => none

/-- No call is active when a run has ended. -/
theorem idle_run {machine : Machine} (usable : Machine.Usable machine)
    (ended : (machine.run 1).1 ≠ .paused) : (machine.run 1).2.frames = [] := by
  obtain ⟨program, proper, sound | rested⟩ := usable.runs
  · obtain ⟨live, data⟩ := (Machine.run_settles 1 sound).rested ended
    exact List.forall₂_nil_right_iff.mp data.calls
  · rw [Machine.run, Machine.step_rested rested]
    rfl

theorem frames_concluded (time : Text) (result : Machine.Outcome × Machine) :
    (session.concluded time result).1.machine.frames = result.2.frames ∧
      ((session.concluded time result).2 ≠ .running → result.1 ≠ .paused) := by
  obtain ⟨outcome, machine⟩ := result
  cases outcome with
  | finished | wrong => exact ⟨rfl, by simp⟩
  | faulted _ => exact ⟨rfl, by simp⟩
  | paused => exact ⟨rfl, fun stopped => absurd rfl stopped⟩

/-- A unit that is over before its first instruction leaves no call active. -/
theorem idle_interpret (time source : Text) (idle : session.machine.frames = [])
    (stopped : (session.interpret time source 0).2 ≠ .running) :
    (session.interpret time source 0).1.machine.frames = [] := by
  cases isLaunched : session.launched source with
  | none =>
    obtain ⟨failure, isRejected⟩ := @interpret_of_rejected _ time _ 0 isLaunched
    rw [isRejected]
    cases failure <;> exact idle
  | some unit =>
    obtain ⟨machine, script⟩ := unit
    rw [interpret_of_launched isLaunched] at stopped ⊢
    obtain ⟨same, ended⟩ := @frames_concluded { session with lastError := [], machine } time
      (machine.interpret script 0)
    rw [same]
    have ended := ended stopped
    unfold Machine.interpret at ended ⊢
    split at ended
    · exact absurd rfl ended
    · rfl
    · rfl

/-- No call is active when a unit is over, if none was when it began. -/
theorem idle_after (reachable : Reachable session) (leads : session.after event = .ok next)
    {status : Status} (isStatus : session.status? event = some status) (stopped : status ≠ .running)
    (idle : event.source?.isSome → session.machine.frames = []) : next.machine.frames = [] := by
  cases event with
  | define _ | collect _ | takeOutput | takeEntries => cases isStatus
  | interpret time source =>
    cases leads
    cases isStatus
    exact idle_interpret time source (idle rfl) stopped
  | interpretFile time path source =>
    cases source with
    | none => cases isStatus
    | some source =>
      cases leads
      cases isStatus
      exact idle_interpret time source (idle rfl) stopped
  | resume time =>
    cases leads
    cases isStatus
    obtain ⟨same, ended⟩ := frames_concluded time (session.machine.run 1)
    exact same.trans (idle_run reachable.usable (ended stopped))

end Events

namespace History

/-- All that is in use, at the moments of a history and whenever bytes are given back between two of
them, is less than the addresses that a word can tell apart. -/
structure Ample (history : History) : Prop where
  moments : ∀ time, (history.machine time).inUse < 2 ^ 64
  between : ∀ time moment, (history.moment time).Releases (history.event time) moment →
    moment.inUse < 2 ^ 64

variable {history : History}

theorem balanced (ample : history.Ample) (time : Nat) : Balanced (history.machine time) := by
  induction time with
  | zero =>
    obtain ⟨options, journal, started⟩ := history.begins
    refine balanced_define (Heap.Tidy.empty _) ?_ started
    exact ⟨rfl, Heap.tallies_empty _⟩
  | succ time ih =>
    exact balanced_after (history.reachable time) ih (history.goesOn time) (ample.between time)

theorem balanced_of_releases (ample : history.Ample) {time : Nat} {moment : Machine}
    (releases : (history.moment time).Releases (history.event time) moment) : Balanced moment := by
  have fits := ample.between time
  have balanced := balanced ample time
  have usable := history.usable time
  generalize history.event time = event at releases fits
  cases releases with
  | running releases =>
    have fits := fun moment releases => fits moment (.running releases)
    exact releases.balanced (usable.balances_step balanced fits) usable.poised.filed balanced fits
  | launched isLaunched =>
    obtain ⟨source, _, isLaunched⟩ := Option.bind_eq_some_iff.mp isLaunched
    exact balanced_launched usable balanced isLaunched

/-- A unit is over after an event, and no call was active when it began. -/
def Ends (history : History) (time : Nat) : Prop :=
  (∃ status, (history.moment time).status? (history.event time) = some status ∧ status ≠ .running) ∧
    ((history.event time).source?.isSome → (history.machine time).frames = [])

/-- A struct is built from one that is nested in it. -/
def nesting : Text :=
  ascii "struct P { x } { var a = P { x = P { x = nil } }; }"

/-- A host that has three instructions of a unit executed and from then on only reads its output. -/
def drawing : Nat → Event
  | 0 => .interpret [] nesting
  | 1 | 2 | 3 => .resume []
  | _ + 4 => .takeOutput

def drawn : Nat → Session
  | 0 => fresh {}
  | 1 => ((drawn 0).interpret [] nesting 0).1
  | 2 => ((drawn 1).resume [] 1).1
  | 3 => ((drawn 2).resume [] 1).1
  | 4 => ((drawn 3).resume [] 1).1
  | time + 5 => (drawn (time + 4)).takeOutput.2

def nested : History where
  moment := drawn
  event := drawing
  begins := ⟨_, _, start_fresh {}⟩
  goesOn
    | 0 | 1 | 2 | 3 => rfl
    | _ + 4 => rfl

theorem inUse_drawn (time : Nat) : (drawn time).machine.inUse < 2 ^ 64 := by
  match time with
  | 0 => decide +kernel
  | 1 => decide +kernel
  | 2 => decide +kernel
  | 3 => decide +kernel
  | 4 => decide +kernel
  | time + 5 => exact inUse_drawn (time + 4)

theorem ample_nested : nested.Ample := by
  refine ⟨inUse_drawn, fun time moment releases => ?_⟩
  have resumed : ∀ {session : Session}, session.machine.Calm = true →
      session.machine.inUse < 2 ^ 64 → session.Releases (.resume []) moment →
      moment.inUse < 2 ^ 64 := by
    intro session calm fits releases
    cases releases with
    | running releases => exact releases.of_calm calm ▸ fits
    | launched isLaunched => cases isLaunched
  match time with
  | 0 =>
    cases releases with
    | launched isLaunched =>
      have small : ((fresh {}).launched nesting).all
          fun unit => decide (unit.1.inUse < 2 ^ 64) := by decide +kernel
      have isLaunched : (fresh {}).launched nesting = some _ := isLaunched
      rw [isLaunched] at small
      exact of_decide_eq_true small
  | 1 => exact resumed (by decide +kernel) (inUse_drawn 1) releases
  | 2 => exact resumed (by decide +kernel) (inUse_drawn 2) releases
  | 3 => exact resumed (by decide +kernel) (inUse_drawn 3) releases
  | _ + 4 =>
    cases releases with
    | launched isLaunched => cases isLaunched

end History

/-- The counts are exact at every moment, whenever bytes are given back there are at least as many as
are given back, and after a unit nothing is charged for structs. -/
theorem struct_accounting_is_exact (history : History) (ample : history.Ample) (time : Nat) :
    Exact (history.machine time) ∧
      (∀ moment, (history.moment time).Releases (history.event time) moment →
        Exact moment ∧ Covers moment) ∧
      (history.Ends time → (history.machine (time + 1)).arenaBytes = 0 ∧
        (history.machine (time + 1)).heap.bytes.toNat
          = Heap.bytesOf (history.machine (time + 1)).heap.listed) := by
  refine ⟨(History.balanced ample time).exact (ample.moments time), fun moment releases => ?_,
    fun ends => ?_⟩
  · have exact := (History.balanced_of_releases ample releases).exact (ample.between time moment releases)
    exact ⟨exact, exact.covers⟩
  · obtain ⟨⟨status, isStatus, stopped⟩, idle⟩ := ends
    have idle : (history.machine (time + 1)).frames = [] :=
      idle_after (history.reachable time) (history.goesOn time) isStatus stopped idle
    have balanced := History.balanced ample (time + 1)
    have exact := balanced.exact (ample.moments (time + 1))
    have nothing := (balanced.of_idle idle).1
    refine ⟨nothing, ?_⟩
    rw [exact.heap, nothing]
    rfl

theorem struct_accounting_is_exact_nested :
    History.nested.Ample ∧ Exact (History.nested.machine 4) ∧
      (History.nested.machine 4).structBytes = 224 :=
  ⟨History.ample_nested, (struct_accounting_is_exact History.nested History.ample_nested 4).1,
    by decide +kernel⟩

end Session

end ScriptMachine
