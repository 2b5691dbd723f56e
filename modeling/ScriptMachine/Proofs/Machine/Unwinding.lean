import ScriptMachine.Proofs.Machine.Standing

set_option autoImplicit false

/- Faults. A fault finds every global as the instruction found it, reports where each active call is,
and leaves a machine that executes nothing: captured variables have got the values of their slots,
and the next script can be run. -/
namespace ScriptMachine.Machine

/-- The entry of a trace for a call that executes an instruction: the line of that instruction, and
the name of the function that it is part of. -/
def Located (heap : Heap) (closure : ObjectId) (position : Nat) (code : Instruction)
    (entry : TraceEntry) : Prop :=
  ∃ body, heap.closurePrototype? closure = some body ∧ body.code[position]? = some code ∧
    body.lines[position]? = some entry.line ∧ entry.function = heap.displayName body

/-- The entry of a call that waits for another one. -/
def Awaits (heap : Heap) (frame : Frame) (entry : TraceEntry) : Prop :=
  0 < frame.ip ∧ ∃ code, (code.op = .call ∨ code.op = .invoke) ∧
    Located heap frame.closure (frame.ip - 1) code entry

/-- A trace of the calls that are active when a fault strikes, innermost first. The instruction that
was to be executed is `code`, and `before` is the machine when it was. If it is a call, the frame of
the callee may be there already, at the first instruction. -/
inductive Reports (code : Instruction) (before after : Machine) : List TraceEntry → Prop where
  | here {frame : Frame} {waiting : List Frame} {entry : TraceEntry} {rest : List TraceEntry} :
      before.frames = frame :: waiting → after.frames.length = before.frames.length →
      Located before.heap frame.closure frame.ip code entry →
      List.Forall₂ (Awaits before.heap) waiting rest → Reports code before after (entry :: rest)
  | calling {frame callee : Frame} {waiting active : List Frame} {first entry : TraceEntry}
      {start : Instruction} {rest : List TraceEntry} : code.op = .call ∨ code.op = .invoke →
      before.frames = frame :: waiting → after.frames = callee :: active →
      active.length = before.frames.length → callee.ip = 0 →
      Located after.heap callee.closure 0 start first →
      Located before.heap frame.closure frame.ip code entry →
      List.Forall₂ (Awaits before.heap) waiting rest →
      Reports code before after (first :: entry :: rest)

section Traces

variable {program : Program} {live : ObjectId → Prop} {shape : Shape} {before after machine : Machine}
  {frame : Frame} {waiting : List Frame} {body : Prototype} {code : Instruction} {error : RuntimeError}

/-- The entry of a frame in a trace, when its code is still what it was. -/
theorem located_traceEntry {heap later : Heap}
    (isBody : heap.closurePrototype? frame.closure = some body)
    (coded : later.closurePrototype? frame.closure = some body)
    (named : later.displayName body = heap.displayName body)
    (lined : body.lines.size = body.code.size) (here : body.code[frame.ip - 1]? = some code) :
    Located heap frame.closure (frame.ip - 1) code (traceEntry later frame) := by
  obtain ⟨inside, _⟩ := Array.getElem?_eq_some_iff.mp here
  refine ⟨body, isBody, here, ?_, ?_⟩
  · simp only [traceEntry, coded, Option.getD_some]
    rw [Array.getElem?_eq_getElem (by rw [lined]; exact inside), Option.getD_some]
  · simp only [traceEntry, coded, Option.getD_some, named]

/-- The active calls keep their code and their names up to a fault. -/
theorem Struck.coded {id : ObjectId} (filed : Filed before) (struck : Struck code before after)
    (active : id ∈ before.frames.map Frame.closure) (coded : Coded before.heap id body) :
    Coded after.heap id body ∧ after.heap.displayName body = before.heap.displayName body := by
  cases struck with
  | here touches => exact filed.standing touches active coded
  | calling _ begins =>
    obtain ⟨base, _, first, same, _, second⟩ := begins
    rw [← same] at coded ⊢
    rw [← closures_of_standing (Touches.still first).calls] at active
    have kept := Filed.standing ((filed.touches first).withFrames _) second
      (List.mem_cons_of_mem _ active) coded
    exact kept

theorem trace_eq_standing (machine : Machine) :
    machine.trace = machine.standing.map (traceEntry machine.heap) := by
  rw [trace, standing, List.map_map]
  rfl

theorem length_standing (machine : Machine) : machine.standing.length = machine.frames.length :=
  List.length_map _

theorem Data.lined (data : Data program live [] shape machine) (member : frame ∈ machine.frames)
    (isBody : machine.heap.closurePrototype? frame.closure = some body) :
    Coded machine.heap frame.closure body ∧ body.lines.size = body.code.size := by
  obtain ⟨call, _, runs⟩ := call_of_frame data.calls frame member
  obtain ⟨coded, formed⟩ := data.coded runs.live isBody
  exact ⟨coded, formed.lined⟩

/-- The innermost call is at the instruction that was to be executed. -/
theorem AtCode.located (atCode : AtCode machine frame waiting body code)
    (data : Data program live [] shape machine) (filed : Filed machine)
    (struck : Struck code (fetched machine frame waiting) after) :
    Located machine.heap frame.closure frame.ip code
      (traceEntry after.heap (bare { frame with ip := frame.ip + 1 })) := by
  obtain ⟨coded, lined⟩ := data.lined (atCode.frames ▸ List.mem_cons_self) atCode.isBody
  obtain ⟨coded', named⟩ := struck.coded (filed.withFrames _)
    (List.mem_cons_self : frame.closure ∈ _) coded
  exact @located_traceEntry (bare { frame with ip := frame.ip + 1 }) _ _ _ _ atCode.isBody coded'.code
    named lined atCode.here

/-- The other calls are where they wait. -/
theorem AtCode.awaits (atCode : AtCode machine frame waiting body code)
    (data : Data program live [] shape machine) (poised : Poised machine)
    (struck : Struck code (fetched machine frame waiting) after) :
    List.Forall₂ (Awaits machine.heap) waiting ((waiting.map bare).map (traceEntry after.heap)) := by
  rw [List.map_map, List.forall₂_map_right_iff, List.forall₂_same]
  intro other member
  have inFrames : other ∈ machine.frames := atCode.frames ▸ List.mem_cons_of_mem _ member
  have inTail : bare other ∈ machine.standing.tail := by
    rw [standing, atCode.frames]
    exact List.mem_map.mpr ⟨other, member, rfl⟩
  obtain ⟨otherBody, call, isBody, started, here, isCall⟩ := poised.waits _ inTail
  obtain ⟨coded, lined⟩ := data.lined inFrames isBody
  obtain ⟨coded', named⟩ := struck.coded (poised.filed.withFrames _)
    (List.mem_cons_of_mem _ (List.mem_map.mpr ⟨other, member, rfl⟩) : other.closure ∈ _) coded
  exact ⟨started, call, isCall, @located_traceEntry (bare other) _ _ _ _ isBody coded'.code named lined here⟩

/-- A fault reports every active call where it is. -/
theorem AtCode.reports (atCode : AtCode machine frame waiting body code)
    (data : Data program live [] shape machine) (poised : Poised machine)
    (struck : Struck code (fetched machine frame waiting) after) :
    Reports code machine after after.trace := by
  have entry := atCode.located data poised.filed struck
  have rest := atCode.awaits data poised struck
  rw [trace_eq_standing]
  have isStanding : (fetched machine frame waiting).standing
      = bare { frame with ip := frame.ip + 1 } :: waiting.map bare := rfl
  cases struck with
  | here touches =>
    have same := (Touches.still touches).calls
    rw [same, isStanding]
    refine .here atCode.frames ?_ entry rest
    rw [← length_standing after, same, isStanding, atCode.frames]
    simp
  | calling isCall begins =>
    obtain @⟨_, _, closure, _, base, reached, first, sameHeap, isBody, second⟩ := begins
    have same := (Touches.still second).calls
    have older := (Touches.still first).calls
    obtain ⟨callee, active, isFrames, isCallee, isActive⟩ := List.map_eq_cons_iff.mp same
    rw [roots_fetched atCode.frames] at reached
    obtain ⟨coded, formed⟩ := data.coded (data.reached reached) isBody
    have start := Array.getElem?_eq_getElem formed.nonempty
    have pushed := (poised.fetched atCode.frames).filed.touches first
    have kept := (Filed.standing (pushed.withFrames _) second List.mem_cons_self
      (sameHeap ▸ coded)).1
    have isClosure : (bare callee).closure = closure := by rw [isCallee]; rfl
    have atStart : (bare callee).ip = 0 := by rw [isCallee]; rfl
    have isAfter : after.standing = bare callee :: (fetched machine frame waiting).standing := by
      rw [standing, isFrames, List.map_cons, isActive]
      exact congrArg _ older
    rw [isAfter, isStanding]
    have located := @located_traceEntry (bare callee) _ _ after.heap after.heap
      (isClosure ▸ kept.code) (isClosure ▸ kept.code) rfl formed.lined (by rw [atStart]; exact start)
    rw [atStart] at located
    refine .calling isCall atCode.frames isFrames ?_ atStart located entry rest
    have sameLength := congrArg List.length isAfter
    rw [length_standing, isFrames, isStanding] at sameLength
    rw [atCode.frames]
    simpa using sameLength

end Traces

section Entering

variable {machine after : Machine} {script : ObjectId}

/-- The call of a script begins on an empty stack, and the script has no arguments to be copied. -/
theorem leads_enter (script : ObjectId) :
    Leads (enter script) machine
      (fun _ after => ∃ middle closure, Touches .none machine.reset middle ∧
        after = { middle with frames := [{ closure, base := 0 }] })
      (Touches .none machine.reset) := by
  have allocates := (inferInstance : Touching .none (allocating [script] (Heap.newClosure · script))).leads
    machine.reset
  rw [leads_allocating] at allocates
  simp only [enter, leads_bind, leads_modify]
  rw [leads_allocating]
  cases ran : Heap.newClosure (fun _ => [script] ++ machine.reset.roots) script machine.reset.heap with
  | error failure heap =>
    rw [ran] at allocates
    exact allocates
  | ok closure heap =>
    rw [ran] at allocates
    dsimp only at allocates ⊢
    simp only [push, leads_bind, leads_get]
    split
    · exact leads_fail.mpr allocates
    · next room =>
      have pushed := Relation.ReflTransGen.trans allocates
        (touches_push (.ref closure) (Nat.lt_of_not_le room))
      rw [leads_modify]
      simp only [callClosure, leads_bind, leads_get]
      refine leads_given fun body isBody => ?_
      split
      · exact leads_bind.mpr (leads_fail.mpr pushed)
      · simp only [leads_bind, leads_get]
        split
        · exact leads_bind.mpr (leads_fail.mpr pushed)
        · split
          · exact leads_goWrong
          · exact ⟨_, closure, pushed, rfl⟩

end Entering

section Runs

variable {program : Program} {before after machine final : Machine} {error : RuntimeError}
  {script : ObjectId} {code : Instruction}

/-- What a captured variable is left with when its frame is dropped. -/
def remainder : Value → Value
  | .stack _ => .nil
  | value => value

/-- What is left of a run that a fault has stopped. The instruction that the fault struck began on
`before`, and the fault found the machine as in `after`. -/
structure Unwinds (before after final : Machine) : Prop where
  stack : final.stack = #[]
  frames : final.frames = []
  openCells : final.openCells = []
  arenaBytes : final.arenaBytes = 0
  shut : ∀ id slot, final.heap.get? id ≠ some (.cell (.onStack slot))
  globals : final.globals = before.globals
  natives : final.natives = before.natives
  registry : final.registry = before.registry
  opened : ∀ {id : ObjectId} {slot : Nat}, after.heap.get? id = some (.cell (.onStack slot)) →
    ∃ value, after.stack[slot]? = some value ∧
      final.heap.get? id = some (.cell (.closed (remainder value)))
  closed : ∀ {id : ObjectId} {value : Value},
    after.heap.get? id = some (.cell (.closed value)) →
    final.heap.get? id = some (.cell (.closed value))
  kept : ∀ {id : ObjectId} {value : Value} {object : Object},
    before.heap.get? id = some (.cell (.closed value)) → final.heap.get? id = some object →
    object = .cell (.closed value)

theorem abandonedValue_eq {slot : Nat} {value : Value} (here : machine.stack[slot]? = some value) :
    machine.abandonedValue slot = remainder value := by
  unfold abandonedValue
  rw [here]
  cases value <;> rfl

/-- A closed cell is as it was, unless it has been collected. -/
theorem Filed.shut_of_closed (filed : Filed machine) {id : ObjectId} {value : Value}
    (present : machine.heap.get? id = some (.cell (.closed value))) :
    Shut id (· = value) machine := by
  refine ⟨filed.tidy.bounded present, fun object found => ⟨value, ?_, rfl⟩⟩
  exact Option.some.inj (found.symm.trans present)

theorem Shut.reset_get? {id : ObjectId} {value : Value} (shut : Shut id (· = value) machine)
    (filed : Filed machine) : machine.reset.heap.get? id = machine.heap.get? id := by
  refine filed.get?_reset fun slot isOpen => ?_
  obtain ⟨_, isClosed, _⟩ := shut.2 _ isOpen
  cases isClosed

theorem Shut.reset {id : ObjectId} {value : Value} (shut : Shut id (· = value) machine)
    (filed : Filed machine) : Shut id (· = value) machine.reset := by
  refine ⟨?_, fun object found => shut.2 object (shut.reset_get? filed ▸ found)⟩
  change id < (closedWith machine.abandonedValue machine.openCells machine.heap).nextId
  rw [nextId_closedWith]
  exact shut.1

/-- Resetting a machine unwinds what a fault has stopped. -/
theorem unwinds_reset (intact : Intact program after) (filed : Filed before) (filedAfter : Filed after)
    (still : after.globals = before.globals ∧ after.natives = before.natives ∧
      after.registry = before.registry)
    (shut : ∀ {id value}, Shut id (· = value) before → Shut id (· = value) after) :
    Unwinds before after after.reset where
  stack := rfl
  frames := rfl
  openCells := rfl
  arenaBytes := rfl
  shut id slot isOpen := by cases filedAfter.reset.listed.mp isOpen
  globals := still.1
  natives := still.2.1
  registry := still.2.2
  opened {id slot} present := by
    obtain ⟨live, lasting⟩ := intact
    have inside := lasting.inside (filedAfter.listed.mp present)
    have here := Array.getElem?_eq_getElem inside
    exact ⟨_, here, by rw [← abandonedValue_eq here]; exact filedAfter.get?_reset_open present⟩
  closed present := by
    rw [(filedAfter.shut_of_closed present).reset_get? filedAfter, present]
  kept present found := by
    have closed := shut (filed.shut_of_closed present)
    rw [closed.reset_get? filedAfter] at found
    obtain ⟨_, rfl, rfl⟩ := closed.2 _ found
    rfl

theorem Struck.still (struck : Struck code before after) :
    after.globals = before.globals ∧ after.natives = before.natives ∧
      after.registry = before.registry := by
  cases struck with
  | here touches =>
    have still := Touches.still touches
    exact ⟨still.globals, still.natives, still.registry⟩
  | calling _ begins =>
    obtain ⟨_, _, first, _, _, second⟩ := begins
    have one := Touches.still first
    have two := Touches.still second
    exact ⟨two.globals.trans one.globals, two.natives.trans one.natives,
      two.registry.trans one.registry⟩

theorem Struck.shut {id : ObjectId} {value : Value} (filed : Filed before)
    (struck : Struck code before after) (shut : Shut id (· = value) before) :
    Shut id (· = value) after := by
  cases struck with
  | here touches => exact filed.shut touches shut
  | calling _ begins =>
    obtain ⟨_, _, first, _, _, second⟩ := begins
    have inner := filed.shut first shut
    exact Filed.shut ((filed.touches first).withFrames _) second inner

/-- A fault in an instruction. -/
theorem step_unwinds (sound : Sound program before) (poised : Poised before)
    (faulted : step before = .error (.fault error) after) :
    Unwinds before after after.reset ∧
      (error = readyMade ∨ ∃ code, Reports code before after error.trace) := by
  obtain ⟨frame, waiting, body, code, atCode⟩ := sound.atCode
  have leads := atCode.leads poised.filed
  have safe := safe_step sound
  rw [Leads, faulted] at leads
  rw [Safe, faulted] at safe
  obtain ⟨live, shape, data, _⟩ := sound
  obtain ⟨struck, tells⟩ := leads
  have filed := (poised.fetched atCode.frames).filed
  refine ⟨unwinds_reset safe.2 poised.filed (filed.struck struck) struck.still fun shut =>
    struck.shut filed shut, tells.imp id fun told => ⟨code, ?_⟩⟩
  rw [told]
  exact atCode.reports data poised struck

/-- A fault in the call of a script, before its first instruction. -/
theorem enter_unwinds (intact : Intact program after) (filed : Filed machine)
    (faulted : enter script machine = .error (.fault error) after) :
    Unwinds machine after after.reset ∧ (error = readyMade ∨ error.trace = []) := by
  have leads := @leads_enter machine script
  rw [Leads, faulted] at leads
  obtain ⟨touches, tells⟩ := leads
  have still := Touches.still touches
  refine ⟨unwinds_reset intact filed (filed.reset.touches touches)
    ⟨still.globals, still.natives, still.registry⟩ fun shut => ?_, tells.imp id fun told => ?_⟩
  · exact filed.reset.shut touches (shut.reset filed)
  · rw [told, trace_eq_standing, still.calls]
    rfl

/-- A run that a fault has stopped had come to the instruction that the fault struck. -/
structure Stopped (error : RuntimeError) (start final before after : Machine) : Prop where
  came : ∃ count, run count start = (.paused, before)
  struck : step before = .error (.fault error) after
  unwinds : Unwinds before after final
  reports : error = readyMade ∨ ∃ code, Reports code before after error.trace

/-- A run goes on from where its first instruction leaves the machine. -/
theorem Stopped.earlier {start next : Machine} (stopped : Stopped error next final before after)
    (ran : step start = .ok .running next) : Stopped error start final before after := by
  obtain ⟨count, came⟩ := stopped.came
  exact { stopped with came := ⟨count + 1, by rw [run, ran]; exact came⟩ }

theorem run_stopped (steps : Nat) : ∀ {machine : Machine}, Sound program machine → Poised machine →
    run steps machine = (.faulted error, final) →
    ∃ before after, Stopped error machine final before after := by
  induction steps with
  | zero =>
    intro machine _ _ faulted
    cases faulted
  | succ steps ih =>
    intro machine sound poised faulted
    have safe := safe_step sound
    rw [run] at faulted
    cases ran : step machine with
    | ok progress next =>
      rw [Safe, ran] at safe
      rw [ran] at faulted
      cases progress with
      | running =>
        obtain ⟨before, after, stopped⟩ := ih safe (poised.step sound ran) faulted
        exact ⟨before, after, stopped.earlier ran⟩
      | finished => cases faulted
    | error stop after =>
      rw [ran] at faulted
      cases stop with
      | fault error' =>
        cases faulted
        obtain ⟨unwinds, reports⟩ := step_unwinds sound poised ran
        exact ⟨machine, after, ⟨0, rfl⟩, ran, unwinds, reports⟩
      | wrong => cases faulted

/-- The call of a script leaves its frame as the only one. -/
theorem poised_enter (sound : Sound program after) (filed : Filed machine)
    (entered : enter script machine = .ok () after) : Poised after := by
  have leads := @leads_enter machine script
  rw [Leads, entered] at leads
  obtain ⟨middle, closure, touches, rfl⟩ := leads
  obtain ⟨live, shape, data, _⟩ := sound
  exact ⟨(filed.reset.touches touches).withFrames _, data.active, fun frame member => by cases member⟩

/-- A fault stops the run of a script: in the call of the script, when no call is active yet, or in
an instruction of it. -/
inductive Fails (script : ObjectId) (error : RuntimeError) (start final : Machine) :
    Machine → Machine → Prop where
  | entering {after : Machine} : enter script start = .error (.fault error) after →
      Unwinds start after final → error = readyMade ∨ error.trace = [] →
      Fails script error start final start after
  | running {entered before after : Machine} : enter script start = .ok () entered →
      Stopped error entered final before after → Fails script error start final before after

theorem interpret_fails {live : ObjectId → Prop} {body : Prototype} {steps : Nat}
    (lasting : Lasting program live machine) (filed : Filed machine) (isLive : live script)
    (present : machine.heap.get? script = some (.function body)) (complete : body.captures = #[])
    (faulted : interpret machine script steps = (.faulted error, final)) :
    ∃ before after, Fails script error machine final before after := by
  have safe := lasting.enters isLive present complete
  rw [interpret] at faulted
  cases entered : enter script machine with
  | ok result after =>
    rw [Safe, entered] at safe
    rw [entered] at faulted
    obtain ⟨before, struck, stopped⟩ := run_stopped steps safe (poised_enter safe filed entered) faulted
    exact ⟨before, struck, .running entered stopped⟩
  | error stop after =>
    rw [Safe, entered] at safe
    rw [entered] at faulted
    cases stop with
    | fault error' =>
      cases faulted
      obtain ⟨unwinds, tells⟩ := enter_unwinds safe.2 filed entered
      exact ⟨machine, after, .entering entered unwinds tells⟩
    | wrong => exact safe.elim

end Runs

end ScriptMachine.Machine
