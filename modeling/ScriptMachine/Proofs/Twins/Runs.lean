import ScriptMachine.Proofs.Machine.Charges
import ScriptMachine.Proofs.Machine.Output
import ScriptMachine.Proofs.Machine.Unwinding
import ScriptMachine.Proofs.Session.Sound
import ScriptMachine.Proofs.Twins.Steps

set_option autoImplicit false

/- Two runs of one script, on machines that are well formed all along. Between two instructions all that
a machine has in use is there, so the next instruction does the same on both. -/
namespace ScriptMachine.Machine

variable {said : Array UInt8} {pairs : Pairing} {left right : Machine}

section Traces

theorem Twin.traceEntry (twin : Twin pairs left right) {frame frame' : Frame} {body body' : Prototype}
    (same : TwinFrame pairs frame frame') (coded : Coded left.heap frame.closure body)
    (coded' : Coded right.heap frame'.closure body') :
    traceEntry right.heap frame' = traceEntry left.heap frame := by
  have bodies := twin.heap.closurePrototype? same.closure coded.code coded'.code
  have names : right.heap.displayName body' = left.heap.displayName body := by
    have joined := bodies.name
    unfold Heap.displayName
    cases isName : body.name with
    | none =>
      rw [isName] at joined
      generalize body'.name = other at joined
      cases joined
      rfl
    | some a =>
      cases isName' : body'.name with
      | none =>
        rw [isName, isName'] at joined
        cases joined
      | some b =>
        rw [isName, isName'] at joined
        obtain paired | _ := joined
        obtain ⟨object, here⟩ := coded.named a isName
        obtain ⟨other, there⟩ := coded'.named b isName'
        have alike := twin.heap.alike paired here there
        simp only [Heap.string?, here, there]
        cases alike <;> rfl
  simp only [Machine.traceEntry, coded.code, coded'.code, Option.getD_some, names, same.ip]
  rw [show body'.lines = body.lines by rw [bodies.rest]]

/-- A fault would tell the same calls. -/
theorem Twin.trace_eq (twin : Twin pairs left right) (active : Active left) (active' : Active right) :
    right.trace = left.trace := by
  have entries : ∀ {frames frames' : List Frame}, List.Forall₂ (TwinFrame pairs) frames frames' →
      (∀ frame ∈ frames, ∃ body, Coded left.heap frame.closure body) →
      (∀ frame ∈ frames', ∃ body, Coded right.heap frame.closure body) →
      frames'.map (Machine.traceEntry right.heap) = frames.map (Machine.traceEntry left.heap) := by
    intro frames frames' twins
    induction twins with
    | nil => exact fun _ _ => rfl
    | cons same _ ih =>
      intro coded coded'
      obtain ⟨⟨_, first⟩, rest⟩ := List.forall_mem_cons.mp coded
      obtain ⟨⟨_, first'⟩, rest'⟩ := List.forall_mem_cons.mp coded'
      rw [List.map_cons, List.map_cons, twin.traceEntry same first first', ih rest rest']
  refine entries twin.frames (fun frame member => ?_) fun frame member => ?_
  · exact active (bare frame) (List.mem_map_of_mem member)
  · exact active' (bare frame) (List.mem_map_of_mem member)

end Traces

section Grounds

variable {program : Program} {live : ObjectId → Prop} {pending : List ObjectId} {shape : Shape}
  {machine : Machine} {cells : List (Nat × ObjectId)} {heap : Heap} {id : ObjectId} {object : Object}

theorem Sane.plain (sane : Sane program live pending cells heap id object) : object.Plain := by
  have plain : ∀ {value : Value}, value.Kept live → value.Plain := fun kept => Value.Kept.plain kept
  cases object with
  | function body => exact fun value member => plain (sane.2.2.2 value member)
  | cell contents =>
    cases contents with
    | onStack slot => trivial
    | closed value => exact plain sane
  | record type fields => exact fun value member => plain (sane.2 value member)
  | string _ | closure _ _ | native _ => trivial

/-- What a well-formed machine has in use is there. -/
theorem Data.grounded (data : Data program live pending shape machine) (filed : Filed machine) :
    Grounded live machine where
  backs :=
    { present := fun isLive => by
        obtain ⟨object, here, _⟩ := data.stored.sane isLive
        exact ⟨object, here⟩
      closed := fun isLive here member => by
        obtain ⟨_, found, sane⟩ := data.stored.sane isLive
        cases found.symm.trans here
        exact sane.named _ member
      plain := fun isLive here => by
        obtain ⟨_, found, sane⟩ := data.stored.sane isLive
        cases found.symm.trans here
        exact sane.plain }
  stack := by
    intro index value here
    have holds := data.values here
    cases value with
    | stack node =>
      obtain ⟨struct, owned, fits⟩ := holds
      exact ⟨struct, owned.node? data.unique, StackStruct.Fits.resized (fun _ _ _ => trivial) struct fits⟩
    | nil | bool _ | number _ | ref _ => exact holds
  globals here := by
    obtain ⟨text, present⟩ := filed.globals here
    exact Option.isSome_iff_exists.mpr ⟨_, present⟩
  natives here := by
    obtain ⟨⟨text, present⟩, _⟩ := filed.natives here
    exact Option.isSome_iff_exists.mpr ⟨_, present⟩
  room := filed.room

end Grounds

section Stepping

variable {program program' : Program}

/-- Whether the next instruction calls a native function that observes the heap or the time. -/
def callsObserver (machine : Machine) : Bool :=
  match fetch machine with
  | .ok (site, code) fetched => fetched.observing site code
  | .error _ _ => false

/-- A machine between two instructions of well-formed code. -/
structure Midway (program : Program) (machine : Machine) : Prop where
  sound : Sound program machine
  poised : Poised machine

theorem marches_step (twin : Twin pairs left right) (midway : Midway program left)
    (midway' : Midway program' right) (quiet : left.callsObserver = false) :
    Marches left.output step step left right := by
  obtain ⟨frame, waiting, body, code, atCode⟩ := midway.sound.atCode
  obtain ⟨frame', waiting', body', code', atCode'⟩ := midway'.sound.atCode
  have frames := twin.frames
  rw [atCode.frames, atCode'.frames] at frames
  obtain _ | ⟨same, others⟩ := frames
  have bodies := twin.heap.closurePrototype? same.closure atCode.isBody atCode'.isBody
  have here := atCode'.here
  rw [bodies.code, same.ip, atCode.here] at here
  cases here
  have fetches : Twin pairs (fetched left frame waiting) (fetched right frame' waiting') := by
    refine twin.withFrames (.cons ⟨same.closure, same.base, by rw [same.ip]⟩ others) ?_ ?_
    · rw [atCode.frames]
      exact .refl _
    · rw [atCode'.frames]
      exact .refl _
  obtain ⟨live, shape, executing⟩ := midway.sound.executing atCode
  obtain ⟨live', shape', executing'⟩ := midway'.sound.executing atCode'
  have beside : Alongside pairs live live' (fetched left frame waiting) (fetched right frame' waiting') :=
    { twin := fetches
      grounded := executing.data.grounded (midway.poised.fetched atCode.frames).filed
      grounded' := executing'.data.grounded (midway'.poised.fetched atCode'.frames).filed
      trace := fetches.trace_eq executing.data.active executing'.data.active }
  have marches := @marches_execute left.output pairs live live' _ _ ⟨frame, body⟩ ⟨frame', body'⟩ code
    beside ⟨same, bodies⟩ rfl (by simpa [callsObserver, atCode.fetch_eq] using quiet)
  unfold Marches Abreast at marches ⊢
  rw [atCode.step_eq, atCode'.step_eq]
  exact marches

theorem Midway.step (midway : Midway program left) {after : Machine}
    (ran : step left = .ok .running after) : Midway program after := by
  have safe := safe_step midway.sound
  rw [Safe, ran] at safe
  exact ⟨safe, midway.poised.step midway.sound ran⟩

end Stepping

section Running

variable {program program' : Program}

/-- The run found no room left, on the heap or on the stack. -/
def Outcome.Cut : Outcome → Prop
  | .faulted error => error.Cuts
  | _ => False

/-- One of two outputs is the beginning of the other. -/
def Comparable (one other : Array UInt8) : Prop :=
  one.toList <+: other.toList ∨ other.toList <+: one.toList

/-- Two runs have come equally far if they have executed the same number of instructions, and also if
both have ended. -/
def EquallyFar (steps steps' : Nat) (one other : Outcome × Machine) : Prop :=
  steps = steps' ∨ one.1 ≠ .paused ∧ other.1 ≠ .paused

/-- Two runs of a script tell the same as far as they have come. When they have come equally far and
neither was cut, they end alike. -/
structure Agree (level : Prop) (one other : Outcome × Machine) : Prop where
  outputs : Comparable one.2.output other.2.output
  ends : level → ¬ one.1.Cut → ¬ other.1.Cut → other.1 = one.1 ∧ other.2.output = one.2.output

theorem Said.prefix {machine : Machine} (holds : Said said machine) :
    said.toList <+: machine.output.toList := by
  obtain ⟨text, printed⟩ := holds
  exact ⟨text, by simp [printed]⟩

variable {level : Prop} {one other : Outcome × Machine}

/-- A run that has stopped agrees with what goes on from where it stopped. -/
theorem agree_of_halted (output : one.2.output = said) (goesOn : Said said other.2)
    (halted : level → one.1.Cut) : Agree level one other where
  outputs := .inl (by rw [output]; exact goesOn.prefix)
  ends isLevel notCut := absurd (halted isLevel) notCut

theorem Agree.symm (agree : Agree level one other) : Agree level other one where
  outputs := agree.outputs.symm
  ends isLevel notCut notCut' := by
    obtain ⟨outcome, output⟩ := agree.ends isLevel notCut' notCut
    exact ⟨outcome.symm, output.symm⟩

theorem Agree.succ {steps steps' : Nat} (agree : Agree (EquallyFar steps steps' one other) one other) :
    Agree (EquallyFar (steps + 1) (steps' + 1) one other) one other :=
  ⟨agree.outputs, fun isLevel => agree.ends (isLevel.imp_left Nat.succ.inj)⟩

theorem agree_of_same {outcome : Outcome} (output : left.output = right.output) :
    Agree level (outcome, left) (outcome, right) where
  outputs := .inl (by rw [output])
  ends _ _ _ := ⟨rfl, output.symm⟩

/-- No native function that observes the heap or the time is called in the first `steps` instructions. -/
def Unobserved (machine : Machine) (steps : Nat) : Prop :=
  ∀ taken < steps, ∀ after, run taken machine = (.paused, after) → after.callsObserver = false

theorem Unobserved.next {machine after : Machine} {steps : Nat}
    (unobserved : Unobserved machine (steps + 1)) (ran : step machine = .ok .running after) :
    Unobserved after steps := by
  intro taken within final paused
  refine unobserved (taken + 1) (Nat.succ_lt_succ within) final ?_
  rw [run, ran]
  exact paused

/-- Runs of twins agree, however many instructions either has executed. -/
theorem run_agree (steps : Nat) : ∀ (steps' : Nat) {pairs : Pairing} {left right : Machine},
    Twin pairs left right → Midway program left → Midway program' right → Unobserved left steps →
    Agree (EquallyFar steps steps' (run steps left) (run steps' right)) (run steps left)
      (run steps' right) := by
  induction steps with
  | zero =>
    intro steps' pairs left right twin _ _ _
    cases steps' with
    | zero => exact agree_of_same twin.output.symm
    | succ steps' =>
      refine agree_of_halted twin.output.symm (Said.run (.refl right) (steps' + 1)) fun isLevel => ?_
      exact absurd rfl (isLevel.resolve_left (Nat.succ_ne_zero steps').symm).1
  | succ steps ih =>
    intro steps' pairs left right twin midway midway' unobserved
    cases steps' with
    | zero =>
      refine (agree_of_halted twin.output (Said.run (.refl left) (steps + 1)) fun isLevel => ?_).symm
      exact absurd rfl (isLevel.resolve_left (Nat.succ_ne_zero steps)).2
    | succ steps' =>
      have goesOn := Said.run (.refl left) (steps + 1)
      have goesOn' := Said.run (.refl right) (steps' + 1)
      rw [twin.output] at goesOn'
      have marches := marches_step twin midway midway' (unobserved 0 (Nat.succ_pos _) left rfl)
      have safe := safe_step midway.sound
      have safe' := safe_step midway'.sound
      unfold Marches Abreast at marches
      rw [Safe] at safe safe'
      rw [run] at goesOn ⊢
      rw [run] at goesOn' ⊢
      generalize ran : step left = result at marches safe goesOn ⊢
      generalize ran' : step right = result' at marches safe' goesOn' ⊢
      cases marches with
      | @both progress progress' after after' landed =>
        obtain ⟨rfl, ⟨more, twins⟩, _⟩ := landed
        cases progress' with
        | running =>
          exact (ih steps' twins (midway.step ran) (midway'.step ran') (unobserved.next ran)).succ
        | finished => exact agree_of_same twins.output.symm
      | same output output' => exact agree_of_same (output.trans output'.symm)
      | cut cuts output => exact agree_of_halted output goesOn' fun _ => cuts
      | @cut' error _ _ cuts output =>
        have isCut : (Outcome.faulted error).Cut := cuts
        exact (agree_of_halted output goesOn fun _ => isCut).symm
      | wrong => exact safe.elim
      | wrong' => exact safe'.elim

end Running

section Entering

/-- A machine that executes nothing and has nothing on its stack. -/
structure Idle (machine : Machine) : Prop where
  frames : machine.frames = []
  cells : machine.openCells = []
  stack : machine.stack = #[]

theorem Idle.reset (idle : Idle left) :
    left.reset = { left with heap := left.heap.release left.arenaBytes, arenaBytes := 0 } := by
  obtain ⟨frames, cells, stack⟩ := idle
  cases left
  cases frames
  cases cells
  cases stack
  rfl

theorem Twin.idle (twin : Twin pairs left right) (idle : Idle left) : Idle right := by
  obtain ⟨frames, cells, stack⟩ := idle
  have sameFrames := twin.frames
  have sameCells := twin.cells
  have sameSize := twin.stack.size
  rw [frames] at sameFrames
  rw [cells] at sameCells
  rw [stack] at sameSize
  exact ⟨List.forall₂_nil_left_iff.mp sameFrames, List.forall₂_nil_left_iff.mp sameCells,
    Array.eq_empty_of_size_eq_zero sameSize.symm⟩

variable {script script' : ObjectId}

theorem lands_enter (twin : Twin pairs left right) (idle : Idle left) (paired : pairs script script')
    {body body' : Prototype} (here : left.heap.prototype? script = some body)
    (there : right.heap.prototype? script' = some body') (output : left.output = said) :
    Lands said (enter script) (enter script') left right := by
  have released : ∀ (heap : Heap) (bytes : UInt64), heap.Thins (heap.release bytes) :=
    fun _ _ => .of_same rfl rfl rfl
  have recounted := @Twin.recount _ _ _ _ _ 0 0 twin (released left.heap left.arenaBytes)
    (released right.heap right.arenaBytes)
  have idle' := twin.idle idle
  unfold Lands enter
  rw [abreast_modify_bind, idle.reset, idle'.reset]
  refine abreast_bind (abreast_newClosure recounted paired here there output
    fun more closure closure' heap heap' goes joined => ?_)
  refine abreast_bind (abreast_push goes.twin (.ref joined) output fun pushed => ?_)
  refine abreast_callClosure pushed ?_ joined output onward_landed
  simp only [trace, idle.frames, idle'.frames, List.map_nil]

theorem Launches.midway {after : Machine} (launches : Launches left script)
    (entered : enter script left = .ok () after) : ∃ program, Midway program after := by
  obtain ⟨program, live, body, _, lasting, filed, isLive, present, complete⟩ := launches
  have safe := lasting.enters isLive present complete
  rw [Safe, entered] at safe
  exact ⟨program, safe, poised_enter safe filed entered⟩

theorem Launches.enters {after : Machine} (launches : Launches left script) :
    enter script left ≠ .error .wrong after := by
  intro wrong
  refine (launches.interpret 0).2 ?_
  rw [Machine.interpret, wrong]

theorem Launches.prototype? (launches : Launches left script) :
    ∃ body, left.heap.prototype? script = some body := by
  obtain ⟨_, _, body, _, _, _, _, present, _⟩ := launches
  exact ⟨body, by rw [Heap.prototype?, present]⟩

/-- Whether one of the first `steps` instructions of a script calls a native function that observes the
heap or the time. -/
def observesWithin (machine : Machine) (script : ObjectId) (steps : Nat) : Bool :=
  (List.range steps).any fun taken =>
    match machine.interpret script taken with
    | (.paused, after) => after.callsObserver
    | _ => false

theorem unobserved_of_enter {after : Machine} {steps : Nat}
    (unobserved : left.observesWithin script steps = false)
    (entered : enter script left = .ok () after) : Unobserved after steps := by
  intro taken within final paused
  have quiet := List.any_eq_false.mp unobserved taken (List.mem_range.mpr within)
  rw [interpret, entered] at quiet
  dsimp only at quiet
  rw [paused] at quiet
  exact Bool.eq_false_iff.mpr quiet

/-- Two runs of the script of one unit agree. -/
theorem interpret_agree (twin : Twin pairs left right) (idle : Idle left)
    (paired : pairs script script') (launches : Launches left script)
    (launches' : Launches right script') (steps steps' : Nat)
    (unobserved : left.observesWithin script steps = false) :
    Agree (EquallyFar steps steps' (interpret left script steps) (interpret right script' steps'))
      (interpret left script steps) (interpret right script' steps') := by
  obtain ⟨body, here⟩ := launches.prototype?
  obtain ⟨body', there⟩ := launches'.prototype?
  have lands := lands_enter twin idle paired here there rfl
  have goesOn := said_interpret left script steps
  have goesOn' := said_interpret right script' steps'
  rw [twin.output] at goesOn'
  unfold Lands Abreast at lands
  unfold interpret at goesOn goesOn' ⊢
  generalize entered : enter script left = result at lands goesOn ⊢
  generalize entered' : enter script' right = result' at lands goesOn' ⊢
  cases lands with
  | both landed =>
    obtain ⟨⟨more, twins⟩, _⟩ := landed
    obtain ⟨_, midway⟩ := launches.midway entered
    obtain ⟨_, midway'⟩ := launches'.midway entered'
    exact run_agree steps steps' twins midway midway' (unobserved_of_enter unobserved entered)
  | same output output' => exact agree_of_same (output.trans output'.symm)
  | cut cuts output => exact agree_of_halted output goesOn' fun _ => cuts
  | @cut' error _ _ cuts output =>
    have isCut : (Outcome.faulted error).Cut := cuts
    exact (agree_of_halted output goesOn fun _ => isCut).symm
  | wrong => exact (launches.enters entered).elim
  | wrong' => exact (launches'.enters entered').elim

end Entering

end ScriptMachine.Machine
