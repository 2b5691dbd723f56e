import ScriptMachine.Proofs.Twins.Runs
import ScriptMachine.Proofs.Twins.Units

set_option autoImplicit false

/- Memory management and limits in a session. Two sessions that know the same native functions, with
heaps and stacks of any configurations, run a unit alike as far as both come. -/
namespace ScriptMachine

namespace Machine

variable {pairs : Pairing} {left right left' right' : Machine}

theorem twin_empty (config config' : MachineConfig) (heap heap' : HeapConfig) :
    Twin (fun _ _ => False) { config, heap := .empty heap }
      { config := config', heap := .empty heap' } where
  heap :=
    { tidy := .empty heap
      tidy' := .empty heap'
      bounded := False.elim
      alike := False.elim
      single := False.elim
      single' := False.elim }
  registry := ⟨.empty, rfl⟩
  output := rfl
  stack := .empty
  frames := .nil
  cells := .nil
  globals := .empty
  natives := .empty
  nextNode := rfl
  nodes here := by simp [node?] at here
  numbered := ⟨by simp [StackStruct.Unique, nodeIds, arenas, StackStruct.idsAmong],
    by simp [nodeIds, arenas, StackStruct.idsAmong]⟩
  numbered' := ⟨by simp [StackStruct.Unique, nodeIds, arenas, StackStruct.idsAmong],
    by simp [nodeIds, arenas, StackStruct.idsAmong]⟩
  opened entry member := by cases member
  opened' entry member := by cases member

/-- The names of native functions are there, whichever is added. -/
theorem Filed.named {key id name native : ObjectId} {heap : Heap}
    (filed : Filed { left with heap, natives := left.natives.insert key id })
    (found : left.natives[name]? = some native) : (heap.get? name).isSome := by
  have known : ∃ other, (left.natives.insert key id)[name]? = some other := by
    rw [Std.TreeMap.getElem?_insert]
    split
    · exact ⟨_, rfl⟩
    · exact ⟨_, found⟩
  obtain ⟨other, found⟩ := known
  obtain ⟨⟨text, present⟩, _⟩ := filed.natives found
  rw [present]
  rfl

/-- The same native function is made known to both machines. -/
theorem Twin.define {native : Native} (twin : Twin pairs left right) (usable : Usable left)
    (usable' : Usable right) (defined : defineNative native left = .ok () left')
    (defined' : defineNative native right = .ok () right') : ∃ more, Twin more left' right' := by
  have filed := (usable.define defined).poised.filed
  have filed' := (usable'.define defined').poised.filed
  rcases defineNative_cases native left with ⟨_, _, _, failed⟩ |
    ⟨key, named, id, heap, interned, allocated, isDefined⟩
  · rw [failed] at defined
    cases defined
  rcases defineNative_cases native right with ⟨_, _, _, failed⟩ |
    ⟨key', named', id', heap', interned', allocated', isDefined'⟩
  · rw [failed] at defined'
    cases defined'
  cases isDefined.symm.trans defined
  cases isDefined'.symm.trans defined'
  obtain ⟨more, goes, keys⟩ := twin.heap.interned interned interned'
  obtain ⟨most, goes', ids⟩ := goes.twin.allocated (by simp) (by simp) (.native native) allocated
    allocated'
  have twins := twin.withHeap (goes.trans goes')
  refine ⟨most, { twins.twin with natives := ?_ }⟩
  have inserted : ∀ {machine : Machine} {key id : ObjectId},
      (machine.natives.insert key id)[key]? = some id := by simp
  obtain ⟨⟨_, here⟩, _⟩ := filed.natives inserted
  obtain ⟨⟨_, there⟩, _⟩ := filed'.natives inserted
  exact twins.twin.natives.insert goes'.twin (goes'.larger _ _ keys) (by rw [here]; rfl)
    (by rw [there]; rfl) filed.named filed'.named ids

/-- All that a machine has in use is there. -/
theorem Usable.provided (usable : Usable left) :
    Compiler.Provided left.roots left.registry left.heap := by
  obtain ⟨_, _, _, _, data⟩ := usable.data
  refine ⟨fun id reached => ?_, fun id member => mem_roots_of_registry member⟩
  obtain ⟨object, here, _⟩ := data.stored.sane (data.reached reached)
  rw [here]
  rfl

end Machine

namespace Session

open Machine (Comparable)

/-- A new session that knows some native functions besides `clock`. -/
def prepared (options : Options) (natives : List Native) : Except Exhausted Session := do
  natives.foldlM define (← start options {})

/-- There is no room for the code of a unit, or the first `steps` instructions of it fail because there
is no room left on the heap or on the stack. -/
def Truncated (session : Session) (source : Text) (steps : Nat) : Prop :=
  (∃ failure, (Compiler.compileSource session.machine.heap session.machine.registry
    session.machine.roots source).2 = .error (.exhausted failure)) ∨
  ∃ machine script, session.launched source = some (machine, script) ∧
    (machine.interpret script steps).1.Cut

/-- Whether one of the first `steps` instructions of a unit calls a native function that observes the
heap or the time. -/
def observesWithin (session : Session) (source : Text) (steps : Nat) : Bool :=
  (session.launched source).any fun (machine, script) => machine.observesWithin script steps

section Preparing

/-- Sessions that have gone through the same, with any configurations, and execute nothing. -/
structure Twins (one other : Session) : Prop where
  twin : ∃ pairs, Machine.Twin pairs one.machine other.machine
  idle : Machine.Idle one.machine
  reachable : Reachable one
  reachable' : Reachable other

variable {one other next next' : Session} {options options' : Options} {native : Native}
  {natives : List Native}

theorem machine_of_define {session : Session} (defined : session.define native = .ok next) :
    Machine.defineNative native session.machine = .ok () next.machine ∧
      next.options = session.options := by
  unfold define at defined
  rcases Machine.defineNative_cases native session.machine with ⟨_, _, _, failed⟩ |
    ⟨_, _, _, _, _, _, succeeded⟩
  · rw [failed] at defined
    cases defined
  · rw [succeeded] at defined ⊢
    cases defined
    exact ⟨rfl, rfl⟩

theorem idle_define (idle : Machine.Idle one.machine) (defined : one.define native = .ok next) :
    Machine.Idle next.machine := by
  obtain ⟨ran, _⟩ := machine_of_define defined
  rcases Machine.defineNative_cases native one.machine with ⟨_, _, _, failed⟩ |
    ⟨_, _, _, _, _, _, succeeded⟩
  · cases failed.symm.trans ran
  · have same := succeeded.symm.trans ran
    simp only [EStateM.Result.ok.injEq, true_and] at same
    rw [← same]
    exact ⟨idle.frames, idle.cells, idle.stack⟩

theorem Twins.define (twins : Twins one other) (defined : one.define native = .ok next)
    (defined' : other.define native = .ok next') : Twins next next' := by
  obtain ⟨_, twin⟩ := twins.twin
  exact
    { twin := twin.define twins.reachable.usable twins.reachable'.usable
        (machine_of_define defined).1 (machine_of_define defined').1
      idle := idle_define twins.idle defined
      reachable := twins.reachable.define defined
      reachable' := twins.reachable'.define defined' }

theorem options_start {journal : Journal} (started : start options journal = .ok one) :
    one.options = options :=
  (machine_of_define started).2

theorem twins_start (started : start options {} = .ok one) (started' : start options' {} = .ok other) :
    Twins one other where
  twin := (Machine.twin_empty _ _ _ _).define (usable_empty _) (usable_empty _)
    (machine_of_define started).1 (machine_of_define started').1
  idle := @idle_define { options, machine := { config := options.machine, heap := .empty options.heap } }
    _ _ ⟨rfl, rfl, rfl⟩ started
  reachable := .start started
  reachable' := .start started'

theorem twins_foldlM (natives : List Native) {one other next next' : Session} (twins : Twins one other)
    (defined : natives.foldlM define one = .ok next)
    (defined' : natives.foldlM define other = .ok next') :
    Twins next next' ∧ next.options = one.options ∧ next'.options = other.options := by
  induction natives generalizing one other with
  | nil =>
    cases defined
    cases defined'
    exact ⟨twins, rfl, rfl⟩
  | cons native rest ih =>
    rw [List.foldlM_cons] at defined defined'
    cases first : one.define native with
    | error failure =>
      rw [first] at defined
      cases defined
    | ok middle =>
      cases first' : other.define native with
      | error failure =>
        rw [first'] at defined'
        cases defined'
      | ok middle' =>
        rw [first] at defined
        rw [first'] at defined'
        have later := ih (twins.define first first') defined defined'
        rwa [(machine_of_define first).2, (machine_of_define first').2] at later

theorem twins_prepared (ready : prepared options natives = .ok one)
    (ready' : prepared options' natives = .ok other) :
    Twins one other ∧ one.options = options ∧ other.options = options' := by
  unfold prepared at ready ready'
  cases started : start options {} with
  | error failure =>
    rw [started] at ready
    cases ready
  | ok first =>
    cases started' : start options' {} with
    | error failure =>
      rw [started'] at ready'
      cases ready'
    | ok first' =>
      rw [started] at ready
      rw [started'] at ready'
      have later := twins_foldlM natives (twins_start started started') ready ready'
      rwa [options_start started, options_start started'] at later

end Preparing

section Interpreting

variable {one other : Session} {source : Text} {steps steps' : Nat} {time time' : Text}

theorem dumped_quiet {session : Session} (quiet : session.options.dumpBytecode = false)
    (script : ObjectId) : session.dumped script = session := by
  unfold dumped
  split
  · rw [quiet]
    rfl
  · rfl

/-- What a caller sees of a unit. -/
structure Alike (one other : Session × Status) : Prop where
  status : other.2 = one.2
  output : other.1.machine.output = one.1.machine.output
  lastError : other.1.lastError = one.1.lastError

/-- A unit that has ended is not in the middle of its run. -/
theorem ended_concluded {session : Session} {result : Machine.Outcome × Machine}
    (ended : (session.concluded time result).2 ≠ .running) : result.1 ≠ .paused := by
  obtain ⟨outcome, machine⟩ := result
  rintro rfl
  exact ended rfl

theorem output_concluded (session : Session) (result : Machine.Outcome × Machine) :
    (session.concluded time result).1.machine.output = result.2.output := by
  obtain ⟨outcome, machine⟩ := result
  cases outcome <;> rfl

/-- Units whose runs have ended alike are alike. -/
theorem alike_concluded {result result' : Machine.Outcome × Machine}
    (lastError : other.lastError = one.lastError) (outcome : result'.1 = result.1)
    (output : result'.2.output = result.2.output) :
    Alike (one.concluded time result) (other.concluded time' result') := by
  obtain ⟨outcome, machine⟩ := result
  obtain ⟨_, machine'⟩ := result'
  cases outcome
  cases ‹Machine.Outcome› <;> exact ⟨rfl, output, by first | exact lastError | rfl⟩

/-- Units that have been rejected for the same reason are alike. -/
theorem alike_rejected (output : other.machine.output = one.machine.output)
    (lastError : other.lastError = one.lastError) (failure : Compiler.Failure) :
    Alike (one.rejected time failure) (other.rejected time' failure) := by
  cases failure <;> exact ⟨rfl, output, by first | exact lastError | rfl⟩

theorem output_rejected (session : Session) (failure : Compiler.Failure) :
    (session.rejected time failure).1.machine.output = session.machine.output := by
  cases failure <;> rfl

section Results

variable {session : Session} {heap : Heap}

theorem interpret_of_failed {failure : Compiler.Failure}
    (ran : Compiler.compileSource session.machine.heap session.machine.registry session.machine.roots
      source = (heap, .error failure)) :
    session.interpret time source steps = { session with
      lastError := []
      machine := { session.machine with heap } }.rejected time failure := by
  unfold Session.interpret
  dsimp only
  rw [ran]

theorem launched_of_compiled {compiled : Compiler.Compiled}
    (quiet : session.options.dumpBytecode = false)
    (ran : Compiler.compileSource session.machine.heap session.machine.registry session.machine.roots
      source = (heap, .ok compiled)) :
    session.launched source
      = some ({ session.machine with heap, registry := compiled.registry }, compiled.script) := by
  unfold launched
  dsimp only
  rw [ran]
  dsimp only
  rw [dumped_quiet]
  exact quiet

/-- A unit only appends to the output. -/
theorem said_unit (quiet : session.options.dumpBytecode = false) :
    Machine.Said session.machine.output (session.interpret time source steps).1.machine := by
  cases ran : Compiler.compileSource session.machine.heap session.machine.registry
    session.machine.roots source with
  | mk heap result =>
    cases result with
    | error failure =>
      rw [interpret_of_failed ran, Machine.Said, output_rejected]
      exact Machine.Said.refl session.machine
    | ok compiled =>
      rw [interpret_of_launched (launched_of_compiled quiet ran), Machine.Said, output_concluded]
      exact Machine.said_interpret { session.machine with heap, registry := compiled.registry } _ steps

end Results

/-- A unit that does not get to an end has printed the beginning of what it prints with more room. -/
theorem comparable_of_failed {failure : Compiler.Failure} {heap : Heap}
    (quiet : other.options.dumpBytecode = false)
    (ran : Compiler.compileSource one.machine.heap one.machine.registry one.machine.roots source
      = (heap, .error failure)) (output : other.machine.output = one.machine.output) :
    Comparable (one.interpret time source steps).1.machine.output
      (other.interpret time' source steps').1.machine.output := by
  have goesOn := @said_unit source steps' time' other quiet
  rw [output] at goesOn
  rw [interpret_of_failed ran, output_rejected]
  exact .inl goesOn.prefix

/-- Two runs of a unit tell the same. Whatever they have come to, one of the two outputs is the beginning
of the other. If both units have ended, or have executed the same number of instructions, they are alike,
unless one of them was cut short for lack of room. -/
structure Agree (source : Text) (one other : Session) (steps steps' : Nat)
    (result result' : Session × Status) : Prop where
  outputs : Comparable result.1.machine.output result'.1.machine.output
  ends : steps = steps' ∨ result.2 ≠ .running ∧ result'.2 ≠ .running →
    ¬ one.Truncated source steps → ¬ other.Truncated source steps' → Alike result result'

theorem interpret_twins (twins : Twins one other) (quiet : one.options.dumpBytecode = false)
    (quiet' : other.options.dumpBytecode = false)
    (unobserved : one.observesWithin source steps = false) :
    Agree source one other steps steps' (one.interpret time source steps)
      (other.interpret time' source steps') := by
  obtain ⟨pairs, twin⟩ := twins.twin
  have usable := twins.reachable.usable
  have usable' := twins.reachable'.usable
  have compiles : Compiler.Compiles pairs one.machine.heap other.machine.heap
      (Compiler.compileSource one.machine.heap one.machine.registry one.machine.roots source)
      (Compiler.compileSource other.machine.heap other.machine.registry other.machine.roots source) :=
    Compiler.compile_twins twin.heap twin.registry usable.provided usable'.provided (Token.scan source)
  generalize ran : Compiler.compileSource one.machine.heap one.machine.registry one.machine.roots
    source = result at compiles
  generalize ran' : Compiler.compileSource other.machine.heap other.machine.registry
    other.machine.roots source = result' at compiles
  cases compiles with
  | @exhausted failure _ _ =>
    refine ⟨comparable_of_failed quiet' ran twin.output, fun _ uncut => ?_⟩
    exact absurd (.inl ⟨failure, by rw [ran]⟩) uncut
  | @exhausted' failure _ _ =>
    refine ⟨(comparable_of_failed quiet ran' twin.output.symm).symm, fun _ _ uncut => ?_⟩
    exact absurd (.inl ⟨failure, by rw [ran']⟩) uncut
  | failed failure =>
    refine ⟨comparable_of_failed quiet' ran twin.output, fun _ _ _ => ?_⟩
    rw [interpret_of_failed ran, interpret_of_failed ran']
    apply alike_rejected
    · exact twin.output
    · rfl
  | @compiled more heap heap' compiled compiled' goes registries scripts =>
    have isLaunched := launched_of_compiled quiet ran
    have isLaunched' := launched_of_compiled quiet' ran'
    have compiledTwin : Machine.Twin more
        { one.machine with heap, registry := compiled.registry }
        { other.machine with heap := heap', registry := compiled'.registry } :=
      { (twin.withHeap goes).twin with registry := registries }
    have agree := Machine.interpret_agree compiledTwin
      ⟨twins.idle.frames, twins.idle.cells, twins.idle.stack⟩ scripts
      (launches_of_launched usable twins.reachable.confined.heap isLaunched)
      (launches_of_launched usable' twins.reachable'.confined.heap isLaunched') steps steps'
      (by simpa [observesWithin, isLaunched] using unobserved)
    rw [interpret_of_launched isLaunched, interpret_of_launched isLaunched']
    refine ⟨?_, fun isLevel uncut uncut' => ?_⟩
    · rw [output_concluded, output_concluded]
      exact agree.outputs
    · obtain ⟨outcome, output⟩ := agree.ends (isLevel.imp_right (.imp ended_concluded ended_concluded))
        (fun cut => uncut (.inr ⟨_, _, isLaunched, cut⟩))
        fun cut => uncut' (.inr ⟨_, _, isLaunched', cut⟩)
      exact alike_concluded rfl outcome output

/-- Memory management and limits can be seen by nothing but truncation. Two new sessions with any
configurations of the heap and of the machine, which know the same native functions and print no
listings, agree about every unit that calls no function to observe the heap or the time. -/
theorem limits_only_truncate {options options' : Options} {natives : List Native}
    (quiet : options.dumpBytecode = false) (quiet' : options'.dumpBytecode = false)
    (ready : prepared options natives = .ok one) (ready' : prepared options' natives = .ok other)
    (unobserved : one.observesWithin source steps = false) :
    Agree source one other steps steps' (one.interpret time source steps)
      (other.interpret time' source steps') := by
  obtain ⟨twins, isOne, isOther⟩ := twins_prepared ready ready'
  exact interpret_twins twins (isOne ▸ quiet) (isOther ▸ quiet') unobserved

theorem prepared_nil (options : Options) : prepared options [] = start options {} := by
  unfold prepared
  cases start options {} <;> rfl

/-- A session with little room agrees with one that collects before every allocation. -/
theorem stress_only_truncates : ∃ other : Session,
    prepared { heap := { stress := true } } [] = .ok other ∧
    Agree (ascii "print nil == (1 < 2);") (fresh { maxFrames := 8, stackSlots := 64 }) other 16 32
      ((fresh { maxFrames := 8, stackSlots := 64 }).interpret [] (ascii "print nil == (1 < 2);") 16)
      (other.interpret [] (ascii "print nil == (1 < 2);") 32) := by
  obtain ⟨other, started⟩ := @start_unlimited { heap := { stress := true } } rfl {}
  have ready' : prepared { heap := { stress := true } } [] = .ok other := by
    rw [prepared_nil, started]
  have ready : prepared { machine := { maxFrames := 8, stackSlots := 64 } } []
      = .ok (fresh { maxFrames := 8, stackSlots := 64 }) := by
    rw [prepared_nil, start_fresh]
  exact ⟨other, ready', limits_only_truncate rfl rfl ready ready' (by decide +kernel)⟩

end Interpreting

end Session

end ScriptMachine
