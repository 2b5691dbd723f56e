import ScriptMachine.Compiler
import ScriptMachine.Journal
import ScriptMachine.Listing
import ScriptMachine.Machine

set_option autoImplicit false

/- Sessions: units compiled and run one after the other on one machine. Globals, structs and
traits of a unit are visible to the next ones, and failures go to the journal. -/
namespace ScriptMachine

structure Options where
  heap : HeapConfig := {}
  machine : MachineConfig := {}
  dumpBytecode : Bool := false
  deriving Inhabited

structure Session where
  options : Options
  machine : Machine
  lastError : Text := []
  journal : Journal := {}

namespace Session

/-- How a unit ended, or that it has not ended yet. A `stuck` unit is one that could not be
compiled or run to an answer at all. -/
inductive Status where
  | ok
  | compileError
  | runtimeError
  | running
  | stuck
  deriving DecidableEq, Repr

/-- Makes a native function known to all later units. -/
def define (session : Session) (native : Native) : Except Exhausted Session :=
  match Machine.defineNative native session.machine with
  | .ok _ machine => .ok { session with machine }
  | .error (.fault ⟨.exhausted failure, _⟩) _ => .error failure
  | .error _ machine => .ok { session with machine }

def clock : Native := ⟨ascii "clock", some 0, some .clock⟩

/-- A new session, which knows the native function `clock`. It needs room for that. -/
def start (options : Options) (journal : Journal) : Except Exhausted Session :=
  let machine : Machine := { config := options.machine, heap := .empty options.heap }
  define { options, machine, journal } clock

/-- Moves the log of collections to the journal. -/
def drained (session : Session) (time : Text) : Session :=
  let journal := session.machine.heap.log.reverse.foldl
    (fun journal line => journal.trace time (ascii "gc") line) session.journal
  let heap := { session.machine.heap with log := [] }
  { session with journal, machine := { session.machine with heap } }

def reported (session : Session) (time : Text) (report : Report) : Session :=
  let session := session.drained time
  { session with journal := session.journal.report time report }

/-- The end of a unit by a fault. -/
def faulted (session : Session) (time : Text) (error : RuntimeError) : Session × Status :=
  let innermost := error.trace.head?.getD ⟨ascii "script", 0⟩
  let report := Report.fault error.message innermost.function innermost.line
    (error.trace.map TraceEntry.render) []
  ({ session.reported time report with lastError := error.render }, .runtimeError)

/-- The end of a unit by diagnostics or by a lack of room for its code. -/
def rejected (session : Session) (time : Text) : Compiler.Failure → Session × Status
  | .diagnostics found =>
    let message := Diagnostic.renderAll found
    let report := Report.error message (ascii "Runtime::interpret") [] 0
    ({ session.reported time report with lastError := message }, .compileError)
  | .exhausted failure =>
    let report := Report.exception (ascii "N4dyna18HeapExhaustedErrorE") failure.message
      (ascii "interpret at src/runtime.cpp:58")
    ({ session.reported time report with lastError := failure.message }, .runtimeError)
  | .diverged => (session, .stuck)
  | .unregistered _ => (session, .stuck)

/-- What a unit's run has come to. -/
def concluded (session : Session) (time : Text) : Machine.Outcome × Machine → Session × Status
  | (.finished, machine) => ({ session with machine }.drained time, .ok)
  | (.faulted error, machine) => { session with machine }.faulted time error
  | (.wrong, machine) => ({ session with machine }, .stuck)
  | (.paused, machine) => ({ session with machine }.drained time, .running)

/-- The listing of a script, when listings are asked for. -/
def dumped (session : Session) (script : ObjectId) : Session :=
  match session.machine.heap.prototype? script with
  | some prototype =>
    if session.options.dumpBytecode then
      let listing := Listing.render session.machine.view prototype
      let machine := { session.machine with output := session.machine.output ++ listing }
      { session with machine }
    else session
  | none => session

/-- Compiles a unit and runs at most `steps` instructions of it. -/
def interpret (session : Session) (time source : Text) (steps : Nat) : Session × Status :=
  let machine := session.machine
  let (heap, result) :=
    Compiler.compileSource machine.heap machine.registry machine.roots source
  let session := { session with lastError := [], machine := { machine with heap } }
  match result with
  | .error failure => session.rejected time failure
  | .ok compiled =>
    let machine := { session.machine with registry := compiled.registry }
    let session := { session with machine }.dumped compiled.script
    session.concluded time (session.machine.interpret compiled.script steps)

/-- Runs at most `steps` more instructions of a unit that is still running. -/
def resume (session : Session) (time : Text) (steps : Nat) : Session × Status :=
  session.concluded time (session.machine.run steps)

def unreadableMessage (path : Text) : Text :=
  ascii "Could not open file '" ++ path ++ ascii "'."

/-- Runs the unit in a file, given what the file holds if it can be read. -/
def interpretFile (session : Session) (time path : Text) (source : Option Text) (steps : Nat) :
    Session × Status :=
  match source with
  | none =>
    let message := unreadableMessage path
    let report := Report.error message (ascii "runFile") (ascii "src/runtime.cpp") 67
    ({ session.reported time report with lastError := message }, .compileError)
  | some source =>
    let journal := session.journal.addContext (ascii "script") path
    let (session, status) := { session with journal }.interpret time source steps
    ({ session with journal := session.journal.clearContext }, status)

/-- Collects the garbage of the session. -/
def collected (session : Session) (time : Text) : Session :=
  let machine := session.machine
  let heap := machine.heap.collect machine.roots
  { session with machine := { machine with heap } }.drained time

/-- What has been printed, and the session without it. -/
def takeOutput (session : Session) : Text × Session :=
  (session.machine.output.toList,
    { session with machine := { session.machine with output := #[] } })

/-- The entries to be written to the journal, and the session without them. -/
def takeEntries (session : Session) : List Entry × Session :=
  (session.journal.outbox.toList, { session with journal := session.journal.emptied })

end Session

end ScriptMachine
