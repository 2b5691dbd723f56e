import ScriptMachine.Session

set_option autoImplicit false

/- The command line of the interpreter: its options, and what a run of it does. -/
namespace ScriptMachine

structure CommandLine where
  options : Options := {}
  script : Text := []
  log : Text := ascii "Error.log"

namespace CommandLine

inductive UsageError where
  | missingValue (flag : Text)
  | notANumber
  | invalidValue (flag value : Text)
  | unknownOption (option : Text)
  | secondScript
  deriving DecidableEq, Repr

def UsageError.message : UsageError → Text
  | .missingValue flag => ascii "missing value for " ++ flag
  | .notANumber => ascii "stoull"
  | .invalidValue flag value => ascii "invalid value for " ++ flag ++ ascii ": " ++ value
  | .unknownOption option => ascii "unknown option " ++ option
  | .secondScript => ascii "only one script may be given"

def usage : Text :=
  ascii "Usage: dyna [options] [script]\n"
    ++ ascii "  --stress-gc          collect before every allocation\n"
    ++ ascii "  --gc-log             log one line per collection\n"
    ++ ascii "  --heap-limit <bytes> fail allocations beyond this heap size\n"
    ++ ascii "  --max-frames <n>     call depth limit (default 64)\n"
    ++ ascii "  --dump-bytecode      disassemble each unit before running it\n"
    ++ ascii "  --log-file <path>    error log file (default Error.log)\n"
    ++ ascii "  --quiet-log          disable the error log file\n"

/-- The number at the start of a text and what follows it: blanks, a sign, digits. A number
that a 64-bit word cannot hold is none, and a minus sign negates the word. -/
def leadingWord (text : Text) : Option (UInt64 × Text) :=
  let unsigned := text.dropWhile Text.isSpace
  let (negative, digitsOn) := match unsigned with
    | 43 :: rest => (false, rest)
    | 45 :: rest => (true, rest)
    | rest => (false, rest)
  let digits := digitsOn.takeWhile Text.isDigit
  let value := Text.digitsValue digits
  if digits.isEmpty || 18446744073709551615 < value then none
  else
    let word := value.toUInt64
    some (if negative then 0 - word else word, digitsOn.dropWhile Text.isDigit)

/-- The operand of a flag that takes a count. -/
def parseCount (flag value : Text) : Except UsageError UInt64 :=
  match leadingWord value with
  | none => .error .notANumber
  | some (word, []) => .ok word
  | some (_, _ :: _) => .error (.invalidValue flag value)

def withHeap (line : CommandLine) (change : HeapConfig → HeapConfig) : CommandLine :=
  { line with options := { line.options with heap := change line.options.heap } }

def withFrames (line : CommandLine) (maxFrames : Nat) : CommandLine :=
  { line with
    options := { line.options with machine := { line.options.machine with maxFrames } } }

/-- The options that stand alone. -/
def flag? (line : CommandLine) (argument : Text) : Option CommandLine :=
  if argument == ascii "--stress-gc" then
    some (line.withHeap fun heap => { heap with stress := true })
  else if argument == ascii "--gc-log" then
    some (line.withHeap fun heap => { heap with logCollections := true })
  else if argument == ascii "--dump-bytecode" then
    some { line with options := { line.options with dumpBytecode := true } }
  else if argument == ascii "--quiet-log" then
    some { line with log := [] }
  else none

/-- The options that take a value, each with what it does with one. -/
def valued? (argument : Text) :
    Option (CommandLine → Text → Except UsageError CommandLine) :=
  if argument == ascii "--heap-limit" then
    some fun line value => do
      let limit ← parseCount argument value
      return line.withHeap fun heap => { heap with limit }
  else if argument == ascii "--max-frames" then
    some fun line value => do
      return line.withFrames (← parseCount argument value).toNat
  else if argument == ascii "--log-file" then
    some fun line value => return { line with log := value }
  else none

/-- A word of the command line that is no known option. -/
def positional (line : CommandLine) (argument : Text) : Except UsageError CommandLine :=
  if argument.head? == some 45 then .error (.unknownOption argument)
  else if line.script.isEmpty then .ok { line with script := argument }
  else .error .secondScript

/-- Reads the rest of a command line. -/
def parseFrom (line : CommandLine) : List Text → Except UsageError CommandLine
  | [] => .ok line
  | argument :: rest =>
    match line.flag? argument with
    | some line => parseFrom line rest
    | none =>
      match valued? argument with
      | none => do parseFrom (← line.positional argument) rest
      | some apply =>
        match rest with
        | [] => .error (.missingValue argument)
        | value :: rest => do parseFrom (← apply line value) rest

/-- Reads a command line. -/
def parse (arguments : List Text) : Except UsageError CommandLine :=
  parseFrom {} arguments

/-- The session a command line asks for. The journal is not shown: the short form of each
error is. -/
def session (line : CommandLine) : Except Exhausted Session :=
  Session.start line.options { path := line.log, echo := false }

def exitUsage : Nat := 64
def exitCompileError : Nat := 65
def exitRuntimeError : Nat := 70
def exitUnreadable : Nat := 74

/-- The exit code for the status of a script. -/
def exitCode : Session.Status → Nat
  | .compileError => exitCompileError
  | .runtimeError => exitRuntimeError
  | .ok | .running | .stuck => 0

/-- What is written to the error stream for a unit's status. -/
def complaint (session : Session) : Session.Status → Text
  | .compileError | .runtimeError => session.lastError ++ [Text.newline]
  | .ok | .running | .stuck => []

def prompt : Text := ascii "> "

/-- What a run of the program leaves behind. -/
structure Answer where
  exit : Nat
  stdout : Text := []
  stderr : Text := []
  entries : List Entry := []

/-- The complaint about a command line that cannot be read. -/
def refusal (error : UsageError) : Answer :=
  { exit := exitUsage
    stderr := ascii "dyna: " ++ error.message ++ [Text.newline] ++ usage }

/-- The complaint about a script that cannot be read. -/
def unreadable (path : Text) : Answer :=
  { exit := exitUnreadable
    stderr := Session.unreadableMessage path ++ [Text.newline] }

/-- The lines of a text; a last line without an end counts when it is not empty. -/
def inputLines (text : Text) : List Text :=
  let lines := text.splitOn Text.newline
  if lines.getLast? == some [] then lines.dropLast else lines

/-- One line given to the prompt. The result is the session and what it complains about. -/
def replLine (session : Session) (time line : Text) (steps : Nat) : Session × Text :=
  if line.isEmpty then (session, [])
  else
    let (session, status) := session.interpret time line steps
    (session, complaint session status)

/-- All lines given to the prompt, until the input ends. -/
def repl (session : Session) (time input : Text) (steps : Nat) : Session × Text × Text :=
  let turn (state : Session × List Text × List Text) (line : Text) :=
    let (session, printed, complaints) := state
    let (session, complaint) := replLine session time line steps
    let (output, session) := session.takeOutput
    (session, (prompt ++ output) :: printed, complaint :: complaints)
  let (session, printed, complaints) := (inputLines input).foldl turn (session, [], [])
  (session, ((prompt ++ [Text.newline]) :: printed).reverse.flatten, complaints.reverse.flatten)

/-- A script run to its end. -/
def runScript (session : Session) (time path source : Text) (steps : Nat) :
    Session × Session.Status :=
  let journal := session.journal.addContext (ascii "script") path
  { session with journal }.interpret time source steps

/-- A run of the program. `readFile` gives what a file holds, if it can be read, once the given
entries have been written: starting the session may write some. A session that cannot even
start ends the program. -/
def run (arguments : List Text) (readFile : List Entry → Text → Option Text)
    (input time : Text) (steps : Nat) : Except Exhausted Answer := do
  match parse arguments with
  | .error error => return refusal error
  | .ok line =>
    let (first, session) := ((← line.session).drained time).takeEntries
    if line.script.isEmpty then
      let (session, stdout, stderr) := repl session time input steps
      return { exit := 0, stdout, stderr, entries := first ++ session.takeEntries.1 }
    else
      match readFile first line.script with
      | none => return { unreadable line.script with entries := first }
      | some source =>
        let (session, status) := runScript session time line.script source steps
        return {
          exit := exitCode status
          stdout := session.takeOutput.1
          stderr := complaint session status
          entries := first ++ session.takeEntries.1 }

end CommandLine

end ScriptMachine
