import Std.Time
import ScriptMachine.CommandLine.Disassemble

set_option autoImplicit false

/- The programs. All they do is to read files and standard input, to look at the clock, and to
write what the command lines' definitions ask for. -/
namespace ScriptMachine.Program

/-- How many instructions run between two looks at the clock. -/
def slice : Nat := 100000

def textOf (text : String) : Text :=
  text.toUTF8.data.toList

def pathOf (text : Text) : String :=
  (String.fromUTF8? ⟨text.toArray⟩).getD ""

def put (stream : IO.FS.Stream) (text : Text) : IO Unit := do
  stream.write ⟨text.toArray⟩
  stream.flush

def timestamp : IO Text := do
  return textOf ((← Std.Time.PlainDateTime.now).format "uuuu-MM-dd HH:mm:ss.SSS")

/-- Milliseconds since the beginning of 1970. -/
def milliseconds : IO Float := do
  return Float.ofInt (← Std.Time.Timestamp.now).toMillisecondsSinceUnixEpoch.val

/-- What a file holds, if it can be read. -/
def readSource (path : Text) : IO (Option Text) := do
  try
    return some (← IO.FS.readBinFile (pathOf path)).data.toList
  catch _ =>
    return none

/-- Writes a journal entry; a file that cannot be written to is passed over. -/
def writeEntry (entry : Entry) : IO Unit := do
  if !entry.path.isEmpty then
    try
      let file ← IO.FS.Handle.mk (pathOf entry.path) .append
      file.write ⟨entry.text.toArray⟩
      file.flush
    catch _ => pure ()
  if entry.echo then
    put (← IO.getStderr) entry.text

/-- Writes what a session has printed and noted, and shows it the time. -/
def refresh (session : Session) : IO Session := do
  let (output, session) := session.takeOutput
  put (← IO.getStdout) output
  let (entries, session) := session.takeEntries
  entries.forM writeEntry
  return { session with machine := { session.machine with now := ← milliseconds } }

/-- Runs a unit to its end, slice by slice. -/
partial def complete (session : Session) (status : Session.Status) :
    IO (Session × Session.Status) := do
  let session ← refresh session
  if status == .running then
    let (session, status) := session.resume (← timestamp) slice
    complete session status
  else
    return (session, status)

def complain (session : Session) (status : Session.Status) : IO Unit := do
  put (← IO.getStderr) (CommandLine.complaint session status)

/-- Reads lines and runs each as a unit, until the input ends. -/
partial def repl (session : Session) : IO Unit := do
  put (← IO.getStdout) CommandLine.prompt
  let line ← (← IO.getStdin).getLine
  if line.isEmpty then
    put (← IO.getStdout) [Text.newline]
  else
    let source := textOf (if line.endsWith "\n" then (line.dropEnd 1).toString else line)
    if source.isEmpty then
      repl session
    else
      let (session, status) := session.interpret (← timestamp) source slice
      let (session, status) ← complete session status
      complain session status
      repl session

def runScript (session : Session) (path : Text) : IO Nat := do
  match ← readSource path with
  | none =>
    let answer := CommandLine.unreadable path
    put (← IO.getStderr) answer.stderr
    return answer.exit
  | some source =>
    let (session, status) := CommandLine.runScript session (← timestamp) path source slice
    let (session, status) ← complete session status
    complain session status
    return CommandLine.exitCode status

/-- The interpreter. -/
def interpreter (arguments : List String) : IO Nat := do
  match CommandLine.parse (arguments.map textOf) with
  | .error error =>
    let answer := CommandLine.refusal error
    put (← IO.getStderr) answer.stderr
    return answer.exit
  | .ok line =>
    match line.session with
    | .error failure =>
      put (← IO.getStderr) (failure.message ++ [Text.newline])
      return 134
    | .ok session =>
      let session ← refresh (session.drained (← timestamp))
      if line.script.isEmpty then
        repl session
        return 0
      else
        runScript session line.script

/-- The lister. -/
def lister (arguments : List String) : IO Nat := do
  let arguments := arguments.map textOf
  let source ← match arguments with
    | [path] => readSource path
    | _ => pure none
  let answer := CommandLine.disassemble arguments fun _ => source
  put (← IO.getStdout) answer.stdout
  put (← IO.getStderr) answer.stderr
  return answer.exit

end ScriptMachine.Program

/-- Runs the interpreter on the arguments of the command line. -/
def main (arguments : List String) : IO UInt32 := do
  return (← ScriptMachine.Program.interpreter arguments).toUInt32
