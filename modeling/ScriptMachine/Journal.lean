import ScriptMachine.Text

set_option autoImplicit false

/- The error journal: reports on failures and one-line traces, to be appended to a file and
perhaps shown. Times are given as text by whoever writes an entry. -/
namespace ScriptMachine

/-- What a report is about. -/
inductive Report where
  | error (message function file : Text) (line : Int)
  | fault (message function : Text) (line : Nat) (calls : List Text) (remark : Text)
  | exception (kind message context : Text)

namespace Report

def rule : Text :=
  List.replicate 80 61 ++ [Text.newline]

/-- A labelled line. -/
def line (label : String) (text : Text) : Text :=
  ascii label ++ ascii ": " ++ text ++ [Text.newline]

/-- A labelled line, left out when there is nothing to say. -/
def optionalLine (label : String) (text : Text) : Text :=
  if text.isEmpty then [] else line label text

/-- The heading of a section, with a blank line before it. -/
def heading (title : String) : Text :=
  ascii "\n--- " ++ ascii title ++ ascii " ---\n"

def title : Report → Text
  | .error .. => ascii "ERROR LOG"
  | .fault .. => ascii "VM ERROR LOG"
  | .exception .. => ascii "EXCEPTION LOG"

/-- The heading over the context of a report. -/
def contextTitle : Report → String
  | .error .. => "Context"
  | .fault .. => "Debug Context"
  | .exception .. => "Debug Context"

/-- The calls of a fault, numbered from zero. -/
def callLines (calls : List Text) : Text :=
  if calls.isEmpty then []
  else
    heading "Script Call Stack" ++ calls.zipIdx.flatMap fun (call, index) =>
      ascii "  [" ++ Text.ofNat index ++ ascii "] " ++ call ++ [Text.newline]

def body : Report → Text
  | .error message function file sourceLine =>
    line "Message" message ++ optionalLine "Function" function ++ optionalLine "File" file
      ++ if 0 < sourceLine then line "Line" (Text.ofInt sourceLine) else []
  | .fault message function sourceLine calls remark =>
    line "Message" message ++ heading "VM State" ++ line "Current Function" function
      ++ line "Source Line" (if 0 < sourceLine then Text.ofNat sourceLine else ascii "<unknown>")
      ++ callLines calls
      ++ if remark.isEmpty then []
        else heading "Additional Context" ++ remark ++ [Text.newline]
  | .exception kind message context =>
    line "Exception Type" kind ++ line "Message" message.beforeZero
      ++ optionalLine "Context" context

/-- The context of a report, in the order it was added. -/
def contextLines (report : Report) (context : List (Text × Text)) : Text :=
  if context.isEmpty then []
  else
    heading report.contextTitle ++ context.flatMap fun (key, value) =>
      key ++ ascii ": " ++ value ++ [Text.newline]

/-- The text of a report. -/
def render (report : Report) (time : Text) (context : List (Text × Text)) : Text :=
  Text.newline :: rule ++ report.title ++ ascii " - " ++ time ++ [Text.newline] ++ rule
    ++ report.body ++ report.contextLines context ++ rule ++ [Text.newline]

end Report

/-- Text to append to the file at `path`, if that is not empty, and to show if `echo` is set. -/
structure Entry where
  path : Text
  text : Text
  echo : Bool

/-- A journal. `context` is added to the next report. `outbox` holds the entries not yet
written, oldest first. -/
structure Journal where
  path : Text := ascii "Error.log"
  echo : Bool := true
  context : List (Text × Text) := []
  outbox : Array Entry := #[]

namespace Journal

/-- Writes a report and forgets the context. -/
def report (journal : Journal) (time : Text) (report : Report) : Journal :=
  let entry : Entry := ⟨journal.path, report.render time journal.context, journal.echo⟩
  { journal with context := [], outbox := journal.outbox.push entry }

/-- Writes a line of trace, which is never shown. -/
def trace (journal : Journal) (time category message : Text) : Journal :=
  let text := ascii "[" ++ time ++ ascii "] [" ++ category ++ ascii "] " ++ message
    ++ [Text.newline]
  { journal with outbox := journal.outbox.push ⟨journal.path, text, false⟩ }

def addContext (journal : Journal) (key value : Text) : Journal :=
  { journal with context := journal.context ++ [(key, value)] }

def clearContext (journal : Journal) : Journal :=
  { journal with context := [] }

/-- The journal after its entries have been written. -/
def emptied (journal : Journal) : Journal :=
  { journal with outbox := #[] }

end Journal

end ScriptMachine
