import ScriptMachine.Compiler.Shape
import ScriptMachine.Diagnostic
import ScriptMachine.Heap.Allocate
import ScriptMachine.Registry
import ScriptMachine.Token

set_option autoImplicit false

/- The state of a compilation: a cursor in the tokens, the functions being compiled from the
inside out, what is known of globals, and declarations waiting for the unit to succeed. -/
namespace ScriptMachine

namespace Compiler

/-- A place in the tokens. Those in `passed` are behind it, the last one first. -/
structure Cursor where
  passed : List Token
  here : Token
  ahead : List Token

namespace Cursor

/-- A token list that ends with a `finish` token. One that does not have it gets it, on the line
of its last token. -/
def closed (tokens : List Token) : List Token :=
  match tokens.getLast? with
  | none => [⟨.finish, [], 1, 1⟩]
  | some last =>
    if last.kind == .finish then tokens else tokens ++ [⟨.finish, [], last.line, 1⟩]

/-- The beginning of a token list. -/
def start (tokens : List Token) : Cursor :=
  match closed tokens with
  | here :: ahead => ⟨[], here, ahead⟩
  | [] => ⟨[], ⟨.finish, [], 1, 1⟩, []⟩

/-- The token last passed; the first token when none has been. -/
def previous (cursor : Cursor) : Token :=
  cursor.passed.head?.getD cursor.here

/-- The token behind the current one; the last token is behind itself. -/
def next (cursor : Cursor) : Token :=
  cursor.ahead.head?.getD cursor.here

/-- Moves by one token. -/
def moved (cursor : Cursor) : Cursor :=
  match cursor.ahead with
  | [] => cursor
  | here :: ahead => ⟨cursor.here :: cursor.passed, here, ahead⟩

/-- Leaves out the malformed tokens at the cursor; the previous token stays. -/
def settled (cursor : Cursor) : Cursor :=
  match (cursor.here :: cursor.ahead).dropWhile fun token => token.kind == .malformed with
  | [] => cursor
  | here :: ahead => { cursor with here, ahead }

end Cursor

/-- A declared local. Its depth is unset while its own initialiser is compiled. `branch` is the
nesting of conditional code at the declaration: an assignment at the same nesting always runs. -/
structure Variable where
  name : Text
  depth : Option Nat
  captured : Bool := false
  shape : Shape := {}
  branch : Nat := 0

inductive FunctionKind where
  | script
  | function
  | method
  deriving DecidableEq, Repr

/-- A function being compiled: the object its prototype will fill, the prototype so far, and
its locals with the newest first. -/
structure Draft where
  id : ObjectId
  kind : FunctionKind
  name : Text
  body : Prototype
  locals : List Variable
  scopeDepth : Nat := 0
  branchDepth : Nat := 0

namespace Draft

def atTopLevel (draft : Draft) : Bool :=
  draft.kind == .script && draft.scopeDepth == 0

/-- The slot and the declaration that a name refers to among a draft's locals. -/
def findLocal (draft : Draft) (name : Text) : Option (Nat × Variable) :=
  go draft.locals
where
  go : List Variable → Option (Nat × Variable)
    | [] => none
    | newest :: older =>
      if newest.name == name then some (older.length, newest) else go older

/-- Changes the local in a slot. -/
def modifyLocal (draft : Draft) (slot : Nat) (change : Variable → Variable) : Draft :=
  { draft with locals := draft.locals.modify (draft.locals.length - 1 - slot) change }

/-- Changes the newest local. -/
def modifyNewest (draft : Draft) (change : Variable → Variable) : Draft :=
  { draft with locals := draft.locals.modify 0 change }

/-- The objects a draft keeps alive. -/
def roots (draft : Draft) : List ObjectId :=
  draft.id :: draft.body.references

end Draft

/-- What is known of a global, and whether it has been assigned to since its definition. -/
structure Global where
  shape : Shape := {}
  reassigned : Bool := false

structure StagedMethod where
  struct : StructId
  name : Text
  method : Method

/-- Declarations of the unit that no other unit sees yet. -/
structure Staged where
  structs : Array StructType := #[]
  traits : List TraitType := []
  impls : List (StructId × Text) := []
  methods : List StagedMethod := []

/-- A compilation. `outside` holds the roots that do not change while it runs. After a
diagnostic, `panicking` silences further ones until the parser has synchronised. -/
structure State where
  heap : Heap
  registry : Registry
  outside : List ObjectId
  cursor : Cursor
  panicking : Bool := false
  diagnostics : Array Diagnostic := #[]
  draft : Draft
  enclosing : List Draft := []
  implType : Option StructId := none
  globals : Std.HashMap Text Global := {}
  staged : Staged := {}

/-- The objects a compilation keeps alive. -/
def State.roots (state : State) : List ObjectId :=
  state.outside ++ state.draft.roots ++ state.enclosing.flatMap Draft.roots
    ++ state.staged.methods.map fun staged => staged.method.closure

/-- Why a compilation stops at once: no room for an object, or no progress. -/
inductive Stop where
  | exhausted (failure : Exhausted)
  | diverged
  deriving DecidableEq, Repr

end Compiler

/-- Actions of the compiler. One that stops keeps the state it stopped in. -/
abbrev Compile := EStateM Compiler.Stop Compiler.State

namespace Compiler

/-- Repeats `body` while it asks for more, passing a value along. Every caller's body uses up a
token in each round, so a bound above the number of tokens is never reached. -/
def iterate {σ : Type} : (bound : Nat) → σ → (σ → Compile (σ × Bool)) → Compile σ
  | 0, _, _ => throw .diverged
  | bound + 1, value, body => do
    let (value, more) ← body value
    if more then iterate bound value body else return value

/-- Runs a heap action. The objects in `pinned` are roots as well as those of the state. -/
def allocating {α : Type} (pinned : List ObjectId)
    (action : (Unit → List ObjectId) → Heap.Action α) : Compile α := fun state =>
  match action (fun _ => pinned ++ state.roots) state.heap with
  | .ok result heap => .ok result { state with heap }
  | .error failure heap => .error (.exhausted failure) { state with heap }

def modifyDraft (change : Draft → Draft) : Compile Unit :=
  modify fun state => { state with draft := change state.draft }

def draft : Compile Draft := do
  return (← get).draft

end Compiler

end ScriptMachine
