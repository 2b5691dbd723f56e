import ScriptMachine.Fault
import ScriptMachine.Number.Read
import ScriptMachine.Value.Render
import ScriptMachine.Proofs.Source.Trees

set_option autoImplicit false

/- What a program does, told by its tree alone. A variable is a cell, an environment says which cell
a name stands for, and a function keeps the environment that it was made in. Globals are in one table,
where a later definition hides an earlier one. Calls and rounds of loops are counted, and no more of
them are made than allowed. -/
namespace ScriptMachine.Source

open Syntax (Operator)

inductive Datum where
  | nil
  | bool (value : Bool)
  | number (value : Float)
  | string (contents : Text)
  | closure (id : Nat)
  | record (id : Nat)
  | native (name : Text)

namespace Datum

def isFalsey : Datum → Bool
  | .nil => true
  | .bool value => !value
  | _ => false

/-- Strings are equal if their contents are, functions and records if they are the same. -/
def equal : Datum → Datum → Bool
  | .nil, .nil => true
  | .bool a, .bool b => a == b
  | .number a, .number b => a == b
  | .string a, .string b => a == b
  | .closure a, .closure b => a == b
  | .record a, .record b => a == b
  | .native a, .native b => a == b
  | _, _ => false

end Datum

/-- The cells that names stand for, the innermost first. -/
abbrev Environment := List (Text × Nat)

structure Closure where
  name : Text
  routine : Routine
  environment : Environment

structure Record where
  struct : Text
  fields : List Datum

/-- All that a program can change. -/
structure Store where
  cells : Array Datum := #[]
  closures : Array Closure := #[]
  records : Array Record := #[]
  globals : List (Text × Datum) := []
  output : Text := []

/-- A declared struct, with the methods of all its impls. -/
structure Struct where
  name : Text
  fields : List Text
  methods : List (Text × Routine)

/-- What there is besides the program. -/
structure World where
  natives : List Native
  structs : List Struct

namespace World

def native? (world : World) (name : Text) : Option Native :=
  world.natives.find? fun host => host.name == name

def struct? (world : World) (name : Text) : Option Struct :=
  world.structs.find? fun struct => struct.name == name

/-- The fields of a struct, in the order in which they have been declared. -/
def fields (world : World) (name : Text) : List Text :=
  ((world.struct? name).map Struct.fields).getD []

end World

/-- Why an evaluation stops. It is `timeout` if it needs more calls or rounds than it may make, and
`unsupported` where it asks for the time or for the state of the heap, or makes a struct that lives in
a call. -/
inductive Halt where
  | fault (fault : Fault)
  | timeout
  | unsupported

abbrev Eval := EStateM Halt Store

/-- How many calls are active and how many values they hold. Only native functions can tell. -/
structure Depth where
  calls : Nat
  height : Nat

namespace Depth

def above (depth : Depth) (count : Nat) : Depth :=
  { depth with height := depth.height + count }

def up (depth : Depth) : Depth :=
  depth.above 1

def inner (depth : Depth) : Depth :=
  { depth with calls := depth.calls + 1 }

end Depth

/-- The text of a value. A record inside its own text is cut short. -/
def Store.text (world : World) (store : Store) : (depth : Nat) → (visiting : List Nat) →
    (nested : Bool) → Datum → Text
  | _, _, _, .nil => ascii "nil"
  | _, _, _, .bool true => ascii "true"
  | _, _, _, .bool false => ascii "false"
  | _, _, _, .number value => Number.render value
  | _, _, nested, .string contents => if nested then Text.quoted contents else contents
  | _, _, _, .closure id =>
    ascii "<fn " ++ ((store.closures[id]?.map Closure.name).getD []) ++ ascii ">"
  | _, _, _, .native name => ascii "<native fn " ++ name ++ ascii ">"
  | 0, _, _, .record _ => ascii "..."
  | depth + 1, visiting, _, .record id =>
    match store.records[id]? with
    | none => []
    | some record =>
      if visiting.contains id then ascii "new " ++ record.struct ++ ascii " \x7b ... \x7d"
      else ascii "new " ++ structText { name := record.struct, fields := world.fields record.struct }
        (record.fields.map (Store.text world store depth (id :: visiting) true))

section Actions

variable (world : World)

def fault {α : Type} (fault : Fault) : Eval α :=
  throw (.fault fault)

def unsupported {α : Type} : Eval α :=
  throw .unsupported

def found {α : Type} : Option α → Eval α
  | some value => return value
  | none => unsupported

def newCell (value : Datum) : Eval Nat :=
  modifyGet fun store => (store.cells.size, { store with cells := store.cells.push value })

def readCell (cell : Nat) : Eval Datum := do
  found (← get).cells[cell]?

def writeCell (cell : Nat) (value : Datum) : Eval Unit :=
  modify fun store => { store with cells := store.cells.setIfInBounds cell value }

/-- A global, or else a native function of the name. -/
def readGlobal (name : Text) : Eval Datum := do
  match (← get).globals.lookup name, world.native? name with
  | some value, _ => return value
  | none, some _ => return .native name
  | none, none => fault (.undefinedVariable name)

def defineGlobal (name : Text) (value : Datum) : Eval Unit :=
  modify fun store => { store with globals := (name, value) :: store.globals }

def writeGlobal (name : Text) (value : Datum) : Eval Unit := do
  match (← get).globals.lookup name with
  | some _ => defineGlobal name value
  | none => fault (.undefinedVariable name)

def readVariable (environment : Environment) (name : Text) : Eval Datum :=
  match environment.lookup name with
  | some cell => readCell cell
  | none => readGlobal world name

def writeVariable (environment : Environment) (name : Text) (value : Datum) : Eval Unit :=
  match environment.lookup name with
  | some cell => writeCell cell value
  | none => writeGlobal name value

def write (text : Text) : Eval Unit :=
  modify fun store => { store with output := store.output ++ text }

/-- The text of a value, as printing shows it. -/
def shown (value : Datum) : Eval Text := do
  let store ← get
  return store.text world (store.records.size + 1) [] false value

def newClosure (name : Text) (routine : Routine) (environment : Environment) : Eval Datum :=
  modifyGet fun store => (.closure store.closures.size,
    { store with closures := store.closures.push ⟨name, routine, environment⟩ })

def arithmetic (result : Float → Float → Datum) : Datum → Datum → Eval Datum
  | .number a, .number b => return result a b
  | _, _ => fault .operandsNotNumbers

/-- What an operator makes of two values. -/
def operate : Operator → Datum → Datum → Eval Datum
  | .equal, a, b => return .bool (a.equal b)
  | .unequal, a, b => return .bool !(a.equal b)
  | .less, a, b => arithmetic (fun a b => .bool (a < b)) a b
  | .lessEqual, a, b => arithmetic (fun a b => .bool !(a > b)) a b
  | .greater, a, b => arithmetic (fun a b => .bool (a > b)) a b
  | .greaterEqual, a, b => arithmetic (fun a b => .bool !(a < b)) a b
  | .plus, a, b => arithmetic (fun a b => .number (a + b)) a b
  | .minus, a, b => arithmetic (fun a b => .number (a - b)) a b
  | .times, a, b => arithmetic (fun a b => .number (a * b)) a b
  | .over, a, b => arithmetic (fun a b => .number (a / b)) a b

/-- The record that a value is, with the place of one of its fields. -/
def record? (store : Store) : Datum → Option (Nat × Record)
  | .record id => store.records[id]?.map fun record => (id, record)
  | _ => none

def readField (target : Datum) (name : Text) : Eval Datum := do
  match record? (← get) target with
  | none => fault .noFields
  | some (_, record) =>
    match (world.fields record.struct).idxOf? name with
    | none => fault (.undefinedField name record.struct)
    | some index => found record.fields[index]?

def writeField (target : Datum) (name : Text) (value : Datum) : Eval Unit := do
  match record? (← get) target with
  | none => fault .noFields
  | some (id, record) =>
    match (world.fields record.struct).idxOf? name with
    | none => fault (.undefinedField name record.struct)
    | some index => modify fun store => { store with
      records := store.records.setIfInBounds id
        { record with fields := record.fields.set index value } }

/-- A record with the given values; what is not given is nil. -/
def newRecord (struct : Text) (given : List (Text × Datum)) : Eval Datum :=
  let fields := (world.fields struct).map fun field => (given.lookup field).getD .nil
  modifyGet fun store => (.record store.records.size,
    { store with records := store.records.push ⟨struct, fields⟩ })

/-- A cell for every parameter. -/
def bindAll : List (Text × Datum) → Environment → Eval Environment
  | [], environment => return environment
  | (name, value) :: rest, environment => do
    let cell ← newCell value
    bindAll rest ((name, cell) :: environment)

/-- What a native function does, unless it tells what only the machine knows. -/
def runNative (action : Builtin) (arguments : List Datum) (depth : Depth) : Eval Datum := do
  let first := arguments.head?.getD .nil
  match action with
  | .double =>
    match first with
    | .number value => return .number (value * 2)
    | _ => fault (.host (ascii "Value is not number"))
  | .argumentCount => return .number (Float.ofNat arguments.length)
  | .same => return first
  | .text => return .string (← shown world first)
  | .explode => fault (.host (ascii "kaboom"))
  | .fault => fault (.host (ascii "native fault"))
  | .collect => return .nil
  | .stackSize => return .number (Float.ofNat depth.height)
  | .frameCount => return .number (Float.ofNat depth.calls)
  | .emit => do
    write (ascii "[" ++ (← shown world first) ++ ascii "]")
    return first
  | .clock | .heapObjects | .heapInterned | .heapBytes | .gcCycles | .arenaBytes => unsupported

def callNative (host : Native) (arguments : List Datum) (depth : Depth) : Eval Datum := do
  if let some arity := host.arity then
    if arguments.length != arity then
      fault (.wrongArity arity arguments.length)
  match host.action with
  | some action => runNative world action arguments depth
  | none => fault (.host (ascii "native '" ++ host.name ++ ascii "' has no callback"))

/-- Runs the body of a function on arguments, in some environment. -/
abbrev Runner := Routine → Environment → List Datum → Depth → Eval Datum

variable (run : Runner)

def callRoutine (routine : Routine) (environment : Eval Environment) (arguments : List Datum)
    (depth : Depth) : Eval Datum := do
  if arguments.length != routine.parameters.length then
    fault (.wrongArity routine.parameters.length arguments.length)
  run routine (← environment) arguments depth.inner

def callDatum (callee : Datum) (arguments : List Datum) (depth : Depth) : Eval Datum := do
  match callee with
  | .closure id =>
    let closure ← found (← get).closures[id]?
    callRoutine run closure.routine (return closure.environment) arguments depth
  | .native name =>
    callNative world (← found (world.native? name)) arguments depth
  | _ => fault .notCallable

/-- The environment of a method: its receiver. -/
def receiving (receiver : Datum) : Eval Environment := do
  return [(ascii "self", ← newCell receiver)]

/-- Calls a method. A field of the name comes first, and what it holds is called without a
receiver. -/
def callMethod (receiver : Datum) (name : Text) (arguments : List Datum) (depth : Depth) :
    Eval Datum := do
  match record? (← get) receiver with
  | none => fault .noMethods
  | some (_, record) =>
    match (world.fields record.struct).idxOf? name with
    | some index =>
      callDatum world run (← found record.fields[index]?) arguments depth
    | none =>
      match (world.struct? record.struct).bind fun struct => struct.methods.lookup name with
      | some routine => callRoutine run routine (receiving receiver) arguments depth
      | none => fault (.undefinedMethod name record.struct)

end Actions

/-- What comes after a statement: the statements behind it, in some environment, or the end of the
function with a result. -/
inductive Flow where
  | next (environment : Environment) (depth : Depth)
  | done (result : Datum)

/-- Goes round a loop until its condition fails or its body ends the function. -/
def rounds (condition : Eval Bool) (body : Eval (Option Datum)) : (bound : Nat) → Eval (Option Datum)
  | 0 => throw .timeout
  | bound + 1 => do
    if ← condition then
      match ← body with
      | some result => return some result
      | none => rounds condition body bound
    else return none

def Flow.result? : Flow → Option Datum
  | .next _ _ => none
  | .done result => some result

section Evaluation

variable (world : World) (run : Runner) (bound : Nat)

mutual

def Expression.eval : Expression → Environment → Depth → Eval Datum
  | .nil, _, _ => return .nil
  | .bool value, _, _ => return .bool value
  | .number numeral, _, _ => return .number (Number.read numeral)
  | .string contents, _, _ => return .string contents
  | .variable name, environment, _ => readVariable world environment name
  | .not operand, environment, depth => do
    return .bool (← operand.eval environment depth).isFalsey
  | .negate operand, environment, depth => do
    match ← operand.eval environment depth with
    | .number value => return .number (-value)
    | _ => fault .operandNotNumber
  | .binary operator left right, environment, depth => do
    let a ← left.eval environment depth
    let b ← right.eval environment depth.up
    operate operator a b
  | .and left right, environment, depth => do
    let value ← left.eval environment depth
    if value.isFalsey then return value else right.eval environment depth
  | .or left right, environment, depth => do
    let value ← left.eval environment depth
    if value.isFalsey then right.eval environment depth else return value
  | .assign name value, environment, depth => do
    let value ← value.eval environment depth
    writeVariable environment name value
    return value
  | .call callee arguments, environment, depth => do
    let callee ← callee.eval environment depth
    let arguments ← evalAll arguments environment depth.up
    callDatum world run callee arguments (depth.above (arguments.length + 1))
  | .property target name, environment, depth => do
    let target ← target.eval environment depth
    readField world target name
  | .setProperty target name value, environment, depth => do
    let target ← target.eval environment depth
    let value ← value.eval environment depth.up
    writeField world target name value
    return value
  | .invoke target name arguments, environment, depth => do
    let target ← target.eval environment depth
    let arguments ← evalAll arguments environment depth.up
    callMethod world run target name arguments (depth.above (arguments.length + 1))
  | .literal onHeap struct fields values, environment, depth => do
    let values ← evalAll values environment depth
    if onHeap then newRecord world struct (fields.zip values) else unsupported
  | .function routine, environment, _ => newClosure (ascii "anonymous") routine environment

/-- Expressions from left to right. -/
def evalAll : List Expression → Environment → Depth → Eval (List Datum)
  | [], _, _ => return []
  | first :: rest, environment, depth => do
    let value ← first.eval environment depth
    let others ← evalAll rest environment depth.up
    return value :: others

end

/-- A condition that is left out holds. -/
def evalCondition (condition : Option Expression) (environment : Environment) (depth : Depth) :
    Eval Bool :=
  match condition with
  | none => return true
  | some condition => do
    return !(← condition.eval world run environment depth).isFalsey

def evalIncrement (increment : Option Expression) (environment : Environment) (depth : Depth) :
    Eval Unit :=
  match increment with
  | none => return ()
  | some increment => do
    let _ ← increment.eval world run environment depth

/-- The declaration of a local function, which can call itself. -/
def declareFunction (name : Text) (routine : Routine) (environment : Environment) (depth : Depth) :
    Eval Flow := do
  let cell ← newCell .nil
  writeCell cell (← newClosure name routine ((name, cell) :: environment))
  return .next ((name, cell) :: environment) depth.up

/-- The declaration of a variable of some value. -/
def declareVariable (isGlobal : Bool) (name : Text) (value : Datum) (environment : Environment)
    (depth : Depth) : Eval Flow := do
  if isGlobal then
    defineGlobal name value
    return .next environment depth
  else
    return .next ((name, ← newCell value) :: environment) depth.up

mutual

def Statement.eval : Statement → (isGlobal : Bool) → Environment → Depth → Eval Flow
  | .skip, _, environment, depth => return .next environment depth
  | .expression value, _, environment, depth => do
    let _ ← value.eval world run environment depth
    return .next environment depth
  | .print value, _, environment, depth => do
    let value ← value.eval world run environment depth
    write ((← shown world value) ++ [Text.newline])
    return .next environment depth
  | .choose condition yes no, isGlobal, environment, depth => do
    let value ← condition.eval world run environment depth
    let flow ← if value.isFalsey then no.eval isGlobal environment depth
      else yes.eval isGlobal environment depth
    match flow with
    | .next _ _ => return .next environment depth
    | .done result => return .done result
  | .while condition body, isGlobal, environment, depth => do
    let test := do return !(← condition.eval world run environment depth).isFalsey
    match ← rounds test (Flow.result? <$> body.eval isGlobal environment depth) bound with
    | none => return .next environment depth
    | some result => return .done result
  | .for first condition increment body, _, environment, depth => do
    match ← first.eval false environment depth with
    | .done result => return .done result
    | .next inner deeper =>
      let round := do
        match ← body.eval false inner deeper with
        | .done result => return some result
        | .next _ _ => do
          evalIncrement world run increment inner deeper
          return none
      match ← rounds (evalCondition world run condition inner deeper) round bound with
      | none => return .next environment depth
      | some result => return .done result
  | .return value, _, environment, depth => do
    return .done (← value.eval world run environment depth)
  | .block body, _, environment, depth => do
    match ← evalBlock body false environment depth with
    | .next _ _ => return .next environment depth
    | .done result => return .done result
  | .var name value, isGlobal, environment, depth => do
    let value ← value.eval world run environment depth
    declareVariable isGlobal name value environment depth
  | .fn name routine, isGlobal, environment, depth => do
    if isGlobal then
      defineGlobal name (← newClosure name routine environment)
      return .next environment depth
    else
      declareFunction name routine environment depth
  | .struct _ _, _, environment, depth => return .next environment depth
  | .trait _, _, environment, depth => return .next environment depth
  | .impl _ _ _, _, environment, depth => return .next environment depth

/-- Statements one behind the other. -/
def evalBlock : List Statement → (isGlobal : Bool) → Environment → Depth → Eval Flow
  | [], _, environment, depth => return .next environment depth
  | first :: rest, isGlobal, environment, depth => do
    match ← first.eval isGlobal environment depth with
    | .next environment depth => evalBlock rest isGlobal environment depth
    | .done result => return .done result

end

end Evaluation

/-- Runs functions, with at most `bound` calls inside each other and as many rounds of a loop. A body
that ends without a result gives nil. -/
def World.run (world : World) : (bound : Nat) → Runner
  | 0, _, _, _, _ => throw .timeout
  | bound + 1, routine, environment, arguments, depth => do
    let inner ← bindAll (routine.parameters.zip arguments) environment
    match ← evalBlock world (world.run bound) bound routine.body false inner depth with
    | .next _ _ => return .nil
    | .done result => return result

/-- Runs a program, in one call that holds nothing but itself. -/
def World.execute (world : World) (bound : Nat) (program : List Statement) : Eval Unit := do
  let _ ← evalBlock world (world.run bound) bound program true [] ⟨1, 1⟩

end ScriptMachine.Source
