import ScriptMachine.Heap

set_option autoImplicit false

/- Faults: why a run stops before its end, and the report of where it was. -/
namespace ScriptMachine

inductive Fault where
  | stackOverflow
  | notCallable
  | wrongArity (expected given : Nat)
  | undefinedVariable (name : Text)
  | structInGlobal (name : Text)
  | noFields
  | undefinedField (field struct : Text)
  | noMethods
  | undefinedMethod (method struct : Text)
  | operandsNotNumbers
  | operandNotNumber
  | unknownStruct (id : Int)
  | exhausted (failure : Exhausted)
  | host (message : Text)
  deriving DecidableEq, Repr

/-- The complaint about a call with the wrong number of arguments. -/
def arityMessage (expected given : Nat) : Text :=
  ascii "Expected " ++ Text.ofNat expected ++ ascii " arguments but got " ++ Text.ofNat given
    ++ ascii "."

def Fault.message : Fault → Text
  | .stackOverflow => ascii "Stack overflow."
  | .notCallable => ascii "Can only call functions."
  | .wrongArity expected given => arityMessage expected given
  | .undefinedVariable name => ascii "Undefined variable '" ++ name ++ ascii "'."
  | .structInGlobal name =>
    ascii "Stack struct cannot be stored in global '" ++ name ++ ascii "'."
  | .noFields => ascii "Only struct instances have fields."
  | .undefinedField field struct =>
    ascii "Undefined field '" ++ field ++ ascii "' on " ++ struct ++ ascii "."
  | .noMethods => ascii "Only struct instances have methods."
  | .undefinedMethod method struct =>
    ascii "Undefined method '" ++ method ++ ascii "' on " ++ struct ++ ascii "."
  | .operandsNotNumbers => ascii "Operands must be numbers."
  | .operandNotNumber => ascii "Operand must be a number."
  | .unknownStruct id => ascii "Unknown struct type id " ++ Text.ofInt id ++ ascii "."
  | .exhausted failure => failure.message
  | .host message => message

/-- One active call of a fault's trace. -/
structure TraceEntry where
  function : Text
  line : Nat
  deriving DecidableEq, Repr

/-- The entry as a line of a trace; a function is written as a call, a script is not. -/
def TraceEntry.render (entry : TraceEntry) : Text :=
  ascii "[line " ++ Text.ofNat entry.line ++ ascii "] in "
    ++ if entry.function == ascii "script" then entry.function
      else entry.function ++ ascii "()"

/-- A fault and the calls that were active when it arose, innermost first. -/
structure RuntimeError where
  fault : Fault
  trace : List TraceEntry
  deriving DecidableEq, Repr

def RuntimeError.message (error : RuntimeError) : Text :=
  error.fault.message.beforeZero

/-- The message, then one line for each active call. -/
def RuntimeError.render (error : RuntimeError) : Text :=
  Text.lines (error.message :: error.trace.map TraceEntry.render)

end ScriptMachine
