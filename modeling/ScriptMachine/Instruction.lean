import ScriptMachine.Value

set_option autoImplicit false

/- Bytecode: instructions with two integer operands, and the prototypes that hold them. -/
namespace ScriptMachine

inductive Opcode where
  | constant | nil | true | false | pop
  | getLocal | setLocal | getGlobal | defineGlobal | setGlobal | getUpvalue | setUpvalue
  | getProperty | setProperty
  | equal | greater | less | add | subtract | multiply | divide | not | negate
  | print | jump | jumpIfFalse | jumpIfTrue
  | call | invoke | closure | closeUpvalue | return
  | stackStruct | heapStruct | promote | copyStruct
  | unknown
  deriving DecidableEq, Repr

namespace Opcode

def name : Opcode → Text
  | .constant => ascii "Constant"
  | .nil => ascii "Nil"
  | .true => ascii "True"
  | .false => ascii "False"
  | .pop => ascii "Pop"
  | .getLocal => ascii "GetLocal"
  | .setLocal => ascii "SetLocal"
  | .getGlobal => ascii "GetGlobal"
  | .defineGlobal => ascii "DefineGlobal"
  | .setGlobal => ascii "SetGlobal"
  | .getUpvalue => ascii "GetUpvalue"
  | .setUpvalue => ascii "SetUpvalue"
  | .getProperty => ascii "GetProperty"
  | .setProperty => ascii "SetProperty"
  | .equal => ascii "Equal"
  | .greater => ascii "Greater"
  | .less => ascii "Less"
  | .add => ascii "Add"
  | .subtract => ascii "Subtract"
  | .multiply => ascii "Multiply"
  | .divide => ascii "Divide"
  | .not => ascii "Not"
  | .negate => ascii "Negate"
  | .print => ascii "Print"
  | .jump => ascii "Jump"
  | .jumpIfFalse => ascii "JumpIfFalse"
  | .jumpIfTrue => ascii "JumpIfTrue"
  | .call => ascii "Call"
  | .invoke => ascii "Invoke"
  | .closure => ascii "Closure"
  | .closeUpvalue => ascii "CloseUpvalue"
  | .return => ascii "Return"
  | .stackStruct => ascii "StackStruct"
  | .heapStruct => ascii "HeapStruct"
  | .promote => ascii "Promote"
  | .copyStruct => ascii "CopyStruct"
  | .unknown => ascii "Unknown"

/-- The operations in the order of their numbers, which start at zero. -/
def numbered : List Opcode :=
  [.constant, .nil, .true, .false, .pop, .getLocal, .setLocal, .getGlobal, .defineGlobal,
   .setGlobal, .getUpvalue, .setUpvalue, .getProperty, .setProperty, .equal, .greater, .less,
   .add, .subtract, .multiply, .divide, .not, .negate, .print, .jump, .jumpIfFalse,
   .jumpIfTrue, .call, .invoke, .closure, .closeUpvalue, .return, .stackStruct, .heapStruct,
   .promote, .copyStruct]

/-- The operation with a given number; a number that none has is `unknown`. -/
def ofNumber (number : Nat) : Opcode :=
  numbered[number]?.getD .unknown

end Opcode

/-- Jump targets in `a` are positions in the code, counted from its start. -/
structure Instruction where
  op : Opcode
  a : Int := 0
  b : Int := 0
  deriving DecidableEq, Repr

/-- Where a closure finds a captured variable when it is made: in slot `index` of the frame
that makes it, or in upvalue `index` of that frame's closure. -/
structure Capture where
  index : Nat
  isLocal : Bool
  deriving DecidableEq, Repr

/-- A compiled function. `lines` gives each instruction's source line. A layout lists, for the
initialisers of one struct literal in the order they are pushed, the slot each one fills. A
prototype without a name is a script. -/
structure Prototype where
  name : Option ObjectId := none
  arity : Nat := 0
  isMethod : Bool := false
  code : Array Instruction := #[]
  lines : Array Nat := #[]
  constants : Array Value := #[]
  layouts : Array (List Nat) := #[]
  captures : Array Capture := #[]
  deriving Inhabited

namespace Prototype

/-- The constant an instruction operand names. -/
def constant? (prototype : Prototype) (index : Int) : Option Value :=
  if index < 0 then none else prototype.constants[index.toNat]?

/-- The heap objects a prototype keeps alive. -/
def references (prototype : Prototype) : List ObjectId :=
  prototype.name.toList ++ prototype.constants.toList.filterMap Value.object?

end Prototype

end ScriptMachine
