import ScriptMachine.Instruction

set_option autoImplicit false

/- Heap objects: what each kind holds, how many bytes it is charged with, and which objects
it keeps alive. -/
namespace ScriptMachine

/-- The variable shared by the closures that captured it. While the frame that declared it
is live, it stands for a slot of the operand stack; afterwards it holds the value itself. -/
inductive Cell where
  | onStack (slot : Nat)
  | closed (value : Value)
  deriving Inhabited

/-- The functions a host can offer to scripts. -/
inductive Builtin where
  | clock | double | argumentCount | same | text | explode | fault | collect
  | heapObjects | heapInterned | heapBytes | gcCycles | arenaBytes | stackSize | frameCount
  | emit
  deriving DecidableEq, Repr

/-- A native function. Without an arity it takes any number of arguments; without an action
calling it is a fault. -/
structure Native where
  name : Text
  arity : Option Nat
  action : Option Builtin
  deriving Inhabited

/-- A closure's upvalues are unset until the instruction that makes it has captured them. -/
inductive Object where
  | string (text : Text)
  | function (prototype : Prototype)
  | closure (prototype : ObjectId) (upvalues : Array (Option ObjectId))
  | cell (cell : Cell)
  | record (type : StructId) (fields : Array Value)
  | native (native : Native)
  deriving Inhabited

namespace Object

/-- The bytes an object is charged with. None of the operations on an object changes it: a
prototype is charged when it is still empty, and the other kinds never grow. -/
def size : Object → Nat
  | .string text => 72 + max 15 text.length
  | .function _ => 184
  | .closure _ upvalues => 72 + 8 * upvalues.size
  | .cell _ => 80
  | .record _ fields => 72 + 16 * fields.size
  | .native _ => 112

/-- The objects an object keeps alive. A cell on the stack keeps nothing: its value is in a
stack slot, and those are roots. -/
def references : Object → List ObjectId
  | .string _ => []
  | .function prototype => prototype.references
  | .closure prototype upvalues => prototype :: upvalues.toList.filterMap id
  | .cell (.onStack _) => []
  | .cell (.closed value) => value.object?.toList
  | .record _ fields => fields.toList.filterMap Value.object?
  | .native _ => []

def kindName : Object → Text
  | .string _ => ascii "String"
  | .function _ => ascii "Function"
  | .closure _ _ => ascii "Closure"
  | .cell _ => ascii "UpvalueCell"
  | .record _ _ => ascii "StructInstance"
  | .native _ => ascii "NativeFunction"

end Object

end ScriptMachine
