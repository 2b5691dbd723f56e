import ScriptMachine.Heap
import ScriptMachine.Number
import ScriptMachine.Registry
import ScriptMachine.StackStruct

set_option autoImplicit false

/- Values as text, and equality of values. Both look through identifiers: at the heap for
objects, at the registry for struct types, at the frames for the structs they own. -/
namespace ScriptMachine

/-- All that a value can refer to; `node?` finds frame-owned structs. -/
structure View where
  heap : Heap
  registry : Registry
  node? : NodeId → Option StackStruct

namespace View

/-- A view in which the frame-owned structs are the given ones and all that they own. -/
def ofStructs (heap : Heap) (registry : Registry) (structs : List StackStruct) : View :=
  ⟨heap, registry, fun id => StackStruct.findAmong? id structs⟩

def structType (view : View) (id : StructId) : StructType :=
  (view.registry.struct? id).getD default

/-- Equality of values: contents for primitives, identity for heap objects, slot by slot for
frame-owned structs. -/
def equal (view : View) : Value → Value → Bool
  | .stack a, .stack b =>
    match view.node? a, view.node? b with
    | some left, some right => left.equal right
    | _, _ => a == b
  | a, b => a.identical b

end View

/-- A struct's text: its name and, in braces, each field with the text of its value. -/
def structText (type : StructType) (fields : List Text) : Text :=
  let entries := (type.fields.zip fields).map fun (name, value) => name ++ ascii " = " ++ value
  if entries.isEmpty then type.name ++ ascii " \x7b\x7d"
  else type.name ++ ascii " \x7b " ++ Text.join (ascii ", ") entries ++ ascii " \x7d"

mutual

/-- The text of a frame-owned struct, given how its plain values are written. -/
def StackStruct.text (view : View) (plainText : Value → Text) : StackStruct → Text
  | .node _ type slots _ => structText (view.structType type) (slotTexts view plainText slots)

def slotTexts (view : View) (plainText : Value → Text) : List Slot → List Text
  | [] => []
  | .plain value :: rest => plainText value :: slotTexts view plainText rest
  | .nested inner :: rest => inner.text view plainText :: slotTexts view plainText rest

end

namespace View

/-- The text of a function by its prototype. -/
def functionText (view : View) (prototype : ObjectId) : Text :=
  match view.heap.prototype? prototype with
  | some { name := some name, .. } =>
    ascii "<fn " ++ (view.heap.string? name).getD [] ++ ascii ">"
  | _ => ascii "<script>"

/-- The text of an object, given how the values inside it are written. -/
def objectText (view : View) (valueText : Value → Text) (id : ObjectId) : Object → Text
  | .string text => text
  | .function _ => view.functionText id
  | .closure prototype _ => view.functionText prototype
  | .cell (.onStack slot) => ascii "[UpvalueCell open #" ++ Text.ofNat slot ++ ascii "]"
  | .cell (.closed value) => ascii "[UpvalueCell " ++ valueText value ++ ascii "]"
  | .record type fields =>
    ascii "new " ++ structText (view.structType type) (fields.toList.map valueText)
  | .native host => ascii "<native fn " ++ host.name ++ ascii ">"

/-- What stands for an object inside its own text. -/
def elidedText (view : View) : Object → Text
  | .record type _ => ascii "new " ++ (view.structType type).name ++ ascii " \x7b ... \x7d"
  | _ => ascii "..."

/-- The text of a value inside another one, or of a value on its own when `nested` is false:
then a string has no quotes. `visiting` holds the objects being written around this value;
one of them is not written again. `depth` bounds how many objects and structs are entered. -/
def textWithin (view : View) : (depth : Nat) → (visiting : List ObjectId) → (nested : Bool) →
    Value → Text
  | _, _, _, .nil => ascii "nil"
  | _, _, _, .bool true => ascii "true"
  | _, _, _, .bool false => ascii "false"
  | _, _, _, .number value => Number.render value
  | 0, _, _, _ => ascii "..."
  | depth + 1, visiting, _, .stack id =>
    match view.node? id with
    | some struct => struct.text view (view.textWithin depth visiting true)
    | none => []
  | depth + 1, visiting, nested, .ref id =>
    match view.heap.get? id with
    | none => []
    | some (.string text) => if nested then Text.quoted text else text
    | some object =>
      if visiting.contains id then view.elidedText object
      else view.objectText (view.textWithin depth (id :: visiting) true) id object

/-- Enough to enter every object once and a struct before each. -/
def fullDepth (view : View) : Nat :=
  2 * view.heap.objectCount + 2

/-- The text of a value, as printing shows it. -/
def text (view : View) (value : Value) : Text :=
  view.textWithin view.fullDepth [] false value

end View

end ScriptMachine
