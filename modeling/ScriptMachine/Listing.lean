import ScriptMachine.Value.Render

set_option autoImplicit false

/- Listings of bytecode: one line for each instruction with its position, its source line where
that changes, its name and its operands. -/
namespace ScriptMachine.Listing

/-- A number right-aligned in four columns. -/
def column (value : Int) : Text :=
  Text.padLeft 4 32 (Text.ofInt value)

/-- A position in the code with four digits. -/
def position (index : Nat) : Text :=
  Text.padLeft 4 48 (Text.ofNat index)

/-- The text of the constant an operand names. -/
def constantText (view : View) (prototype : Prototype) (index : Int) : Text :=
  match prototype.constant? index with
  | some value => view.text value
  | none => ascii "<bad constant>"

/-- The lines below a closure instruction that say what it captures. -/
def captureLines (view : View) (prototype : Prototype) (index : Nat) (operand : Int) : Text :=
  match (prototype.constant? operand).bind Value.object? |>.bind view.heap.prototype? with
  | none => []
  | some function => function.captures.toList.flatMap fun capture =>
      Text.newline :: position index ++ ascii "    |                     "
        ++ (if capture.isLocal then ascii "local " else ascii "upvalue ")
        ++ Text.ofNat capture.index

/-- An instruction's name and operands. -/
def operation (view : View) (prototype : Prototype) (index : Nat) (code : Instruction) : Text :=
  let name := Text.padRight 16 code.op.name
  match code.op with
  | .constant | .getGlobal | .defineGlobal | .setGlobal | .getProperty | .setProperty =>
    name ++ ascii " " ++ column code.a ++ ascii " "
      ++ nameInQuotes (constantText view prototype code.a)
  | .getLocal | .setLocal | .getUpvalue | .setUpvalue | .call | .jump | .jumpIfFalse
  | .jumpIfTrue => name ++ ascii " " ++ column code.a
  | .invoke =>
    name ++ ascii " (" ++ Text.ofInt code.b ++ ascii " args) " ++ column code.a ++ ascii " "
      ++ nameInQuotes (constantText view prototype code.a)
  | .stackStruct | .heapStruct =>
    name ++ ascii " " ++ column code.a ++ ascii " layout " ++ Text.ofInt code.b ++ ascii " ["
      ++ Text.join (ascii ", ") ((prototype.layouts[code.b.toNat]?.getD []).map Text.ofNat)
      ++ ascii "]"
  | .closure =>
    name ++ ascii " " ++ column code.a ++ ascii " " ++ constantText view prototype code.a
      ++ captureLines view prototype index code.a
  | _ => code.op.name
where
  nameInQuotes (text : Text) : Text := 39 :: text ++ [39]

/-- The source line of an instruction, or a bar where it is that of the one before. -/
def lineMark (prototype : Prototype) (index : Nat) : Text :=
  let line := prototype.lines[index]?
  if 0 < index && line == prototype.lines[index - 1]? then ascii "   | "
  else column (line.getD 0) ++ ascii " "

/-- One instruction, without a line end. -/
def instruction (view : View) (prototype : Prototype) (index : Nat) (code : Instruction) :
    Text :=
  position index ++ ascii " " ++ lineMark prototype index
    ++ operation view prototype index code

/-- A prototype's heading and its instructions, each line with its end. -/
def lines (view : View) (prototype : Prototype) : Text :=
  let heading := ascii "== " ++ view.heap.displayName prototype ++ ascii " ==\n"
  heading ++ (prototype.code.toList.zipIdx.flatMap fun (code, index) =>
    instruction view prototype index code ++ [Text.newline])

/-- The prototypes in a constant pool, in order. -/
def nested (heap : Heap) (prototype : Prototype) : List Prototype :=
  prototype.constants.toList.filterMap fun value => value.object?.bind heap.prototype?

/-- The listing of a prototype, then those of the prototypes in its pool, each behind a blank
line. `depth` bounds the nesting. -/
def renderWithin (view : View) : Nat → Prototype → Text
  | 0, prototype => lines view prototype
  | depth + 1, prototype =>
    lines view prototype ++ (nested view.heap prototype).flatMap fun inner =>
      Text.newline :: renderWithin view depth inner

/-- The listing of a prototype and of all prototypes nested in it. -/
def render (view : View) (prototype : Prototype) : Text :=
  renderWithin view view.heap.objectCount prototype

/-- A prototype followed by the prototypes nested in it, each before those inside it. -/
def preorderWithin (heap : Heap) : Nat → Prototype → List Prototype
  | 0, prototype => [prototype]
  | depth + 1, prototype =>
    prototype :: (nested heap prototype).flatMap (preorderWithin heap depth)

def preorder (heap : Heap) (prototype : Prototype) : List Prototype :=
  preorderWithin heap heap.objectCount prototype

end ScriptMachine.Listing
