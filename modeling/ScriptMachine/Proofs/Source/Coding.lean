import ScriptMachine.Proofs.Code.Pieces
import ScriptMachine.Proofs.Source.Trees

set_option autoImplicit false

/- What code a tree stands for. Names are resolved lexically: to a slot of the function they stand
in, else through the captures of that function and those around it, else to a global. -/
namespace ScriptMachine.Source

open Prototype (Setting Marked leave)

/-- The locals that can be read, the newest first, and whether a closure captures them before their
scope ends. -/
abbrev Locals := List (Text × Bool)

/-- The slot of the innermost local of a name. Slots count from the oldest local. -/
def slotOf : Locals → Text → Option Nat
  | [], _ => none
  | newest :: older, name => if newest.1 == name then some older.length else slotOf older name

/-- A function around another one: the locals that can be read where the inner function stands, and
all that it captures itself. -/
structure Scope where
  locals : Locals
  captures : Array Capture

/-- Where a function stands, and the setting its code is executed in. -/
structure Context extends Setting where
  locals : Locals
  around : List Scope
  topLevel : Bool

/-- A capture leads to the innermost local of a name in the nearest function around that has one.
That local is marked as captured. -/
def Leads (captures : Array Capture) : List Scope → Text → Nat → Prop
  | [], _, _ => False
  | outer :: rest, name, index =>
    match slotOf outer.locals name with
    | some slot =>
      captures[index]? = some ⟨slot, true⟩ ∧ Marked (outer.locals.map Prod.snd) slot
    | none =>
      ∃ between, captures[index]? = some ⟨between, false⟩ ∧ Leads outer.captures rest name between

/-- What an instruction for a variable names. -/
inductive Place where
  | slot (index : Nat)
  | upvalue (index : Nat)
  | global (index : Nat)

namespace Place

def read : Place → Instruction
  | .slot index => ⟨.getLocal, index, 0⟩
  | .upvalue index => ⟨.getUpvalue, index, 0⟩
  | .global index => ⟨.getGlobal, index, 0⟩

def write : Place → Instruction
  | .slot index => ⟨.setLocal, index, 0⟩
  | .upvalue index => ⟨.setUpvalue, index, 0⟩
  | .global index => ⟨.setGlobal, index, 0⟩

end Place

namespace Context

/-- A text is among the constants. -/
def Files (context : Context) (index : Nat) (text : Text) : Prop :=
  ∃ id, context.body.constants[index]? = some (.ref id) ∧ context.heap.string? id = some text

/-- What a name stands for. -/
def Resolves (context : Context) (name : Text) (place : Place) : Prop :=
  name ≠ [] ∧ match place with
    | .slot slot => slotOf context.locals name = some slot
    | .upvalue index =>
      slotOf context.locals name = none ∧ Leads context.body.captures context.around name index
    | .global index =>
      slotOf context.locals name = none ∧
        (∀ scope ∈ context.around, slotOf scope.locals name = none) ∧ context.Files index name

/-- Inside a block. -/
def nested (context : Context) : Context :=
  { context with topLevel := false }

/-- Behind declarations of locals, the newest first. -/
def declare (context : Context) (added : Locals) : Context :=
  { context with locals := added ++ context.locals }

/-- Inside a function with some prototype. -/
def inside (context : Context) (body : Prototype) (locals : Locals) : Context :=
  { heap := context.heap
    registry := context.registry
    body
    locals
    around := ⟨context.locals, context.body.captures⟩ :: context.around
    topLevel := false }

end Context

/-- What code at some position has to be. -/
abbrev Form := Context → Nat → List Instruction → Prop

namespace Form

def nothing : Form := fun _ _ code => code = []

def ops (list : List Opcode) : Form := fun _ _ code =>
  code = list.map fun op => ⟨op, 0, 0⟩

/-- An instruction that need not be there. -/
def perhaps (op : Opcode) : Form := fun _ _ code =>
  code = [] ∨ code = [⟨op, 0, 0⟩]

/-- An instruction that names something. -/
def naming (op : Opcode) (text : Text) : Form := fun context _ code =>
  ∃ index : Nat, context.Files index text ∧ code = [⟨op, index, 0⟩]

def andThen (first second : Form) : Form := fun context start code =>
  ∃ front back, code = front ++ back ∧ first context start front ∧
    second context (start + front.length) back

/-- What is skipped if the value on the stack is as the jump asks for, and takes its place
otherwise. -/
def skipped (skip : Opcode) (right : Form) : Form := fun context start code =>
  ∃ inner, right context (start + 2) inner ∧
    code = ⟨skip, ↑(start + 2 + inner.length), 0⟩ :: ⟨.pop, 0, 0⟩ :: inner

/-- One of two branches, by the value on the stack. -/
def chosen (yes no : Form) : Form := fun context start code =>
  ∃ front back, yes context (start + 2) front ∧
    no context (start + 2 + front.length + 2) back ∧
    code = ⟨.jumpIfFalse, ↑(start + 2 + front.length + 1), 0⟩ :: ⟨.pop, 0, 0⟩ :: front ++
      ⟨.jump, ↑(start + 2 + front.length + 2 + back.length), 0⟩ :: ⟨.pop, 0, 0⟩ :: back

/-- A loop with its condition in front. -/
def whileLoop (condition body : Form) : Form := fun context start code =>
  ∃ test inner, condition context start test ∧
    body context (start + test.length + 2) inner ∧
    code = test ++
      ⟨.jumpIfFalse, ↑(start + test.length + 2 + inner.length + 1), 0⟩ :: ⟨.pop, 0, 0⟩ ::
        (inner ++ [⟨.jump, start, 0⟩, ⟨.pop, 0, 0⟩])

/-- The condition of a `for` loop, with a jump behind the loop. -/
def tested (exit : Nat) : Option Form → Form
  | none => nothing
  | some condition => condition.andThen fun _ _ code =>
    code = [⟨.jumpIfFalse, exit, 0⟩, ⟨.pop, 0, 0⟩]

/-- The increment of a `for` loop, with a jump over it and one back to the condition. -/
def stepped (condition : Nat) : Option Form → Form
  | none => nothing
  | some increment => fun context start code =>
    ∃ inner, increment context (start + 1) inner ∧
      code = ⟨.jump, ↑(start + 1 + inner.length + 2), 0⟩ ::
        (inner ++ [⟨.pop, 0, 0⟩, ⟨.jump, condition, 0⟩])

/-- Where the body of a `for` loop jumps back to. -/
def again (condition start : Nat) : Option Form → Nat
  | none => condition
  | some _ => start + 1

/-- A `for` loop behind its first clause. -/
def forLoop (condition increment : Option Form) (body : Form) : Form :=
  fun context start code => ∃ test steps inner,
    tested (start + test.length + steps.length + inner.length + 1) condition context start test ∧
    stepped start increment context (start + test.length) steps ∧
    body context (start + test.length + steps.length) inner ∧
    code = test ++ steps ++ inner ++
      [⟨.jump, again start (start + test.length) increment, 0⟩] ++
        if condition.isSome then [⟨.pop, 0, 0⟩] else []

/-- Code of a block, whose locals are dropped at its end. -/
def enclosed (body : Context → Locals → Nat → List Instruction → Prop) : Form :=
  fun context start code => ∃ declared inner, body context.nested declared start inner ∧
    code = inner ++ leave (declared.map Prod.snd)

theorem nothing_andThen (form : Form) : nothing.andThen form = form := by
  funext context start code
  refine propext ⟨?_, fun holds => ⟨[], code, rfl, rfl, holds⟩⟩
  rintro ⟨_, back, rfl, rfl, holds⟩
  exact holds

theorem andThen_nothing (form : Form) : form.andThen nothing = form := by
  funext context start code
  refine propext ⟨?_, fun holds => ⟨code, [], (List.append_nil code).symm, holds, rfl⟩⟩
  rintro ⟨front, _, rfl, holds, rfl⟩
  rwa [List.append_nil]

theorem andThen_assoc (first second third : Form) :
    (first.andThen second).andThen third = first.andThen (second.andThen third) := by
  funext context start code
  refine propext ⟨?_, ?_⟩
  · rintro ⟨_, back, rfl, ⟨front, middle, rfl, one, two⟩, three⟩
    rw [List.length_append, ← Nat.add_assoc] at three
    exact ⟨front, middle ++ back, List.append_assoc _ _ _, one, middle, back, rfl, two, three⟩
  · rintro ⟨front, _, rfl, one, middle, back, rfl, two, three⟩
    refine ⟨front ++ middle, back, (List.append_assoc _ _ _).symm, ⟨front, middle, rfl, one, two⟩, ?_⟩
    rwa [List.length_append, ← Nat.add_assoc]

end Form

/-- What code at some position has to be that may declare locals. -/
abbrev Laying := Context → Locals → Nat → List Instruction → Prop

namespace Laying

/-- Code that declares nothing. -/
def plain (form : Form) : Laying := fun context declared start code =>
  declared = [] ∧ form context start code

def andThen (first second : Laying) : Laying := fun context declared start code =>
  ∃ early late front back, declared = late ++ early ∧ code = front ++ back ∧
    first context early start front ∧
    second (context.declare early) late (start + front.length) back

/-- Code that leaves a value for a name: for a global, or in the slot of a new local. -/
def defines (name : Text) (value : Locals → Form) : Laying := fun context declared start code =>
  if context.topLevel then
    declared = [] ∧ (value []).andThen (.naming .defineGlobal name) context start code
  else (∃ flag, declared = [(name, flag)]) ∧ value declared context start code

end Laying

section Codes

open Form (nothing ops perhaps naming skipped chosen whileLoop forLoop enclosed)
open Laying (plain)

/-- The instruction that builds a struct from the values of its fields. -/
def builds (onHeap : Bool) (struct : Text) (fields : List Text) : Form := fun context _ code =>
  ∃ (id : StructId) (type : StructType) (index : Nat) (layout : List Nat),
    context.registry.findStruct struct = some id ∧
    context.registry.struct? id = some type ∧ fields.map type.findField = layout.map some ∧
    layout.Nodup ∧ context.body.layouts[index]? = some layout ∧
    code = [⟨if onHeap then .heapStruct else .stackStruct, id, index⟩]

/-- The instruction that makes a closure of a function. What the function captures of the one around
it is a variable of that, marked as captured. -/
def closes (function : Context → Prototype → Prop) : Form := fun context _ code =>
  ∃ (index : Nat) (id : ObjectId) (body : Prototype),
    context.body.constants[index]? = some (.ref id) ∧
    context.heap.get? id = some (.function body) ∧ function context body ∧
    (∀ capture ∈ body.captures, capture.isLocal = true →
      ∃ name, name ≠ [] ∧ context.locals.reverse[capture.index]? = some (name, true)) ∧
    code = [⟨.closure, index, 0⟩]

/-- The name that the oldest local of a function has. -/
def calleeName (isMethod : Bool) : Text :=
  if isMethod then ascii "self" else []

mutual

def Expression.Codes : Expression → Form
  | .nil => ops [.nil]
  | .bool value => ops [if value then .true else .false]
  | .number numeral => fun context _ code => ∃ index : Nat,
    context.body.constants[index]? = some (.number (Number.read numeral)) ∧
      code = [⟨.constant, index, 0⟩]
  | .string contents => naming .constant contents
  | .variable name => fun context _ code =>
    ∃ place : Place, context.Resolves name place ∧ code = [place.read]
  | .not operand => operand.Codes.andThen (ops [.not])
  | .negate operand => operand.Codes.andThen (ops [.negate])
  | .binary operator left right =>
    left.Codes.andThen (right.Codes.andThen (ops operator.code))
  | .and left right => left.Codes.andThen (skipped .jumpIfFalse right.Codes)
  | .or left right => left.Codes.andThen (skipped .jumpIfTrue right.Codes)
  | .assign name value => value.Codes.andThen (Form.andThen (perhaps .copyStruct)
      fun context _ code => ∃ place : Place, context.Resolves name place ∧ code = [place.write])
  | .call callee arguments => callee.Codes.andThen
    (Form.andThen (codesAll arguments) fun _ _ code => code = [⟨.call, arguments.length, 0⟩])
  | .property target name => target.Codes.andThen (naming .getProperty name)
  | .setProperty target name value =>
    target.Codes.andThen (value.Codes.andThen
      (Form.andThen (perhaps .promote) (naming .setProperty name)))
  | .invoke target name arguments => target.Codes.andThen
    (Form.andThen (codesAll arguments) fun context _ code =>
      ∃ index : Nat, context.Files index name ∧ code = [⟨.invoke, index, arguments.length⟩])
  | .literal onHeap struct fields values =>
    Form.andThen (codesFields values) (builds onHeap struct fields)
  | .function routine => closes (routine.Codes (ascii "anonymous") false)

/-- Expressions one behind the other. -/
def codesAll : List Expression → Form
  | [] => nothing
  | first :: rest => first.Codes.andThen (codesAll rest)

/-- The values of the fields of a literal. On the heap they may have to be moved there. -/
def codesFields : List Expression → Form
  | [] => nothing
  | first :: rest =>
    first.Codes.andThen (Form.andThen (perhaps .promote) (codesFields rest))

def Statement.Codes : Statement → Laying
  | .skip => plain nothing
  | .expression value => plain (value.Codes.andThen (ops [.pop]))
  | .print value => plain (value.Codes.andThen (ops [.print]))
  | .choose condition yes no =>
    plain (condition.Codes.andThen (chosen (yes.Codes · []) (no.Codes · [])))
  | .while condition body => plain (whileLoop condition.Codes (body.Codes · []))
  | .for first condition increment body => plain (enclosed (Laying.andThen first.Codes
      (plain (forLoop (codesOption condition) (codesOption increment) (body.Codes · [])))))
  | .return value => plain (value.Codes.andThen (ops [.return]))
  | .block body => plain (enclosed (codesBlock body))
  | .var name value => .defines name fun _ => value.Codes.andThen (perhaps .copyStruct)
  | .fn name routine => .defines name fun declared context =>
    closes (routine.Codes name false) (context.declare declared)
  | .struct name fields => plain fun context _ code => code = [] ∧ context.topLevel = true ∧
    ∃ id type, context.registry.findStruct name = some id ∧
      context.registry.struct? id = some type ∧ type.name = name ∧ type.fields = fields
  | .trait _ => plain nothing
  | .impl trait struct methods => plain fun context _ code => code = [] ∧
    context.topLevel = true ∧ ∃ id type, context.registry.findStruct struct = some id ∧
      context.registry.struct? id = some type ∧ codesMethods trait type methods context

/-- An optional clause of a loop. -/
def codesOption : Option Expression → Option Form
  | none => none
  | some value => some value.Codes

/-- The statements and declarations of a block. -/
def codesBlock : List Statement → Laying
  | [] => plain nothing
  | first :: rest => Laying.andThen first.Codes (codesBlock rest)

/-- The methods of an impl are those of a registered struct. -/
def codesMethods (trait : Text) (type : StructType) : List (Text × Routine) → Context → Prop
  | [], _ => True
  | (name, routine) :: rest, context =>
    (∃ closure prototype upvalues body, type.findMethod name = some ⟨trait, closure⟩ ∧
      context.heap.get? closure = some (.closure prototype upvalues) ∧
      context.heap.get? prototype = some (.function body) ∧
      routine.Codes (type.name ++ ascii "." ++ name) true context body) ∧
    codesMethods trait type rest context

/-- The prototype of a function that stands in a context. -/
def Routine.Codes : Routine → (name : Text) → (isMethod : Bool) → Context → Prototype → Prop
  | .mk parameters statements, name, isMethod, context, body =>
    (∃ id, body.name = some id ∧ context.heap.string? id = some name) ∧
      body.arity = parameters.length ∧ body.isMethod = isMethod ∧ body.captures.toList.Nodup ∧
      ∃ locals declared code,
        locals.map Prod.fst = parameters.reverse ++ [calleeName isMethod] ∧
        codesBlock statements (context.inside body locals) declared 0 code ∧
        body.code.toList = code ++ [⟨.nil, 0, 0⟩, ⟨.return, 0, 0⟩]

end

theorem codesAll_concat (arguments : List Expression) (last : Expression) :
    codesAll (arguments ++ [last]) = (codesAll arguments).andThen last.Codes := by
  induction arguments with
  | nil => rw [List.nil_append, codesAll, codesAll, codesAll, Form.andThen_nothing,
    Form.nothing_andThen]
  | cons first rest ih => rw [List.cons_append, codesAll, codesAll, ih, Form.andThen_assoc]

theorem codesFields_concat (values : List Expression) (last : Expression) :
    codesFields (values ++ [last])
      = (codesFields values).andThen (last.Codes.andThen (perhaps .promote)) := by
  induction values with
  | nil =>
    rw [List.nil_append, codesFields, codesFields, codesFields, Form.andThen_nothing,
      Form.nothing_andThen]
  | cons first rest ih =>
    rw [List.cons_append, codesFields, codesFields, ih, Form.andThen_assoc, Form.andThen_assoc]

end Codes

/-- The script of a unit. -/
def CodesUnit (program : List Statement) (setting : Setting) : Prop :=
  ∃ flag code, codesBlock program ⟨setting, [([], flag)], [], true⟩ [] 0 code ∧
    setting.body.code.toList = code ++ [⟨.nil, 0, 0⟩, ⟨.return, 0, 0⟩]

end ScriptMachine.Source
