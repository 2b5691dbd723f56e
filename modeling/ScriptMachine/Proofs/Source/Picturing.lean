import ScriptMachine.Machine.State
import ScriptMachine.Proofs.Source.Coding
import ScriptMachine.Proofs.Source.Evaluation
import ScriptMachine.Proofs.Twins.Heap

set_option autoImplicit false

/- Machines as pictures of what a program does. A legend tells what the objects of a heap stand for. It
only ever grows, and it promises something of an object as long as that is there, so collections do not
touch it. -/
namespace ScriptMachine.Source

open Prototype (Setting)

/-- A compiled function with the cells that its captures stand for. -/
structure Image where
  setting : Setting
  cells : List (Option Nat)

/-- What an object stands for. Scripts and methods are closures that no program made. -/
inductive Entity where
  | string (text : Text)
  | function (body : Prototype)
  | closure (source : Option Nat) (image : Image)
  | cell (id : Nat)
  | record (id : Nat)
  | native (name : Text)

/-- Entities that only one object stands for. -/
inductive Entity.Alike : Entity → Entity → Prop where
  | closure (id : Nat) (image other : Image) : Alike (.closure (some id) image) (.closure (some id) other)
  | cell (id : Nat) : Alike (.cell id) (.cell id)
  | record (id : Nat) : Alike (.record id) (.record id)
  | native (name : Text) : Alike (.native name) (.native name)

abbrev Legend := ObjectId → Option Entity

namespace Legend

/-- What one legend tells, another one tells as well. -/
def Within (legend more : Legend) : Prop :=
  ∀ {id : ObjectId} {entity : Entity}, legend id = some entity → more id = some entity

/-- A legend that tells of one more object. -/
def adding (legend : Legend) (id : ObjectId) (entity : Entity) : Legend :=
  fun other => if id = other then some entity else legend other

end Legend

/-- What a stack slot holds: a value that is at work, the function that is called, or a variable,
which a closure may have captured. -/
inductive Item where
  | value (datum : Datum)
  | callee
  | cell (id : Nat) (captured : Bool)

def Item.cell? : Item → Option Nat
  | .cell id _ => some id
  | _ => none

/-- An active call: a function, the position of its next instruction and its first stack slot. -/
structure Call where
  image : Image
  position : Nat
  base : Nat

/-- What a machine is to show: the store of a program, the stack from its bottom, and the active calls,
innermost first. -/
structure Picture where
  store : Store
  items : List Item
  calls : List Call

/-- A value shows a datum. -/
inductive Datum.Shows (legend : Legend) : Datum → Value → Prop where
  | nil : Shows legend .nil .nil
  | bool (value : Bool) : Shows legend (.bool value) (.bool value)
  | number (value : Float) : Shows legend (.number value) (.number value)
  | string {text : Text} {object : ObjectId} : legend object = some (.string text) →
      Shows legend (.string text) (.ref object)
  | closure {id : Nat} {image : Image} {object : ObjectId} :
      legend object = some (.closure (some id) image) → Shows legend (.closure id) (.ref object)
  | record {id : Nat} {object : ObjectId} : legend object = some (.record id) →
      Shows legend (.record id) (.ref object)
  | native {name : Text} {object : ObjectId} : legend object = some (.native name) →
      Shows legend (.native name) (.ref object)

/-- A slot holds what the item tells. -/
inductive Item.Shows (legend : Legend) (store : Store) : Item → Value → Prop where
  | value {datum : Datum} {value : Value} : datum.Shows legend value → Shows legend store (.value datum) value
  | callee (object : ObjectId) : Shows legend store .callee (.ref object)
  | cell {id : Nat} (captured : Bool) {datum : Datum} {value : Value} :
      store.cells[id]? = some datum → datum.Shows legend value →
      Shows legend store (.cell id captured) value

/-- A frame executes a call. -/
structure Call.Shows (legend : Legend) (call : Call) (frame : Frame) : Prop where
  closure : ∃ source, legend frame.closure = some (.closure source call.image)
  position : frame.ip = call.position
  base : frame.base = call.base

/-- The environment of a function: what a capture leads to has the cell of that capture, and a name
that no function around has declared has none. -/
structure Encloses (around : List Scope) (captures : Array Capture) (cells : List (Option Nat))
    (environment : Environment) : Prop where
  leads : ∀ {name : Text} {index : Nat}, name ≠ [] → Leads captures around name index →
    ∃ cell, cells[index]? = some (some cell) ∧ environment.lookup name = some cell
  unknown : ∀ {name : Text}, name ≠ [] → (∀ scope ∈ around, slotOf scope.locals name = none) →
    environment.lookup name = none

/-- A compiled function does what a routine does in an environment. -/
def Image.Runs (image : Image) (name : Text) (isMethod : Bool) (routine : Routine)
    (environment : Environment) : Prop :=
  ∃ context : Context, context.heap = image.setting.heap ∧
    context.registry = image.setting.registry ∧
    routine.Codes name isMethod context image.setting.body ∧
    Encloses (⟨context.locals, context.body.captures⟩ :: context.around)
      image.setting.body.captures image.cells environment

/-- The strings, functions and struct types that code was compiled with are those of a machine. -/
structure Founded (legend : Legend) (registry : Registry) (setting : Setting) : Prop where
  strings : ∀ {id : ObjectId} {text : Text}, setting.heap.get? id = some (.string text) →
    legend id = some (.string text)
  functions : ∀ {id : ObjectId} {body : Prototype}, setting.heap.get? id = some (.function body) →
    legend id = some (.function body)
  types : ∀ {id : StructId} {type : StructType}, setting.registry.struct? id = some type →
    ∃ same, registry.struct? id = some same ∧ same.name = type.name ∧ same.fields = type.fields

/-- What an entity refers to is there. -/
def Entity.Grounded (legend : Legend) (registry : Registry) (store : Store) : Entity → Prop
  | .closure source image => Founded legend registry image.setting ∧ ∀ id, source = some id →
      ∃ closure, store.closures[id]? = some closure ∧
        image.Runs closure.name false closure.routine closure.environment
  | .cell id => id < store.cells.size
  | .record id => id < store.records.size
  | .string _ | .function _ | .native _ => True

/-- An object is what the entity tells. The cells of a closure are captured one by one. The cell of a
variable on the stack is open, that of any other variable holds its value. -/
inductive Entity.Fits (world : World) (legend : Legend) (registry : Registry) (store : Store)
    (items : List Item) : Entity → Object → Prop where
  | string (text : Text) : Fits world legend registry store items (.string text) (.string text)
  | function (body : Prototype) : Fits world legend registry store items (.function body) (.function body)
  | closure (source : Option Nat) {image : Image} {prototype : ObjectId}
      {upvalues : Array (Option ObjectId)} :
      legend prototype = some (.function image.setting.body) →
      (∀ {index : Nat} {object : ObjectId} {cell : Nat}, upvalues[index]? = some (some object) →
        image.cells[index]? = some (some cell) → legend object = some (.cell cell)) →
      Fits world legend registry store items (.closure source image) (.closure prototype upvalues)
  | opened {id slot : Nat} : items[slot]? = some (.cell id true) →
      Fits world legend registry store items (.cell id) (.cell (.onStack slot))
  | closed {id : Nat} {datum : Datum} {value : Value} :
      (∀ captured, Item.cell id captured ∉ items) →
      store.cells[id]? = some datum → datum.Shows legend value →
      Fits world legend registry store items (.cell id) (.cell (.closed value))
  | record {id : Nat} {record : Record} {type : StructId} {declared : StructType}
      {fields : Array Value} :
      store.records[id]? = some record → registry.struct? type = some declared →
      declared.name = record.struct →
      List.Forall₂ (Datum.Shows legend) record.fields fields.toList →
      Fits world legend registry store items (.record id) (.record type fields)
  | native {host : Native} : world.native? host.name = some host →
      Fits world legend registry store items (.native host.name) (.native host)

/-- A heap whose objects are what a legend tells. -/
structure Mapped (world : World) (legend : Legend) (registry : Registry) (store : Store)
    (items : List Item) (heap : Heap) : Prop where
  tidy : heap.Tidy
  unlimited : heap.config.limit = 0
  below : ∀ {id : ObjectId} {entity : Entity}, legend id = some entity → id < heap.nextId
  grounded : ∀ {id : ObjectId} {entity : Entity}, legend id = some entity →
    entity.Grounded legend registry store
  fits : ∀ {id : ObjectId} {entity : Entity} {object : Object}, legend id = some entity →
    heap.get? id = some object → entity.Fits world legend registry store items object
  opened : ∀ {id : ObjectId} {slot : Nat}, heap.get? id = some (.cell (.onStack slot)) →
    ∃ cell, items[slot]? = some (.cell cell true) ∧ legend id = some (.cell cell)
  single : ∀ {a b : ObjectId} {one other : Entity}, legend a = some one → legend b = some other →
    one.Alike other → (heap.get? a).isSome → (heap.get? b).isSome → a = b
  distinct : ∀ {slot other id : Nat} {captured again : Bool},
    items[slot]? = some (.cell id captured) →
    items[other]? = some (.cell id again) → slot = other
  inside : ∀ {slot id : Nat} {captured : Bool}, items[slot]? = some (.cell id captured) →
    id < store.cells.size

/-- The struct types of a machine are those that a program has declared, and their methods do what the
program tells. -/
structure Declares (world : World) (legend : Legend) (registry : Registry) : Prop where
  fields : ∀ {id : StructId} {type : StructType}, registry.struct? id = some type →
    type.fields = world.fields type.name
  methods : ∀ {id : StructId} {type : StructType} {name : Text}, registry.struct? id = some type →
    match (world.struct? type.name).bind fun struct => struct.methods.lookup name with
    | none => type.findMethod name = none
    | some routine => ∃ method image title, type.findMethod name = some method ∧
      legend method.closure = some (.closure none image) ∧ image.Runs title true routine []

/-- A machine that shows a picture. -/
structure Depicts (world : World) (legend : Legend) (picture : Picture) (machine : Machine) :
    Prop where
  mapped : Mapped world legend machine.registry picture.store picture.items machine.heap
  stack : List.Forall₂ (Item.Shows legend picture.store) picture.items machine.stack.toList
  calls : List.Forall₂ (Call.Shows legend) picture.calls machine.frames
  globals : ∀ {key : ObjectId} {value : Value}, machine.globals[key]? = some value →
    ∃ name datum, legend key = some (.string name) ∧
      picture.store.globals.lookup name = some datum ∧ datum.Shows legend value
  named : ∀ {name : Text} {datum : Datum}, picture.store.globals.lookup name = some datum →
    ∃ key value, legend key = some (.string name) ∧ machine.globals[key]? = some value
  natives : ∀ {key id : ObjectId}, machine.natives[key]? = some id →
    ∃ name, legend key = some (.string name) ∧ legend id = some (.native name)
  hosts : ∀ {name : Text} {host : Native}, world.native? name = some host →
    ∃ key id, legend key = some (.string name) ∧ machine.natives[key]? = some id
  declares : Declares world legend machine.registry
  output : machine.output.toList = picture.store.output

section Growing

variable {world : World} {legend more last : Legend} {registry : Registry}
  {store store' : Store} {items items' : List Item} {id : ObjectId} {entity : Entity}

theorem Legend.Within.refl (legend : Legend) : legend.Within legend :=
  fun told => told

theorem Legend.Within.trans (one : legend.Within more) (two : more.Within last) :
    legend.Within last :=
  fun told => two (one told)

theorem Legend.adding_self : legend.adding id entity id = some entity :=
  if_pos rfl

theorem Legend.within_adding (new : legend id = none) : legend.Within (legend.adding id entity) := by
  intro other told isTold
  refine (if_neg fun same => ?_).trans isTold
  rw [← same, new] at isTold
  cases isTold

/-- What the larger legend tells is old or new. -/
theorem Legend.adding_cases {other : ObjectId} {told : Entity}
    (isTold : legend.adding id entity other = some told) :
    (other = id ∧ told = entity) ∨ legend other = some told := by
  unfold Legend.adding at isTold
  split at isTold
  · next same =>
    cases isTold
    exact Or.inl ⟨same.symm, rfl⟩
  · exact Or.inr isTold

theorem Datum.Shows.mono {datum : Datum} {value : Value} (shown : datum.Shows legend value)
    (larger : legend.Within more) : datum.Shows more value := by
  cases shown with
  | nil => exact .nil
  | bool value => exact .bool value
  | number value => exact .number value
  | string told => exact .string (larger told)
  | closure told => exact .closure (larger told)
  | record told => exact .record (larger told)
  | native told => exact .native (larger told)

theorem Item.Shows.mono {item : Item} {value : Value} (shown : item.Shows legend store value)
    (larger : legend.Within more)
    (cells : ∀ id datum, item.cell? = some id → store.cells[id]? = some datum →
      store'.cells[id]? = some datum) : item.Shows more store' value := by
  cases shown with
  | value shown => exact .value (shown.mono larger)
  | callee object => exact .callee object
  | cell captured here shown => exact .cell captured (cells _ _ rfl here) (shown.mono larger)

theorem Call.Shows.mono {call : Call} {frame : Frame} (shown : call.Shows legend frame)
    (larger : legend.Within more) : call.Shows more frame := by
  obtain ⟨⟨source, told⟩, position, base⟩ := shown
  exact ⟨⟨source, larger told⟩, position, base⟩

theorem Founded.mono {setting : Setting} (founded : Founded legend registry setting)
    (larger : legend.Within more) : Founded more registry setting :=
  ⟨fun string => larger (founded.strings string), fun function => larger (founded.functions function),
    founded.types⟩

theorem Entity.Grounded.mono (grounded : entity.Grounded legend registry store)
    (larger : legend.Within more) (cells : store.cells.size ≤ store'.cells.size)
    (records : store.records.size ≤ store'.records.size)
    (closures : ∀ (id : Nat) (closure : Closure), store.closures[id]? = some closure →
      store'.closures[id]? = some closure) : entity.Grounded more registry store' := by
  cases entity with
  | string _ | function _ | native _ => trivial
  | cell id => exact Nat.lt_of_lt_of_le grounded cells
  | record id => exact Nat.lt_of_lt_of_le grounded records
  | closure source image =>
    refine ⟨grounded.1.mono larger, fun id isSource => ?_⟩
    obtain ⟨closure, here, runs⟩ := grounded.2 id isSource
    exact ⟨closure, closures id closure here, runs⟩

/-- An object stays what the entity tells as long as its own variable or record is not touched. -/
theorem Entity.Fits.transfer {object : Object} (fits : entity.Fits world legend registry store items object)
    (larger : legend.Within more)
    (records : ∀ id record, entity = .record id → store.records[id]? = some record →
      store'.records[id]? = some record)
    (slots : ∀ id (slot : Nat), entity = .cell id → items[slot]? = some (Item.cell id true) →
      items'[slot]? = some (Item.cell id true))
    (cells : ∀ id datum, entity = .cell id → (∀ captured, Item.cell id captured ∉ items) →
      store.cells[id]? = some datum → (∀ captured, Item.cell id captured ∉ items') ∧
        store'.cells[id]? = some datum) :
    entity.Fits world more registry store' items' object := by
  cases fits with
  | string text => exact .string text
  | function body => exact .function body
  | closure source code captured =>
    exact .closure source (larger code) fun here cell => larger (captured here cell)
  | opened here => exact .opened (slots _ _ rfl here)
  | closed apart here shown =>
    obtain ⟨apart', here'⟩ := cells _ _ rfl apart here
    exact .closed apart' here' (shown.mono larger)
  | record here isType named fields =>
    exact .record (records _ _ rfl here) isType named
      (fields.imp fun _ _ shown => Datum.Shows.mono shown larger)
  | native isHost => exact .native isHost

theorem Declares.mono (declares : Declares world legend registry) (larger : legend.Within more) :
    Declares world more registry where
  fields := declares.fields
  methods {id type name} isType := by
    have methods := @Declares.methods _ _ _ declares id type name isType
    split at methods
    · exact methods
    · obtain ⟨method, image, title, found, told, runs⟩ := methods
      exact ⟨method, image, title, found, larger told, runs⟩

end Growing

end ScriptMachine.Source
