import ScriptMachine.Heap
import ScriptMachine.Registry

set_option autoImplicit false

/- Well-formed bytecode. Every instruction is given one height of the operand stack, counted from
the base of its frame; heights agree along all edges, operands are in range and of the right kind,
and a captured slot is dropped by `closeUpvalue` or `return` only. -/
namespace ScriptMachine

/-- What an instruction does to the operand stack: it needs `needs` values there, takes `drops` of
them away and then adds `adds`. -/
structure Effect where
  needs : Nat
  drops : Nat
  adds : Nat
  deriving DecidableEq, Repr

/-- Instructions that go on at their operand, always or sometimes. -/
def Opcode.isJump : Opcode → Bool
  | .jump | .jumpIfFalse | .jumpIfTrue => Bool.true
  | _ => Bool.false

/-- Instructions that never go on at the next one. -/
def Opcode.leaves : Opcode → Bool
  | .jump | .return => Bool.true
  | _ => Bool.false

/-- Every struct of one registry is in another one, with the same fields. -/
def Registry.Includes (before after : Registry) : Prop :=
  ∀ {id : StructId} {type : StructType}, before.struct? id = some type →
    ∃ known, after.struct? id = some known ∧ known.fields = type.fields

theorem Registry.Includes.refl (registry : Registry) : registry.Includes registry :=
  fun registered => ⟨_, registered, rfl⟩

namespace Prototype

def layout? (prototype : Prototype) (index : Int) : Option (List Nat) :=
  if index < 0 then none else prototype.layouts[index.toNat]?

/-- An instruction that replaces its operand in place drops nothing. -/
def effect (prototype : Prototype) (code : Instruction) : Effect :=
  match code.op with
  | .constant | .nil | .true | .false | .getLocal | .getGlobal | .getUpvalue | .closure => ⟨0, 0, 1⟩
  | .pop | .defineGlobal | .print | .closeUpvalue => ⟨1, 1, 0⟩
  | .setLocal | .setGlobal | .setUpvalue | .getProperty | .not | .negate | .jumpIfFalse
  | .jumpIfTrue | .promote | .copyStruct | .return => ⟨1, 0, 0⟩
  | .greater | .less | .add | .subtract | .multiply | .divide => ⟨2, 1, 0⟩
  | .equal | .setProperty => ⟨2, 2, 1⟩
  | .call => ⟨code.a.toNat + 1, code.a.toNat + 1, 1⟩
  | .invoke => ⟨code.b.toNat + 1, code.b.toNat + 1, 1⟩
  | .stackStruct | .heapStruct =>
    let count := ((prototype.layout? code.b).map List.length).getD 0
    ⟨count, count, 1⟩
  | .jump | .unknown => ⟨0, 0, 0⟩

/-- Where control can go from a position. -/
inductive Edge (prototype : Prototype) : Nat → Nat → Prop where
  | next {position : Nat} {code : Instruction} : prototype.code[position]? = some code →
      code.op.leaves = false → Edge prototype position (position + 1)
  | jump {position : Nat} {code : Instruction} : prototype.code[position]? = some code →
      code.op.isJump = true → Edge prototype position code.a.toNat

/-- An operand that names a string constant. -/
def Names (heap : Heap) (prototype : Prototype) (index : Int) : Prop :=
  ∃ id text, prototype.constant? index = some (.ref id) ∧ heap.string? id = some text

/-- An operand that names a function constant, and the function. -/
def Makes (heap : Heap) (prototype : Prototype) (index : Int) (body : Prototype) : Prop :=
  ∃ id, prototype.constant? index = some (.ref id) ∧ heap.prototype? id = some body

/-- What a closure captures is there when it is made: a slot not above the one it fills itself, or
a captured variable of the function that makes it. -/
def Captures (prototype : Prototype) (height : Nat) (body : Prototype) : Prop :=
  ∀ capture ∈ body.captures,
    if capture.isLocal then capture.index ≤ height else capture.index < prototype.captures.size

/-- A struct literal: its type is registered, and its layout fills slots the type has. -/
def Builds (registry : Registry) (prototype : Prototype) (code : Instruction) : Prop :=
  0 ≤ code.a ∧ ∃ type layout, registry.struct? code.a.toNat = some type ∧
    prototype.layout? code.b = some layout ∧ ∀ slot ∈ layout, slot < type.fields.length

/-- The operands of an instruction are in range and of the right kind, at a given height. -/
def OperandsFit (heap : Heap) (registry : Registry) (prototype : Prototype) (height : Nat)
    (code : Instruction) : Prop :=
  match code.op with
  | .constant => (prototype.constant? code.a).isSome
  | .getLocal | .setLocal => 0 ≤ code.a ∧ code.a.toNat < height
  | .getGlobal | .defineGlobal | .setGlobal | .getProperty | .setProperty =>
    prototype.Names heap code.a
  | .getUpvalue | .setUpvalue => 0 ≤ code.a ∧ code.a.toNat < prototype.captures.size
  | .jump | .jumpIfFalse | .jumpIfTrue | .call => 0 ≤ code.a
  | .invoke => prototype.Names heap code.a ∧ 0 ≤ code.b
  | .closure => ∃ body, prototype.Makes heap code.a body ∧ prototype.Captures height body
  | .stackStruct | .heapStruct => prototype.Builds registry code
  | _ => True

/-- The slots that a closure made on some path to a position has captured and that have been there
since. -/
inductive CapturedAt (heap : Heap) (prototype : Prototype) (height : Nat → Nat) :
    (slot position : Nat) → Prop where
  | made {position next : Nat} {code : Instruction} {body : Prototype} {capture : Capture} :
      prototype.code[position]? = some code → code.op = .closure →
      prototype.Makes heap code.a body → capture ∈ body.captures → capture.isLocal = true →
      prototype.Edge position next → CapturedAt heap prototype height capture.index next
  | kept {slot position next : Nat} {code : Instruction} :
      CapturedAt heap prototype height slot position → prototype.code[position]? = some code →
      slot < height position - (prototype.effect code).drops →
      prototype.Edge position next → CapturedAt heap prototype height slot next

/-- Heights of the operand stack that fit the code everywhere. -/
structure Balanced (heap : Heap) (registry : Registry) (prototype : Prototype)
    (height : Nat → Nat) : Prop where
  start : height 0 = prototype.arity + 1
  enough : ∀ {position : Nat} {code : Instruction}, prototype.code[position]? = some code →
    (prototype.effect code).needs ≤ height position
  operands : ∀ {position : Nat} {code : Instruction}, prototype.code[position]? = some code →
    prototype.OperandsFit heap registry (height position) code
  inside : ∀ {position next : Nat}, prototype.Edge position next → next < prototype.code.size
  agrees : ∀ {position next : Nat} {code : Instruction}, prototype.code[position]? = some code →
    prototype.Edge position next →
    height next = height position - (prototype.effect code).drops + (prototype.effect code).adds
  closed : ∀ {slot position : Nat} {code : Instruction},
    CapturedAt heap prototype height slot position → prototype.code[position]? = some code →
    code.op ≠ .closeUpvalue → code.op ≠ .return →
    slot < height position - (prototype.effect code).drops

/-- A prototype whose code is well formed. -/
structure WellFormed (heap : Heap) (registry : Registry) (prototype : Prototype) : Prop where
  lined : prototype.lines.size = prototype.code.size
  ends : ∃ code, prototype.code.back? = some code ∧ code.op = .return
  balanced : ∃ height, prototype.Balanced heap registry height

theorem WellFormed.nonempty {heap : Heap} {registry : Registry} {prototype : Prototype}
    (formed : prototype.WellFormed heap registry) : 0 < prototype.code.size := by
  obtain ⟨code, last, _⟩ := formed.ends
  apply Nat.pos_of_ne_zero
  intro empty
  rw [Array.back?_eq_getElem?, Array.getElem?_eq_none (by omega)] at last
  cases last

theorem effect_drops_le (prototype : Prototype) (code : Instruction) :
    (prototype.effect code).drops ≤ (prototype.effect code).needs := by
  unfold effect
  split <;> simp

section Transfer

variable {heap other : Heap} {prototype : Prototype} {registry known : Registry}
  {height : Nat → Nat}

/-- Of the constants of a prototype, one heap shows all that another shows, and no other function. -/
def SameConstants (heap other : Heap) (prototype : Prototype) : Prop :=
  ∀ id, Value.ref id ∈ prototype.constants →
    (∀ text, heap.string? id = some text → other.string? id = some text) ∧
      other.prototype? id = heap.prototype? id

theorem constant?_mem {index : Int} {value : Value}
    (here : prototype.constant? index = some value) : value ∈ prototype.constants := by
  unfold Prototype.constant? at here
  split at here
  · cases here
  · exact Array.mem_of_getElem? here

theorem Names.transfer (same : SameConstants heap other prototype) {index : Int}
    (names : prototype.Names heap index) : prototype.Names other index := by
  obtain ⟨id, text, here, string⟩ := names
  exact ⟨id, text, here, (same id (constant?_mem here)).1 text string⟩

theorem Makes.transfer (same : SameConstants heap other prototype) {index : Int}
    {body : Prototype} : prototype.Makes other index body ↔ prototype.Makes heap index body := by
  constructor <;> rintro ⟨id, here, function⟩ <;> refine ⟨id, here, ?_⟩
  · rw [← (same id (constant?_mem here)).2, function]
  · rw [(same id (constant?_mem here)).2, function]

theorem CapturedAt.transfer_back (same : SameConstants heap other prototype) {slot position : Nat}
    (captured : prototype.CapturedAt other height slot position) :
    prototype.CapturedAt heap height slot position := by
  induction captured with
  | made here op makes member isLocal edge =>
    exact .made here op ((Makes.transfer same).mp makes) member isLocal edge
  | kept _ here below edge ih => exact .kept ih here below edge

/-- Registered structs stay registered, with their fields. -/
theorem Builds.transfer (includes : registry.Includes known) {code : Instruction}
    (builds : prototype.Builds registry code) : prototype.Builds known code := by
  obtain ⟨valid, type, layout, registered, isLayout, slots⟩ := builds
  obtain ⟨type', registered', fields⟩ := includes registered
  exact ⟨valid, type', layout, registered', isLayout, by rw [fields]; exact slots⟩

theorem OperandsFit.transfer (same : SameConstants heap other prototype)
    (includes : registry.Includes known) {depth : Nat} {code : Instruction}
    (fits : prototype.OperandsFit heap registry depth code) :
    prototype.OperandsFit other known depth code := by
  unfold OperandsFit at fits ⊢
  split at fits <;> try exact fits
  · exact fits.transfer same
  · exact fits.transfer same
  · exact fits.transfer same
  · exact fits.transfer same
  · exact fits.transfer same
  · exact ⟨fits.1.transfer same, fits.2⟩
  · obtain ⟨body, makes, captures⟩ := fits
    exact ⟨body, (Makes.transfer same).mpr makes, captures⟩
  · exact fits.transfer includes
  · exact fits.transfer includes

/-- Heights that fit in one heap fit in every heap that looks the same. -/
theorem Balanced.transfer (same : SameConstants heap other prototype)
    (includes : registry.Includes known) (balanced : prototype.Balanced heap registry height) :
    prototype.Balanced other known height where
  start := balanced.start
  enough := balanced.enough
  operands here := (balanced.operands here).transfer same includes
  inside := balanced.inside
  agrees := balanced.agrees
  closed captured := balanced.closed (captured.transfer_back same)

theorem WellFormed.transfer (same : SameConstants heap other prototype)
    (includes : registry.Includes known) (formed : prototype.WellFormed heap registry) :
    prototype.WellFormed other known where
  lined := formed.lined
  ends := formed.ends
  balanced := by
    obtain ⟨height, balanced⟩ := formed.balanced
    exact ⟨height, balanced.transfer same includes⟩

end Transfer

end Prototype

end ScriptMachine
