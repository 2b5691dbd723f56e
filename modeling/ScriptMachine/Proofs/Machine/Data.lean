import Mathlib.Data.List.Forall2
import ScriptMachine.Proofs.Code.Flow
import ScriptMachine.Proofs.Heap.Table
import ScriptMachine.Proofs.Machine.Arenas

set_option autoImplicit false

/- What the data of a running machine are like. Collections make objects disappear, so every
statement is about the objects of a set `live`: those are present and well formed, and whatever
the machine can get at is among them. An allocation may replace `live` by a smaller set, but it
never loses an object that is a root. -/
namespace ScriptMachine

/-- A value that may be stored on the heap. -/
def Value.Kept (live : ObjectId → Prop) : Value → Prop
  | .ref id => live id
  | .stack _ => False
  | _ => True

theorem Value.Kept.imp {live live' : ObjectId → Prop} {value : Value} (kept : value.Kept live)
    (more : ∀ id, value = .ref id → live id → live' id) : value.Kept live' := by
  cases value with
  | ref id => exact more id rfl kept
  | stack _ => exact kept
  | nil | bool _ | number _ => trivial

/-- The struct types are registered, and an instance has as many fields as its type. -/
def Registry.Sized (registry : Registry) (type : StructId) (count : Nat) : Prop :=
  ∃ declared, registry.struct? type = some declared ∧ count = declared.fields.length

/-- Strings, prototypes and closures that capture nothing never change while a machine runs. -/
def Object.isCode : Object → Bool
  | .string _ | .function _ => true
  | .closure _ upvalues => upvalues.isEmpty
  | _ => false

/-- Objects that agree in all that never changes. -/
def Object.Alike : Object → Object → Prop
  | .closure prototype upvalues, .closure prototype' upvalues' =>
    prototype' = prototype ∧ upvalues'.size = upvalues.size
  | .cell _, .cell _ => True
  | .record type fields, .record type' fields' => type' = type ∧ fields'.size = fields.size
  | object, object' => object' = object

theorem Object.Alike.refl (object : Object) : object.Alike object := by
  cases object <;> simp [Object.Alike]

theorem Object.Alike.code {object other : Object} (alike : object.Alike other)
    (isCode : object.isCode = true) : other = object := by
  cases object with
  | string _ | function _ => exact alike
  | closure prototype upvalues =>
    cases other with
    | closure _ upvalues' =>
      have empty : upvalues = #[] := Array.isEmpty_iff.mp isCode
      obtain ⟨rfl, size⟩ := alike
      have empty' : upvalues' = #[] := Array.eq_empty_of_size_eq_zero (by rw [size, empty]; rfl)
      rw [empty, empty']
    | string _ | function _ | cell _ | record _ _ | native _ => cases alike
  | cell _ | record _ _ | native _ => cases isCode

theorem Object.Alike.cell {contents : Cell} {other : Object}
    (alike : (Object.cell contents).Alike other) : ∃ contents', other = .cell contents' := by
  cases other with
  | cell contents' => exact ⟨contents', rfl⟩
  | string _ | function _ | closure _ _ | record _ _ | native _ => cases alike

theorem Object.Alike.closure {prototype : ObjectId} {upvalues : Array (Option ObjectId)}
    {other : Object} (alike : (Object.closure prototype upvalues).Alike other) :
    ∃ upvalues', other = .closure prototype upvalues' := by
  cases other with
  | closure prototype' upvalues' => exact ⟨upvalues', by rw [alike.1]⟩
  | string _ | function _ | cell _ | record _ _ | native _ => cases alike

theorem Object.Alike.trans {first second third : Object} (left : first.Alike second)
    (right : second.Alike third) : first.Alike third := by
  cases first <;> cases second <;> cases third <;> simp_all [Object.Alike]

theorem Object.Alike.isCode {object other : Object} (alike : object.Alike other) :
    other.isCode = object.isCode := by
  cases object with
  | closure _ _ =>
    obtain ⟨upvalues, rfl⟩ := alike.closure
    simp only [Object.isCode, Array.isEmpty, alike.2]
  | string _ | function _ | cell _ | record _ _ | native _ =>
    cases other <;> first | rfl | cases alike

/-- The code that a machine runs: the heap it was compiled into, and its struct types. -/
structure Program where
  heap : Heap
  registry : Registry
  tidy : heap.Tidy

namespace Machine

/-- A live object. A closure in `pending` may have unset upvalues. -/
def Sane (program : Program) (live : ObjectId → Prop) (pending : List ObjectId)
    (cells : List (Nat × ObjectId)) (heap : Heap) (id : ObjectId) : Object → Prop
  | .string _ => True
  | .function body =>
    program.heap.get? id = some (.function body) ∧
      body.WellFormed program.heap program.registry ∧
      (∀ name, body.name = some name → live name) ∧ ∀ value ∈ body.constants, value.Kept live
  | .closure prototype upvalues =>
    live prototype ∧
      (∃ body, heap.prototype? prototype = some body ∧ upvalues.size = body.captures.size) ∧
      ∀ upvalue ∈ upvalues, upvalue.elim (id ∈ pending) fun cell =>
        live cell ∧ ∃ contents, heap.get? cell = some (.cell contents)
  | .cell (.onStack slot) => (slot, id) ∈ cells
  | .cell (.closed value) => value.Kept live
  | .record type fields => program.registry.Sized type fields.size ∧ ∀ value ∈ fields, value.Kept live
  | .native _ => True

/-- A heap in which the live objects are well formed. -/
structure Stored (program : Program) (live : ObjectId → Prop) (pending : List ObjectId)
    (cells : List (Nat × ObjectId)) (heap : Heap) : Prop where
  tidy : heap.Tidy
  grown : program.heap.nextId ≤ heap.nextId
  sane : ∀ {id : ObjectId}, live id →
    ∃ object, heap.get? id = some object ∧ Sane program live pending cells heap id object
  fixed : ∀ {id : ObjectId} {object other : Object}, program.heap.get? id = some object →
    object.isCode = true → heap.get? id = some other → other = object

/-- A call that a frame stands for, with the heights of its code. -/
structure Call where
  body : Prototype
  height : Nat → Nat
  base : Nat
  ip : Nat

/-- What the code of a machine tells about its state: the active calls, innermost first, the slots
that have an open cell, and the number of slots. -/
structure Shape where
  calls : List Call
  captured : List Nat
  height : Nat

/-- A frame executes a call. -/
structure Runs (live : ObjectId → Prop) (heap : Heap) (frame : Frame) (call : Call) : Prop where
  live : live frame.closure
  body : heap.closurePrototype? frame.closure = some call.body
  base : frame.base = call.base
  ip : frame.ip = call.ip

/-- A value that may stand in a stack slot. -/
def Holds (program : Program) (live : ObjectId → Prop) (frames : List Frame) (index : Nat) :
    Value → Prop
  | .ref id => live id
  | .stack node => ∃ struct, Owned frames index node struct ∧
      struct.Fits (Value.Kept live) program.registry.Sized
  | _ => True

/-- What a machine names apart from its calls is live. -/
structure Linked (program : Program) (live : ObjectId → Prop) (machine : Machine) : Prop where
  registry : machine.registry = program.registry
  methods : ∀ id ∈ program.registry.roots,
    live id ∧ ∃ body, machine.heap.closurePrototype? id = some body
  held : ∀ id ∈ machine.held, live id
  globals : ∀ {name : ObjectId} {value : Value}, machine.globals[name]? = some value →
    live name ∧ value.Kept live
  natives : ∀ {name id : ObjectId}, machine.natives[name]? = some id → live name ∧ live id

/-- A machine whose data are in order and have the given shape. -/
structure Data (program : Program) (live : ObjectId → Prop) (pending : List ObjectId)
    (shape : Shape) (machine : Machine) : Prop extends Linked program live machine where
  stored : Stored program live pending machine.openCells machine.heap
  calls : List.Forall₂ (Runs live machine.heap) machine.frames shape.calls
  captured : machine.openCells.map Prod.fst = shape.captured
  descending : shape.captured.Pairwise (· > ·)
  cells : ∀ {slot : Nat} {id : ObjectId}, (slot, id) ∈ machine.openCells →
    slot < shape.height ∧ live id ∧ machine.heap.get? id = some (.cell (.onStack slot))
  size : machine.stack.size = shape.height
  values : ∀ {index : Nat} {value : Value}, machine.stack[index]? = some value →
    Holds program live machine.frames index value
  fitting : ∀ struct ∈ arenas machine.frames,
    struct.Fits (Value.Kept live) program.registry.Sized
  unique : StackStruct.Unique (nodeIds machine.frames)
  numbered : ∀ id ∈ nodeIds machine.frames, id < machine.nextNode

section Objects

variable {program : Program} {live live' : ObjectId → Prop} {pending pending' : List ObjectId}
  {cells cells' : List (Nat × ObjectId)} {heap heap' : Heap} {id : ObjectId} {object : Object}

/-- A live object stays well formed in a heap where what it refers to is live and alike. -/
theorem Sane.transfer (sane : Sane program live pending cells heap id object)
    (named : ∀ other ∈ object.references, live other → live' other)
    (alike : ∀ {other old}, live other → live' other → heap.get? other = some old →
      ∃ new, heap'.get? other = some new ∧ old.Alike new)
    (stillPending : id ∈ pending → id ∈ pending')
    (stillOpen : ∀ slot, (slot, id) ∈ cells → (slot, id) ∈ cells') :
    Sane program live' pending' cells' heap' id object := by
  cases object with
  | string _ | native _ => trivial
  | function body =>
    obtain ⟨here, formed, name, constants⟩ := sane
    refine ⟨here, formed, fun other isName => ?_, fun value member => ?_⟩
    · apply named other _ (name other isName)
      exact List.mem_append_left _ (by simp [isName])
    · apply Value.Kept.imp (constants value member)
      intro other isRef
      apply named
      apply List.mem_append_right
      exact List.mem_filterMap.mpr ⟨value, by simpa using member, by simp [isRef, Value.object?]⟩
  | closure prototype upvalues =>
    obtain ⟨livePrototype, ⟨body, function, count⟩, upvaluesSane⟩ := sane
    have livePrototype' := named prototype List.mem_cons_self livePrototype
    refine ⟨livePrototype', ⟨body, ?_, count⟩, ?_⟩
    · unfold Heap.prototype? at function ⊢
      split at function
      · next found =>
        obtain ⟨new, present, same⟩ := alike livePrototype livePrototype' found
        rw [present, same.code rfl]
        exact function
      · cases function
    · intro upvalue member
      have before := upvaluesSane upvalue member
      cases upvalue with
      | none => exact stillPending before
      | some cell =>
        obtain ⟨liveCell, contents, found⟩ := before
        have liveCell' := named cell (List.mem_cons_of_mem _
          (List.mem_filterMap.mpr ⟨some cell, by simpa using member, rfl⟩)) liveCell
        obtain ⟨new, present, same⟩ := alike liveCell liveCell' found
        obtain ⟨contents', rfl⟩ := same.cell
        exact ⟨liveCell', contents', present⟩
  | cell contents =>
    cases contents with
    | onStack slot => exact stillOpen slot sane
    | closed value =>
      apply Value.Kept.imp sane
      intro other isRef
      exact named other (by simp [Object.references, isRef, Value.object?])
  | record type fields =>
    obtain ⟨sized, fieldsKept⟩ := sane
    refine ⟨sized, fun value member => ?_⟩
    apply Value.Kept.imp (fieldsKept value member)
    intro other isRef
    apply named
    exact List.mem_filterMap.mpr ⟨value, by simpa using member, by simp [isRef, Value.object?]⟩

/-- The prototype of a closure does not change. -/
theorem Stored.closurePrototype? (stored : Stored program live pending cells heap)
    (stored' : Stored program live' pending' cells' heap')
    (alike : ∀ {other old}, live other → live' other → heap.get? other = some old →
      ∃ new, heap'.get? other = some new ∧ old.Alike new)
    {body : Prototype} (isLive : live id) (isLive' : live' id)
    (here : heap.closurePrototype? id = some body) :
    heap'.closurePrototype? id = some body := by
  unfold Heap.closurePrototype? at here
  split at here
  · next prototype upvalues found =>
    obtain ⟨new, present, same⟩ := alike isLive isLive' found
    obtain ⟨upvalues', rfl⟩ := same.closure
    have livePrototype : live prototype := by
      obtain ⟨object, foundBefore, sane⟩ := stored.sane isLive
      rw [found] at foundBefore
      cases foundBefore
      exact sane.1
    have livePrototype' : live' prototype := by
      obtain ⟨object, foundAfter, sane⟩ := stored'.sane isLive'
      rw [present] at foundAfter
      cases foundAfter
      exact sane.1
    unfold Heap.prototype? at here
    split at here
    · next function =>
      obtain ⟨kept, presentBody, sameBody⟩ := alike livePrototype livePrototype' function
      rw [sameBody.code rfl] at presentBody
      simp only [Heap.closurePrototype?, present, Heap.prototype?, presentBody]
      exact here
    · cases here
  · cases here

/-- A collection leaves the live objects that are reached. -/
theorem Stored.collect (stored : Stored program live pending cells heap) (roots : List ObjectId) :
    Stored program (fun id => live id ∧ Heap.Reaches heap.objects roots id) pending cells
      (heap.collect roots) where
  tidy := stored.tidy.collect roots
  grown := by
    rw [Heap.collect_nextId]
    exact stored.grown
  sane := by
    rintro id ⟨isLive, reached⟩
    obtain ⟨object, here, sane⟩ := stored.sane isLive
    refine ⟨object, by rw [Heap.get?_collect_of_reaches reached, here], ?_⟩
    refine sane.transfer ?_ ?_ (fun member => member) fun _ member => member
    · exact fun other member isLive => ⟨isLive, .next reached here member⟩
    · intro other old _ kept found
      exact ⟨old, by rw [Heap.get?_collect_of_reaches kept.2, found], .refl old⟩
  fixed := fun here isCode found => stored.fixed here isCode (Heap.get?_collect.mp found).1

/-- A heap that has got one more object. -/
theorem Stored.extend (stored : Stored program live pending cells heap) (tidy : heap'.Tidy)
    (next : heap'.nextId = heap.nextId + 1)
    (rest : ∀ {id}, heap.nextId ≠ id → heap'.get? id = heap.get? id) :
    Stored program live pending cells heap' where
  tidy := tidy
  grown := by rw [next]; exact Nat.le_succ_of_le stored.grown
  sane := by
    have kept : ∀ {other old}, heap.get? other = some old → heap'.get? other = some old :=
      fun found => by rw [rest (stored.tidy.fresh found), found]
    intro id isLive
    obtain ⟨found, here, saneFound⟩ := stored.sane isLive
    exact ⟨found, kept here, saneFound.transfer (fun _ _ isLive => isLive)
      (fun _ _ found => ⟨_, kept found, .refl _⟩) (fun member => member) fun _ member => member⟩
  fixed := by
    intro id found other here isCode present
    have below := program.tidy.bounded here
    have above := stored.grown
    rw [rest (by lia)] at present
    exact stored.fixed here isCode present

/-- A set of live objects and one more. -/
def With (live : ObjectId → Prop) (new : ObjectId) (id : ObjectId) : Prop :=
  live id ∨ id = new

/-- A well-formed object that is present may be counted as live. -/
theorem Stored.enlist (stored : Stored program live pending cells heap)
    (present : heap.get? id = some object)
    (sane : Sane program live pending cells heap id object) :
    Stored program (With live id) pending cells heap where
  tidy := stored.tidy
  grown := stored.grown
  sane := by
    rintro other (isLive | isNew)
    · obtain ⟨found, here, saneFound⟩ := stored.sane isLive
      exact ⟨found, here, saneFound.transfer (fun _ _ => Or.inl)
        (fun _ _ found => ⟨_, found, .refl _⟩) (fun member => member) fun _ member => member⟩
    · rw [isNew]
      exact ⟨object, present, sane.transfer (fun _ _ => Or.inl)
        (fun _ _ found => ⟨_, found, .refl _⟩) (fun member => member) fun _ member => member⟩
  fixed := stored.fixed

/-- An object is replaced by one that is alike and, if it is live, well formed. -/
theorem Stored.set (stored : Stored program live pending cells heap) {old : Object}
    (present : heap.get? id = some old) (alike : old.Alike object)
    (mutable : old.isCode = false)
    (stillPending : ∀ other, other ≠ id → other ∈ pending → other ∈ pending')
    (stillOpen : ∀ slot other, other ≠ id → (slot, other) ∈ cells → (slot, other) ∈ cells')
    (sane : live id → Sane program live pending' cells' (heap.set id object) id object) :
    Stored program live pending' cells' (heap.set id object) where
  tidy := by
    apply stored.tidy.set
    · intro text isString
      have same := alike.isCode
      rw [isString, mutable] at same
      cases same
    · intro text isString
      rw [present] at isString
      cases isString
      cases mutable
  grown := stored.grown
  sane := by
    intro other isLive
    by_cases same : id = other
    · subst same
      exact ⟨object, Heap.get?_set_self present, sane isLive⟩
    · obtain ⟨found, here, saneFound⟩ := stored.sane isLive
      refine ⟨found, by rw [Heap.get?_set_of_ne same, here], ?_⟩
      refine saneFound.transfer (fun _ _ isLive => isLive) ?_ (stillPending other (Ne.symm same))
        fun slot => stillOpen slot other (Ne.symm same)
      intro third before _ _ foundThird
      by_cases sameThird : id = third
      · subst sameThird
        rw [present] at foundThird
        cases foundThird
        exact ⟨object, Heap.get?_set_self present, alike⟩
      · exact ⟨before, by rw [Heap.get?_set_of_ne sameThird, foundThird], .refl before⟩
  fixed := by
    intro other code found here isCode after
    by_cases same : id = other
    · subst same
      rw [stored.fixed here isCode present] at mutable
      rw [mutable] at isCode
      cases isCode
    · rw [Heap.get?_set_of_ne same] at after
      exact stored.fixed here isCode after

/-- Code that is live is as it was compiled. -/
theorem Stored.code (stored : Stored program live pending cells heap) (isLive : live id)
    (here : program.heap.get? id = some object) (isCode : object.isCode = true) :
    heap.get? id = some object := by
  obtain ⟨found, present, _⟩ := stored.sane isLive
  rw [present, stored.fixed here isCode present]

end Objects

end Machine

end ScriptMachine
