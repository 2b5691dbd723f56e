import Mathlib.Logic.Relation
import ScriptMachine.Machine
import ScriptMachine.Proofs.Heap.Table
import ScriptMachine.Proofs.Invariant

set_option autoImplicit false

/- What an action can do to a machine besides moving control and assigning to variables that outlive
it. The kinds of change are said once, and every invariant follows from going through them. Nothing
is assumed about the code. A fault tells the calls that are active when it strikes, so all that an
action does up to a fault is described here as well. -/
namespace ScriptMachine.Machine

/-- Where the call of a frame stands, without what the frame owns. -/
def bare (frame : Frame) : Frame :=
  { closure := frame.closure, base := frame.base, ip := frame.ip }

/-- Where the active calls stand. -/
def standing (machine : Machine) : List Frame :=
  machine.frames.map bare

/-- An instance with other fields, or a closure with other upvalues. -/
inductive Refills : Object → Object → Prop where
  | record (type : StructId) {fields others : Array Value} : others.size = fields.size →
      Refills (.record type fields) (.record type others)
  | closure (prototype : ObjectId) {upvalues others : Array (Option ObjectId)} :
      others.size = upvalues.size → Refills (.closure prototype upvalues) (.closure prototype others)

/-- Machines that differ in operand stack, arenas, output and counters at most. The stack does not
grow beyond its limit. -/
structure Aside (before after : Machine) : Prop where
  heap : after.heap = before.heap
  calls : after.standing = before.standing
  cells : after.openCells = before.openCells
  globals : after.globals = before.globals
  natives : after.natives = before.natives
  registry : after.registry = before.registry
  config : after.config = before.config
  held : after.held = before.held
  size : after.stack.size ≤ max before.stack.size before.config.stackSlots

/-- Machines with the same structs, that count the same bytes for them. -/
structure Level (before after : Machine) : Prop where
  arenas : after.frames.map Frame.arena = before.frames.map Frame.arena
  bytes : after.arenaBytes = before.arenaBytes

/-- What not every action does: to open and close cells and give closures their upvalues, and to
change structs or the bytes that are charged for them. -/
structure Licence where
  cells : Prop
  structs : Prop

def Licence.none : Licence := ⟨False, False⟩

structure Licence.Within (small large : Licence) : Prop where
  cells : small.cells → large.cells
  structs : small.structs → large.structs

theorem Licence.none_within {large : Licence} : Licence.none.Within large :=
  ⟨False.elim, False.elim⟩

/-- One change. An open cell is made for a slot that has none, and the first open cell of the list
can be closed. -/
inductive Touch (free : Licence) : Machine → Machine → Prop where
  | aside {before after : Machine} : Aside before after → Level before after ∨ free.structs →
      Touch free before after
  | collect {machine : Machine} (pinned : List ObjectId) :
      Touch free machine { machine with heap := machine.heap.collect (pinned ++ machine.roots) }
  | recount {machine : Machine} {heap : Heap} : heap.objects = machine.heap.objects →
      heap.nextId = machine.heap.nextId → heap.interned = machine.heap.interned →
      heap.bytes = machine.heap.bytes ∨ free.structs → Touch free machine { machine with heap }
  | link {machine : Machine} {object : Object} : (∀ text, object ≠ .string text) →
      (∀ cell, object ≠ .cell cell) →
      Touch free machine { machine with heap := machine.heap.link object }
  | file {machine : Machine} {text : Text} : machine.heap.interned[text]? = none →
      Touch free machine { machine with heap := machine.heap.file text }
  | refill {machine : Machine} {id : ObjectId} {old new : Object} :
      machine.heap.get? id = some old → Refills old new →
      (∀ prototype upvalues, old = .closure prototype upvalues → free.cells) →
      Touch free machine { machine with heap := machine.heap.set id new }
  | capture {machine : Machine} {slot : Nat} : machine.openCells.lookup slot = none → free.cells →
      Touch free machine
        { machine with
          heap := machine.heap.link (.cell (.onStack slot))
          openCells := insertCell slot machine.heap.nextId machine.openCells }
  | close {machine : Machine} {slot : Nat} {cell : ObjectId} {rest : List (Nat × ObjectId)}
      (value : Value) : machine.openCells = (slot, cell) :: rest → free.cells →
      Touch free machine
        { machine with
          openCells := rest
          heap := machine.heap.set cell (.cell (.closed value)) }

abbrev Touches (free : Licence) := Relation.ReflTransGen (Touch free)

/-- The error that the host throws ready-made. -/
def readyMade : RuntimeError :=
  ⟨.host (ascii "native fault"), [⟨ascii "host", 7⟩]⟩

/-- The error reports the calls that are active. -/
def Tells (error : RuntimeError) (machine : Machine) : Prop :=
  error = readyMade ∨ error.trace = machine.trace

/-- Started in `machine`, the action ends with `done`, or it stops with a fault that tells the calls
active where it strikes, or it goes wrong. -/
def Leads {α : Type} (action : Exec α) (machine : Machine) (done : α → Machine → Prop)
    (struck : Machine → Prop) : Prop :=
  match action machine with
  | .ok result after => done result after
  | .error (.fault error) after => struck after ∧ Tells error after
  | .error .wrong _ => True

/-- An action that touches a machine, however it ends. -/
class Touching (free : Licence) {α : Type} (action : Exec α) : Prop where
  leads : ∀ machine : Machine, Leads action machine (fun _ => Touches free machine)
    (Touches free machine)

variable {free : Licence} {cells structs : Prop}

/-- Machines whose calls stand where they stood, with the same variables, natives and types. -/
structure Still (before after : Machine) : Prop where
  calls : after.standing = before.standing
  globals : after.globals = before.globals
  natives : after.natives = before.natives
  registry : after.registry = before.registry
  config : after.config = before.config
  held : after.held = before.held

theorem Touch.still {before after : Machine} (touch : Touch free before after) : Still before after := by
  cases touch with
  | aside aside =>
    exact ⟨aside.calls, aside.globals, aside.natives, aside.registry, aside.config, aside.held⟩
  | collect | recount | link | file | refill | capture | close => exact ⟨rfl, rfl, rfl, rfl, rfl, rfl⟩

theorem Touches.still {before after : Machine} (touches : Touches free before after) :
    Still before after := by
  induction touches with
  | refl => exact ⟨rfl, rfl, rfl, rfl, rfl, rfl⟩
  | tail _ touch ih =>
    have last := touch.still
    exact ⟨last.calls.trans ih.calls, last.globals.trans ih.globals, last.natives.trans ih.natives,
      last.registry.trans ih.registry, last.config.trans ih.config, last.held.trans ih.held⟩

section Rules

variable {α β : Type} {machine : Machine} {done : α → Machine → Prop} {struck : Machine → Prop}

theorem Leads.mono {action : Exec α} {weaker : α → Machine → Prop} {softer : Machine → Prop}
    (leads : Leads action machine done struck)
    (ends : ∀ result after, done result after → weaker result after)
    (strikes : ∀ after, struck after → softer after) : Leads action machine weaker softer := by
  unfold Leads at leads ⊢
  split at leads
  · exact ends _ _ leads
  · exact ⟨strikes _ leads.1, leads.2⟩
  · trivial

@[simp] theorem leads_pure {value : α} :
    Leads (pure value) machine done struck ↔ done value machine := Iff.rfl

@[simp] theorem leads_get {done : Machine → Machine → Prop} :
    Leads get machine done struck ↔ done machine machine := Iff.rfl

@[simp] theorem leads_modify {change : Machine → Machine} {done : Unit → Machine → Prop} :
    Leads (modify change) machine done struck ↔ done () (change machine) := Iff.rfl

@[simp] theorem leads_modifyGet {change : Machine → α × Machine} :
    Leads (modifyGet change) machine done struck ↔ done (change machine).1 (change machine).2 :=
  Iff.rfl

@[simp] theorem leads_bind {first : Exec β} {rest : β → Exec α} :
    Leads (first >>= rest) machine done struck ↔
      Leads first machine (fun value middle => Leads (rest value) middle done struck) struck := by
  simp only [Leads, bind, EStateM.bind]
  cases first machine with
  | ok value middle => exact Iff.rfl
  | error stop middle => cases stop <;> exact Iff.rfl

@[simp] theorem leads_fail {fault : Fault} :
    Leads (fail fault) machine done struck ↔ struck machine :=
  ⟨fun leads => leads.1, fun strikes => ⟨strikes, Or.inr rfl⟩⟩

theorem leads_goWrong : Leads goWrong machine done struck := trivial

/-- What touches comes first, and the rest goes on from there. -/
theorem Leads.after {first : Exec β} {rest : β → Exec α} [touching : Touching free first]
    (strikes : ∀ after, Touches free machine after → struck after)
    (goesOn : ∀ value middle, Touches free machine middle → Leads (rest value) middle done struck) :
    Leads (first >>= rest) machine done struck :=
  leads_bind.mpr ((touching.leads machine).mono goesOn strikes)

theorem Leads.keeping {inv : Machine → Prop} {first : Exec β} {rest : β → Exec α}
    [touching : Touching free first] [keeps : Keeps inv first] (holds : inv machine)
    (strikes : ∀ after, Touches free machine after → struck after)
    (goesOn : ∀ value middle, Touches free machine middle → inv middle →
      Leads (rest value) middle done struck) :
    Leads (first >>= rest) machine done struck := by
  have leads := touching.leads machine
  have kept := keeps.left holds
  rw [leads_bind]
  unfold Leads at leads ⊢
  cases ran : first machine with
  | ok value middle =>
    rw [ran] at leads kept
    exact goesOn value middle leads kept
  | error stop middle =>
    rw [ran] at leads
    cases stop with
    | fault error => exact ⟨strikes _ leads.1, leads.2⟩
    | wrong => trivial

/-- A given value is there, or nothing goes on. -/
theorem leads_given {value : Option α} (goesOn : ∀ found, value = some found → done found machine) :
    Leads (given value) machine done struck := by
  cases value with
  | none => trivial
  | some found => exact goesOn found rfl

theorem touching_modify {change : Machine → Machine} (touches : ∀ machine, Touch free machine (change machine)) :
    Touching free (modify change : Exec Unit) where
  leads machine := .single (touches machine)

instance (value : α) : Touching free (pure value : Exec α) where
  leads _ := .refl

instance : Touching free (get : Exec Machine) where
  leads _ := .refl

instance (fault : Fault) : Touching free (fail fault : Exec α) where
  leads _ := ⟨.refl, Or.inr rfl⟩

instance : Touching free (goWrong : Exec α) where
  leads _ := trivial

/-- Nothing runs behind a fault. -/
instance (fault : Fault) (rest : β → Exec α) : Touching free (fail fault >>= rest) where
  leads _ := ⟨.refl, Or.inr rfl⟩

instance (rest : β → Exec α) : Touching free (goWrong >>= rest) where
  leads _ := trivial

instance (value : Option α) : Touching free (given value) where
  leads _ := leads_given fun _ _ => .refl

theorem Touching.andThen {first : Exec β} {rest : β → Exec α} (begins : Touching free first)
    (goesOn : ∀ value, Touching free (rest value)) : Touching free (first >>= rest) where
  leads machine := by
    refine Leads.after (fun _ touches => touches) fun value middle touches => ?_
    exact ((goesOn value).leads middle).mono (fun _ _ later => touches.trans later)
      fun _ later => touches.trans later

instance (first : Exec β) (rest : β → Exec α) [begins : Touching free first]
    [goesOn : ∀ value, Touching free (rest value)] : Touching free (first >>= rest) :=
  begins.andThen goesOn

instance (change : β → α) (action : Exec β) [touching : Touching free action] :
    Touching free (change <$> action) :=
  inferInstanceAs (Touching free (action >>= fun value => pure (change value)))

instance (test : Prop) [Decidable test] (yes no : Exec α) [one : Touching free yes]
    [other : Touching free no] : Touching free (if test then yes else no) := by
  split
  · exact one
  · exact other

end Rules

section Heaps

variable {machine : Machine}

/-- Changes that the roots of a machine reach through are kept by every collection. -/
theorem touches_prepared (pinned : List ObjectId) (bytes : UInt64) :
    Touches free machine
      { machine with heap := machine.heap.prepared (fun _ => pinned ++ machine.roots) bytes } := by
  rcases Heap.prepared_cases machine.heap (fun _ => pinned ++ machine.roots) bytes
    with same | collected
  · rw [same]
  · rw [collected]
    exact .single (.collect pinned)

/-- The objects by which a frame is named in a trace are in use. -/
theorem traceEntry_prepared {frame : Frame} (member : frame ∈ machine.frames)
    (pinned : List ObjectId) (bytes : UInt64) :
    traceEntry (machine.heap.prepared (fun _ => pinned ++ machine.roots) bytes) frame
      = traceEntry machine.heap frame := by
  have same : ∀ {id}, Heap.Reaches machine.heap.objects (pinned ++ machine.roots) id →
      (machine.heap.prepared (fun _ => pinned ++ machine.roots) bytes).get? id
        = machine.heap.get? id :=
    fun reached => Heap.get?_prepared_of_reaches reached
  have root : Heap.Reaches machine.heap.objects (pinned ++ machine.roots) frame.closure := by
    refine .root (List.mem_append_right _ ?_)
    simp only [roots, List.mem_append]
    exact Or.inl (Or.inl (Or.inl (Or.inr (List.mem_flatMap.mpr ⟨frame, member, List.mem_cons_self⟩))))
  have prototypes : (machine.heap.prepared (fun _ => pinned ++ machine.roots) bytes).closurePrototype?
      frame.closure = machine.heap.closurePrototype? frame.closure := by
    unfold Heap.closurePrototype?
    rw [same root]
    split
    · next prototype _ found =>
      unfold Heap.prototype?
      rw [same (root.next found List.mem_cons_self)]
    · rfl
  unfold traceEntry
  rw [prototypes]
  cases isBody : machine.heap.closurePrototype? frame.closure with
  | none => rfl
  | some body =>
    have named : (machine.heap.prepared (fun _ => pinned ++ machine.roots) bytes).displayName body
        = machine.heap.displayName body := by
      unfold Heap.displayName
      split
      · rfl
      · next name isName =>
        unfold Heap.closurePrototype? at isBody
        split at isBody
        · next prototype upvalues found =>
          unfold Heap.prototype? at isBody
          split at isBody
          · next function =>
            cases isBody
            have reached := (root.next found List.mem_cons_self).next function
              (List.mem_append_left _ (by simp [isName]) : name ∈ Object.references (.function _))
            unfold Heap.string?
            rw [same reached]
          · cases isBody
        · cases isBody
    simp only [Option.getD_some, named]

theorem tells_prepared (pinned : List ObjectId) (bytes : UInt64) (fault : Fault) :
    Tells ⟨fault, machine.trace⟩
      { machine with heap := machine.heap.prepared (fun _ => pinned ++ machine.roots) bytes } :=
  Or.inr (List.map_congr_left fun _ member => (traceEntry_prepared member pinned bytes).symm)

theorem leads_allocating {α : Type} {pinned : List ObjectId}
    {action : (Unit → List ObjectId) → Heap.Action α} {done : α → Machine → Prop}
    {struck : Machine → Prop} :
    Leads (allocating pinned action) machine done struck ↔
      match action (fun _ => pinned ++ machine.roots) machine.heap with
      | .ok result heap => done result { machine with heap }
      | .error failure heap => struck { machine with heap } ∧
          Tells ⟨.exhausted failure, machine.trace⟩ { machine with heap } := by
  simp only [Leads, allocating]
  cases action (fun _ => pinned ++ machine.roots) machine.heap <;> exact Iff.rfl

/-- An allocation that fails has made room only. -/
theorem leads_allocate {pinned : List ObjectId} {object : Object}
    {done : ObjectId → Machine → Prop} {struck : Machine → Prop}
    (strikes : ∀ after, Touches free machine after → struck after)
    (goesOn : ∀ ready : Heap, Touches free machine { machine with heap := ready } →
      done ready.nextId { machine with heap := ready.link object }) :
    Leads (allocating pinned (Heap.allocate · object)) machine done struck := by
  rw [leads_allocating, Heap.allocate_eq]
  have touches := @touches_prepared free machine pinned object.size.toUInt64
  have tells := @tells_prepared machine pinned object.size.toUInt64
  generalize machine.heap.prepared (fun _ => pinned ++ machine.roots) object.size.toUInt64 = ready
    at touches tells ⊢
  by_cases full : ready.overLimit object.size.toUInt64 = true
  · simp only [full, ↓reduceIte]
    exact ⟨strikes _ touches, tells _⟩
  · simp only [full, Bool.false_eq_true, ↓reduceIte]
    exact goesOn ready touches

theorem touching_allocate (pinned : List ObjectId) {object : Object}
    (notString : ∀ text, object ≠ .string text) (notCell : ∀ cell, object ≠ .cell cell) :
    Touching free (allocating pinned (Heap.allocate · object)) where
  leads _ := leads_allocate (fun _ touches => touches) fun _ touches =>
    touches.tail (.link notString notCell)

instance (pinned : List ObjectId) (type : StructId) (count : Nat) :
    Touching free (allocating pinned (Heap.newRecord · type count)) :=
  touching_allocate pinned (by simp) (by simp)

instance (pinned : List ObjectId) (prototype : ObjectId) :
    Touching free (allocating pinned (Heap.newClosure · prototype)) where
  leads machine := by
    have opened : ∀ roots heap, Heap.newClosure roots prototype heap
        = Heap.allocate roots (.closure prototype (Array.replicate
          (((heap.prototype? prototype).map fun body => body.captures.size).getD 0) none)) heap :=
      fun _ _ => rfl
    have allocates := (touching_allocate pinned (by simp) (by simp) :
      Touching free (allocating pinned (Heap.allocate · (.closure prototype (Array.replicate
        (((machine.heap.prototype? prototype).map fun body => body.captures.size).getD 0)
        none))))).leads machine
    rw [leads_allocating] at allocates ⊢
    rw [opened]
    exact allocates

instance (pinned : List ObjectId) (bytes : UInt64) :
    Touching ⟨cells, True⟩ (allocating pinned (Heap.reserve · bytes)) where
  leads machine := by
    rw [leads_allocating, Heap.reserve_eq]
    have touches := @touches_prepared ⟨cells, True⟩ machine pinned bytes
    have tells := @tells_prepared machine pinned bytes
    generalize machine.heap.prepared (fun _ => pinned ++ machine.roots) bytes = ready
      at touches tells ⊢
    by_cases full : ready.overLimit bytes = true
    · simp only [full, ↓reduceIte]
      exact ⟨touches, tells _⟩
    · simp only [full, Bool.false_eq_true, ↓reduceIte]
      exact touches.tail (.recount rfl rfl rfl (Or.inr trivial))

instance (pinned : List ObjectId) (text : Text) :
    Touching free (allocating pinned (Heap.intern · text)) where
  leads machine := by
    rw [leads_allocating]
    cases filed : machine.heap.interned[text]? with
    | some id =>
      rw [Heap.intern_of_filed _ filed]
    | none =>
      rw [Heap.intern_of_unfiled _ filed]
      have touches := @touches_prepared free machine pinned (Object.string text).size.toUInt64
      have tells := @tells_prepared machine pinned (Object.string text).size.toUInt64
      have unfiled := Heap.prepared_unfiled (fun _ => pinned ++ machine.roots) filed
        (Object.string text).size.toUInt64
      generalize machine.heap.prepared (fun _ => pinned ++ machine.roots)
        (Object.string text).size.toUInt64 = ready at touches tells unfiled ⊢
      by_cases full : ready.overLimit (Object.string text).size.toUInt64 = true
      · simp only [full, ↓reduceIte]
        exact ⟨touches, tells _⟩
      · simp only [full, Bool.false_eq_true, ↓reduceIte]
        exact touches.tail (.file unfiled)

theorem touching_refill {change : Heap → Heap}
    (refills : ∀ heap, change heap = heap ∨ ∃ id old new, heap.get? id = some old ∧ Refills old new ∧
      (∀ prototype upvalues, old = .closure prototype upvalues → free.cells) ∧
      change heap = heap.set id new) : Touching free (modifyHeap change) where
  leads machine := by
    change Touches free machine { machine with heap := change machine.heap }
    rcases refills machine.heap with same | ⟨id, old, new, present, refills, allowed, isSet⟩
    · rw [same]
    · rw [isSet]
      exact .single (.refill present refills allowed)

instance (id : ObjectId) (slot : Nat) (value : Value) :
    Touching free (modifyHeap fun heap => heap.setField id slot value) := by
  refine touching_refill fun heap => ?_
  unfold Heap.setField
  split
  · next type fields present =>
    exact Or.inr ⟨id, _, _, present, .record type Array.size_setIfInBounds, by simp, rfl⟩
  · exact Or.inl rfl

instance (id : ObjectId) (index : Nat) (cell : Option ObjectId) :
    Touching ⟨True, structs⟩ (modifyHeap fun heap => heap.setUpvalue id index cell) := by
  refine touching_refill fun heap => ?_
  unfold Heap.setUpvalue
  split
  · next prototype upvalues present =>
    exact Or.inr ⟨id, _, _, present, .closure prototype Array.size_setIfInBounds, by simp, rfl⟩
  · exact Or.inl rfl

end Heaps

section Stack

/-- A change of operand stack, output or counters. -/
theorem touching_aside {change : Machine → Machine}
    (same : ∀ machine : Machine, ∃ output stack nextNode,
      change machine = { machine with output, stack, nextNode } ∧
        stack.size ≤ max machine.stack.size machine.config.stackSlots) :
    Touching free (modify change : Exec Unit) := by
  refine touching_modify fun machine => ?_
  obtain ⟨output, stack, nextNode, isChange, size⟩ := same machine
  rw [isChange]
  exact .aside ⟨rfl, rfl, rfl, rfl, rfl, rfl, rfl, rfl, size⟩ (Or.inl ⟨rfl, rfl⟩)

theorem touches_push {machine : Machine} (value : Value)
    (room : machine.stack.size < machine.config.stackSlots) :
    Touches free machine { machine with stack := machine.stack.push value } := by
  refine .single (.aside ⟨rfl, rfl, rfl, rfl, rfl, rfl, rfl, rfl, ?_⟩ (Or.inl ⟨rfl, rfl⟩))
  rw [Array.size_push]
  exact Nat.le_trans room (Nat.le_max_right _ _)

instance (value : Value) : Touching free (push value) where
  leads machine := by
    simp only [push, leads_bind, leads_get]
    split
    · exact ⟨.refl, Or.inr rfl⟩
    · next room => exact touches_push value (Nat.lt_of_not_le room)

instance (distance : Nat) : Touching free (peek distance) := by
  unfold peek
  infer_instance

instance : Touching free pop := by
  have : Touching free (modify fun machine => { machine with stack := machine.stack.pop }) :=
    touching_aside fun machine => ⟨_, _, _, rfl, by rw [Array.size_pop]; omega⟩
  unfold pop
  infer_instance

instance (index : Nat) : Touching free (slot index) := by
  unfold slot
  infer_instance

instance (index : Nat) (value : Value) : Touching free (setSlot index value) := by
  have : Touching free
      (modify fun machine => { machine with stack := machine.stack.setIfInBounds index value }) :=
    touching_aside fun machine => ⟨_, _, _, rfl, by rw [Array.size_setIfInBounds]; omega⟩
  unfold setSlot
  infer_instance

instance (value : Value) : Touching free (setTop value) := by
  unfold setTop
  infer_instance

instance (size : Nat) : Touching free (shrink size) :=
  touching_aside fun machine => ⟨_, _, _, rfl, by rw [Array.size_shrink]; omega⟩

instance : Touching free topFrame := by
  unfold topFrame
  infer_instance

instance (text : Text) : Touching free (write text) :=
  touching_aside fun _ => ⟨_, _, _, rfl, Nat.le_max_left _ _⟩

/-- A change of frames that leaves every call where it stands. -/
theorem touch_frames {machine : Machine} {frames : List Frame}
    (same : frames.map bare = machine.frames.map bare)
    (level : frames.map Frame.arena = machine.frames.map Frame.arena ∨ free.structs) :
    Touch free machine { machine with frames } :=
  .aside ⟨rfl, same, rfl, rfl, rfl, rfl, rfl, rfl, Nat.le_max_left _ _⟩
    (level.imp_left fun same => ⟨same, rfl⟩)

/-- What does not change in the frames of a list does not change in the list. -/
theorem map_modify_same {β : Type} {view : Frame → β} {index : Nat} {change : Frame → Frame}
    (same : ∀ frame, view (change frame) = view frame) (frames : List Frame) :
    (frames.modify index change).map view = frames.map view := by
  apply List.ext_getElem?
  intro position
  simp only [List.getElem?_map, List.getElem?_modify]
  cases frames[position]? with
  | none => rfl
  | some frame =>
    by_cases here : index = position
    · simp [here, same]
    · simp [here]

theorem touching_modifyFrame {index : Nat} {change : Frame → Frame}
    (same : ∀ frame, bare (change frame) = bare frame)
    (level : (∀ frame, (change frame).arena = frame.arena) ∨ free.structs) :
    Touching free (modifyFrame index change) :=
  touching_modify fun machine => touch_frames (map_modify_same same machine.frames)
    (level.imp_left fun same => map_modify_same same machine.frames)

end Stack

section Arena

instance (index : Nat) : Touching ⟨cells, True⟩ (sweepArena index) := by
  have sweeps : ∀ live, Touching ⟨cells, True⟩ (modifyFrame index fun frame =>
      { frame with arena := live, arrivals := 0, sweepAt := max minSweep (2 * live.length) }) :=
    fun _ => touching_modifyFrame (fun _ => rfl) (Or.inr trivial)
  have releases : ∀ freed, Touching ⟨cells, True⟩ (modify fun machine =>
      { machine with
        heap := machine.heap.release freed
        arenaBytes := machine.arenaBytes - freed } : Exec Unit) := fun freed =>
    { leads := fun machine => by
        have counted : Touch ⟨cells, True⟩ machine { machine with heap := machine.heap.release freed } :=
          .recount rfl rfl rfl (Or.inr trivial)
        exact (Relation.ReflTransGen.single counted).tail
          (.aside ⟨rfl, rfl, rfl, rfl, rfl, rfl, rfl, rfl, Nat.le_max_left _ _⟩ (Or.inr trivial)) }
  unfold sweepArena
  dsimp only
  infer_instance

instance (index : Nat) (bytes : UInt64) : Touching ⟨cells, True⟩ (charge index bytes) := by
  have counts : Touching ⟨cells, True⟩
      (modifyFrame index fun frame => { frame with arrivals := frame.arrivals + 1 }) :=
    touching_modifyFrame (fun _ => rfl) (Or.inr trivial)
  have charges : Touching ⟨cells, True⟩
      (modify fun machine => { machine with arenaBytes := machine.arenaBytes + bytes }) :=
    touching_modify fun _ =>
      .aside ⟨rfl, rfl, rfl, rfl, rfl, rfl, rfl, rfl, Nat.le_max_left _ _⟩ (Or.inr trivial)
  have reserves : Touching ⟨cells, True⟩ (allocating [] (Heap.reserve · bytes)) := inferInstance
  unfold charge
  dsimp only
  infer_instance

instance (index : Nat) (struct : StackStruct) : Touching ⟨cells, True⟩ (adopt index struct) := by
  have : Touching ⟨cells, True⟩ (modifyFrame index fun frame => { frame with arena := struct :: frame.arena }) :=
    touching_modifyFrame (fun _ => rfl) (Or.inr trivial)
  unfold adopt
  infer_instance

instance (struct : StackStruct) : Touching free (fresh struct) where
  leads _ := .single (.aside ⟨rfl, rfl, rfl, rfl, rfl, rfl, rfl, rfl, Nat.le_max_left _ _⟩
    (Or.inl ⟨rfl, rfl⟩))

instance (index : Nat) (struct : StackStruct) : Touching ⟨cells, True⟩ (copyInto index struct) := by
  unfold copyInto
  infer_instance

instance (id : NodeId) : Touching free (Machine.struct id) := by
  unfold Machine.struct
  infer_instance

instance (id : NodeId) (change : StackStruct → StackStruct) :
    Touching ⟨cells, True⟩ (modifyStruct id change) := by
  refine touching_modify fun machine => touch_frames ?_ (Or.inr trivial)
  rw [List.map_map]
  rfl

mutual

theorem touching_promote : (struct : StackStruct) → (pinned : List ObjectId) →
    Touching free (promote pinned struct)
  | .node _ type slots _, pinned => by
    have fills : ∀ id, Touching free (promoteSlots (id :: pinned) id 0 slots) :=
      fun id => touching_promoteSlots slots (id :: pinned) id 0
    rw [promote]
    infer_instance

theorem touching_promoteSlots : (slots : List Slot) → (pinned : List ObjectId) → (id : ObjectId) →
    (index : Nat) → Touching free (promoteSlots pinned id index slots)
  | [], _, _, _ => by
    rw [promoteSlots]
    infer_instance
  | .plain value :: rest, pinned, id, index => by
    have fills := touching_promoteSlots rest pinned id (index + 1)
    rw [promoteSlots]
    infer_instance
  | .nested inner :: rest, pinned, id, index => by
    have moves := touching_promote inner pinned
    have fills := touching_promoteSlots rest pinned id (index + 1)
    rw [promoteSlots]
    infer_instance

end

instance (pinned : List ObjectId) (value : Value) : Touching free (heapValue pinned value) := by
  have moves : ∀ struct, Touching free (promote pinned struct) := fun struct => touching_promote struct pinned
  unfold heapValue
  split <;> infer_instance

end Arena

section Cells

instance (slot : Nat) : Touching ⟨True, structs⟩ (captureSlot slot) where
  leads machine := by
    simp only [captureSlot, leads_bind, leads_get]
    split
    · exact .refl
    · next unlisted =>
      refine leads_bind.mpr (leads_allocate (fun _ touches => touches) fun ready touches => ?_)
      exact touches.tail (.capture unlisted trivial)

section Moving

variable {cells : List (Nat × ObjectId)}

/-- The open cells are the given ones. -/
def Opened (cells : List (Nat × ObjectId)) (machine : Machine) : Prop :=
  machine.openCells = cells

instance {α : Type} (pinned : List ObjectId) (action : (Unit → List ObjectId) → Heap.Action α) :
    Keeps (Opened cells) (allocating pinned action) where
  left {machine} opened := by
    unfold allocating
    split <;> exact opened

instance (change : Heap → Heap) : Keeps (Opened cells) (modifyHeap change) :=
  keeps_modify fun _ opened => opened

instance (id : NodeId) : Keeps (Opened cells) (Machine.struct id) where
  left {machine} opened := by
    change Opened cells (stateLeft (given (machine.node? id) machine))
    cases machine.node? id <;> exact opened

instance (index : Nat) : Keeps (Opened cells) (slot index) where
  left {machine} opened := by
    change Opened cells (stateLeft (given machine.stack[index]? machine))
    cases machine.stack[index]? <;> exact opened

mutual

theorem opened_promote : (struct : StackStruct) → (pinned : List ObjectId) →
    Keeps (Opened cells) (promote pinned struct)
  | .node _ type slots _, pinned => by
    have fills : ∀ id, Keeps (Opened cells) (promoteSlots (id :: pinned) id 0 slots) :=
      fun id => opened_promoteSlots slots (id :: pinned) id 0
    rw [promote]
    infer_instance

theorem opened_promoteSlots : (slots : List Slot) → (pinned : List ObjectId) → (id : ObjectId) →
    (index : Nat) → Keeps (Opened cells) (promoteSlots pinned id index slots)
  | [], _, _, _ => by
    rw [promoteSlots]
    infer_instance
  | .plain value :: rest, pinned, id, index => by
    have fills := opened_promoteSlots rest pinned id (index + 1)
    rw [promoteSlots]
    infer_instance
  | .nested inner :: rest, pinned, id, index => by
    have moves := opened_promote inner pinned
    have fills := opened_promoteSlots rest pinned id (index + 1)
    rw [promoteSlots]
    infer_instance

end

/-- Moving a struct to the heap neither opens nor closes a cell. -/
instance (pinned : List ObjectId) (value : Value) : Keeps (Opened cells) (heapValue pinned value) := by
  have moves : ∀ struct, Keeps (Opened cells) (promote pinned struct) :=
    fun struct => opened_promote struct pinned
  unfold heapValue
  split <;> infer_instance

end Moving

theorem leads_closeCellsOf (fromSlot : Nat) (cells : List (Nat × ObjectId)) :
    ∀ {machine : Machine}, machine.openCells = cells →
      Leads (closeCellsOf fromSlot cells) machine (fun _ => Touches ⟨True, structs⟩ machine)
        (Touches ⟨True, structs⟩ machine) := by
  induction cells with
  | nil => exact fun _ => .refl
  | cons entry rest ih =>
    intro machine opened
    obtain ⟨index, cell⟩ := entry
    have opened : Opened ((index, cell) :: rest) machine := opened
    rw [closeCellsOf]
    split
    · refine Leads.keeping opened (fun _ touches => touches) fun old middle first opened => ?_
      refine Leads.keeping opened (fun _ touches => first.trans touches)
        fun value later second opened => ?_
      have moved := first.trans second
      rw [leads_bind, leads_modify]
      have closed := moved.tail (.close value opened trivial)
      exact (ih rfl).mono (fun _ _ touches => closed.trans touches) fun _ touches =>
        closed.trans touches
    · exact .refl

instance (fromSlot : Nat) : Touching ⟨True, structs⟩ (closeCells fromSlot) where
  leads _ := leads_closeCellsOf fromSlot _ rfl

instance (frame : Frame) (index : Nat) : Touching free (upvalueCell frame index) := by
  unfold upvalueCell
  refine Touching.andThen inferInstance fun machine => ?_
  split
  · refine Touching.andThen inferInstance fun id => ?_
    refine Touching.andThen inferInstance fun machine => ?_
    split <;> infer_instance
  · infer_instance

end Cells

section Calls

instance (index count : Nat) : Touching ⟨cells, True⟩ (copyArguments index count) := by
  induction count generalizing index with
  | zero =>
    rw [copyArguments]
    infer_instance
  | succ count ih =>
    rw [copyArguments]
    refine Touching.andThen inferInstance fun value => ?_
    split <;> dsimp only <;> infer_instance

end Calls

end ScriptMachine.Machine
