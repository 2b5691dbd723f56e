import ScriptMachine.Proofs.Source.Mapping
import ScriptMachine.Proofs.Twins.Runs

set_option autoImplicit false

/- Machines between two instructions that show a picture, and what an instruction has to do for the
next machine to show the next picture. -/
namespace ScriptMachine

namespace Machine

section Delivers

variable {α β : Type} {machine : Machine} {done : α → Machine → Prop} {struck : Fault → Machine → Prop}

/-- The action ends with `done`, or it strikes with a fault. Well-formed code does not go wrong, so
nothing is asked of an action that does. -/
def Delivers (action : Exec α) (machine : Machine) (done : α → Machine → Prop)
    (struck : Fault → Machine → Prop) : Prop :=
  match action machine with
  | .ok result after => done result after
  | .error (.fault error) after => struck error.fault after
  | .error .wrong _ => True

@[simp] theorem delivers_pure {value : α} : Delivers (pure value) machine done struck ↔ done value machine :=
  Iff.rfl

@[simp] theorem delivers_get {done : Machine → Machine → Prop} :
    Delivers get machine done struck ↔ done machine machine := Iff.rfl

@[simp] theorem delivers_modify {change : Machine → Machine} {done : Unit → Machine → Prop} :
    Delivers (modify change) machine done struck ↔ done () (change machine) := Iff.rfl

@[simp] theorem delivers_bind {first : Exec β} {rest : β → Exec α} :
    Delivers (first >>= rest) machine done struck ↔
      Delivers first machine (fun value middle => Delivers (rest value) middle done struck) struck := by
  simp only [Delivers, bind, EStateM.bind]
  cases first machine with
  | ok value middle => exact Iff.rfl
  | error stop middle => cases stop <;> exact Iff.rfl

@[simp] theorem delivers_map {first : Exec β} {change : β → α} :
    Delivers (change <$> first) machine done struck ↔
      Delivers first machine (fun value after => done (change value) after) struck := by
  simp only [Delivers, Functor.map, EStateM.map]
  cases first machine with
  | ok value middle => exact Iff.rfl
  | error stop middle => cases stop <;> exact Iff.rfl

@[simp] theorem delivers_fail {fault : Fault} : Delivers (fail fault) machine done struck ↔ struck fault machine :=
  Iff.rfl

theorem delivers_goWrong : Delivers goWrong machine done struck := trivial

theorem delivers_given {value : Option α} (goesOn : ∀ found, value = some found → done found machine) :
    Delivers (given value) machine done struck := by
  cases value with
  | none => trivial
  | some found => exact goesOn found rfl

theorem Delivers.mono {action : Exec α} {weaker : α → Machine → Prop} {softer : Fault → Machine → Prop}
    (delivers : Delivers action machine done struck)
    (ends : ∀ result after, done result after → weaker result after)
    (strikes : ∀ fault after, struck fault after → softer fault after) :
    Delivers action machine weaker softer := by
  unfold Delivers at delivers ⊢
  split at delivers
  · exact ends _ _ delivers
  · exact strikes _ _ delivers
  · trivial

/-- What holds anyway holds behind every action. -/
theorem Delivers.constant {fact : Prop} (holds : fact) (action : Exec α) (machine : Machine) :
    Delivers action machine (fun _ _ => fact) fun _ _ => fact := by
  unfold Delivers
  split <;> first | exact holds | trivial

theorem delivers_push {value : Value} {done : Unit → Machine → Prop} (full : struck .stackOverflow machine)
    (next : done () { machine with stack := machine.stack.push value }) :
    Delivers (push value) machine done struck := by
  simp only [push, delivers_bind, delivers_get]
  split
  · exact full
  · exact next

theorem delivers_peek {distance : Nat} {done : Value → Machine → Prop}
    (next : ∀ value, machine.stack[machine.stack.size - 1 - distance]? = some value → done value machine) :
    Delivers (peek distance) machine done struck := by
  simp only [peek, delivers_bind, delivers_get]
  split
  · exact delivers_given next
  · exact delivers_goWrong

theorem delivers_pop {done : Value → Machine → Prop}
    (next : ∀ value, machine.stack[machine.stack.size - 1]? = some value →
      done value { machine with stack := machine.stack.pop }) :
    Delivers pop machine done struck := by
  simp only [pop, delivers_bind, delivers_modify, delivers_pure]
  exact delivers_peek next

theorem delivers_slot {index : Nat} {done : Value → Machine → Prop}
    (next : ∀ value, machine.stack[index]? = some value → done value machine) :
    Delivers (slot index) machine done struck := by
  simp only [slot, delivers_bind, delivers_get]
  exact delivers_given next

theorem delivers_setSlot {index : Nat} {value : Value} {done : Unit → Machine → Prop}
    (next : index < machine.stack.size →
      done () { machine with stack := machine.stack.setIfInBounds index value }) :
    Delivers (setSlot index value) machine done struck := by
  simp only [setSlot, delivers_bind, delivers_get]
  split
  · next inside => exact next inside
  · exact delivers_goWrong

theorem delivers_operand {value : Int} {done : Nat → Machine → Prop} (next : done value.toNat machine) :
    Delivers (operand value) machine done struck := by
  unfold operand
  split
  · exact delivers_goWrong
  · exact next

/-- Without a limit a request is always granted, and all it does besides is to collect. -/
theorem delivers_allocating {action : (Unit → List ObjectId) → Heap.Action α} {pinned : List ObjectId}
    (granted : ∀ roots, ∃ result heap, action roots machine.heap = .ok result heap)
    (next : ∀ roots result heap, action roots machine.heap = .ok result heap →
      done result { machine with heap }) :
    Delivers (allocating pinned action) machine done struck := by
  unfold Delivers allocating
  obtain ⟨result, heap, ran⟩ := granted fun _ => pinned ++ machine.roots
  rw [ran]
  exact next _ _ _ ran

end Delivers

/-- All that is in use is there. -/
def Supplied (machine : Machine) : Prop :=
  ∀ id, Heap.Reaches machine.heap.objects machine.roots id → (machine.heap.get? id).isSome

theorem Data.supplied {program : Program} {live : ObjectId → Prop} {pending : List ObjectId} {shape : Shape}
    {machine : Machine} (data : Data program live pending shape machine) : Supplied machine := by
  intro id reached
  obtain ⟨object, here, _⟩ := data.stored.sane (data.reached reached)
  rw [here]
  rfl

theorem Supplied.stack {machine : Machine} (supplied : Supplied machine) {index : Nat} {id : ObjectId}
    (here : machine.stack[index]? = some (.ref id)) : ∃ object, machine.heap.get? id = some object :=
  Option.isSome_iff_exists.mp (supplied id (.root (mem_roots_of_value here List.mem_cons_self)))

end Machine

namespace Source

open Machine (Delivers Supplied Midway)

/-- A machine that is executing an instruction for a frame. -/
structure Ready (world : World) (legend : Legend) (store : Store) (items : List Item) (call : Call)
    (calls : List Call) (frame : Frame) (machine : Machine) : Prop where
  depicts : Depicts world legend ⟨store, items, call :: calls⟩ machine
  maker : ∃ source, legend frame.closure = some (.closure source call.image)
  base : frame.base = call.base
  supplied : Supplied machine
  filed : Machine.Filed machine

/-- A machine between two instructions that shows a picture. -/
def Shown (world : World) (picture : Picture) (machine : Machine) : Prop :=
  (∃ legend, Depicts world legend picture machine) ∧ ∃ program, Midway program machine

section Operations

variable {world : World} {legend : Legend} {store : Store} {items lower : List Item}
  {calls : List Call} {machine : Machine} {datum : Datum} {value : Value} {item : Item}

theorem Depicts.size (depicts : Depicts world legend ⟨store, items, calls⟩ machine) :
    machine.stack.size = items.length := by
  rw [← Array.length_toList]
  exact depicts.stack.length_eq.symm

/-- What a slot holds is shown by its item. -/
theorem Depicts.slot (depicts : Depicts world legend ⟨store, items, calls⟩ machine) {index : Nat}
    (here : items[index]? = some item) :
    ∃ value, machine.stack[index]? = some value ∧ item.Shows legend store value := by
  obtain ⟨inside, isItem⟩ := List.getElem?_eq_some_iff.mp here
  have there : index < machine.stack.toList.length := depicts.stack.length_eq ▸ inside
  refine ⟨machine.stack.toList[index], ?_, ?_⟩
  · rw [← Array.getElem?_toList, List.getElem?_eq_getElem there]
  · have shown := (List.forall₂_iff_get.mp depicts.stack).2 index inside there
    rw [List.get_eq_getElem, isItem] at shown
    exact shown

theorem Depicts.shows (depicts : Depicts world legend ⟨store, items, calls⟩ machine) {index : Nat}
    (here : items[index]? = some item) (isValue : machine.stack[index]? = some value) :
    item.Shows legend store value := by
  obtain ⟨other, there, shown⟩ := depicts.slot here
  cases there.symm.trans isValue
  exact shown

/-- The value on top of the stack. -/
theorem Depicts.top (depicts : Depicts world legend ⟨store, lower ++ [.value datum], calls⟩ machine)
    (isValue : machine.stack[machine.stack.size - 1]? = some value) : datum.Shows legend value := by
  have here : (lower ++ [Item.value datum])[machine.stack.size - 1]? = some (.value datum) := by
    rw [depicts.size]
    simp
  cases depicts.shows here isValue with
  | value shown => exact shown

theorem Depicts.push (depicts : Depicts world legend ⟨store, items, calls⟩ machine)
    (plain : item.cell? = none) (shown : item.Shows legend store value) :
    Depicts world legend ⟨store, items ++ [item], calls⟩
      { machine with stack := machine.stack.push value } :=
  { depicts with
    mapped := depicts.mapped.pushed plain
    stack := by
      rw [Array.toList_push]
      exact List.rel_append depicts.stack (.cons shown .nil) }

/-- The stack is cut down where no variable above is captured. -/
theorem Depicts.shrink (depicts : Depicts world legend ⟨store, items, calls⟩ machine) {size : Nat}
    (low : ∀ {slot : Nat} {object : ObjectId},
      machine.heap.get? object = some (.cell (.onStack slot)) → slot < size) :
    Depicts world legend ⟨store, items.take size, calls⟩
      { machine with stack := machine.stack.shrink size } :=
  { depicts with
    mapped := depicts.mapped.shrunk low
    stack := by
      rw [Array.toList_shrink]
      exact List.forall₂_take size depicts.stack }

/-- The uppermost item is dropped if it is not captured. -/
theorem Depicts.popped (depicts : Depicts world legend ⟨store, items, calls⟩ machine) {size : Nat}
    (length : items.length = size + 1)
    (low : ∀ {slot : Nat} {object : ObjectId},
      machine.heap.get? object = some (.cell (.onStack slot)) → slot < size) :
    Depicts world legend ⟨store, items.take size, calls⟩
      { machine with stack := machine.stack.pop } := by
  have shrunk := depicts.shrink low
  have same : machine.stack.shrink size = machine.stack.pop := by
    apply Array.toList_inj.mp
    have total := depicts.size
    rw [length, ← Array.length_toList] at total
    rw [Array.toList_shrink, Array.toList_pop, List.dropLast_eq_take, total, Nat.add_sub_cancel]
  rwa [same] at shrunk

/-- An open cell stands for a variable that is marked as captured. -/
theorem Depicts.pop (depicts : Depicts world legend ⟨store, lower ++ [item], calls⟩ machine)
    (free : ∀ id, item ≠ .cell id true) :
    Depicts world legend ⟨store, lower, calls⟩ { machine with stack := machine.stack.pop } := by
  have popped := depicts.popped (List.length_append ..) fun {slot object} here => by
    obtain ⟨cell, isCell, _⟩ := depicts.mapped.opened here
    rw [List.getElem?_append] at isCell
    split at isCell
    · assumption
    · have isItem := List.mem_singleton.mp (List.mem_of_getElem? isCell)
      exact absurd isItem.symm (free cell)
  rwa [List.take_left] at popped

theorem rel_set {α β : Type} {relation : α → β → Prop} {left : List α} {right : List β} {a : α} {b : β}
    (all : List.Forall₂ relation left right) (index : Nat) (related : relation a b) :
    List.Forall₂ relation (left.set index a) (right.set index b) := by
  induction all generalizing index with
  | nil => exact .nil
  | cons first _ ih =>
    cases index with
    | zero => exact .cons related ‹_›
    | succ index => exact .cons first (ih index)

theorem rel_set_left {α β : Type} {relation : α → β → Prop} {left : List α} {right : List β} {a : α}
    (all : List.Forall₂ relation left right) (index : Nat)
    (related : ∀ b, right[index]? = some b → relation a b) :
    List.Forall₂ relation (left.set index a) right := by
  induction all generalizing index with
  | nil => exact .nil
  | cons first rest ih =>
    cases index with
    | zero => exact .cons (related _ rfl) rest
    | succ index => exact .cons first (ih index fun b here => related b here)

/-- A value at work is replaced by another one. -/
theorem Depicts.replace {other : Item} {index : Nat}
    (depicts : Depicts world legend ⟨store, items, calls⟩ machine) (here : items[index]? = some other)
    (before : other.cell? = none) (plain : item.cell? = none) (shown : item.Shows legend store value) :
    Depicts world legend ⟨store, items.set index item, calls⟩
      { machine with stack := machine.stack.setIfInBounds index value } :=
  { depicts with
    mapped := depicts.mapped.replaced here before plain
    stack := by
      rw [Array.toList_setIfInBounds]
      exact rel_set depicts.stack index shown }

/-- The value on top of the stack is replaced by another one. -/
theorem Depicts.setTop {new : Datum}
    (depicts : Depicts world legend ⟨store, lower ++ [.value datum], calls⟩ machine)
    (shown : new.Shows legend value) :
    Depicts world legend ⟨store, lower ++ [.value new], calls⟩
      { machine with stack := machine.stack.setIfInBounds (machine.stack.size - 1) value } := by
  have index : machine.stack.size - 1 = lower.length := by simp [depicts.size]
  have here : (lower ++ [Item.value datum])[lower.length]? = some (.value datum) := by simp
  have replaced := depicts.replace here rfl rfl (Item.Shows.value shown)
  rw [index]
  simpa using replaced

theorem forall₂_of_getElem? {α β : Type} {relation : α → β → Prop} {left : List α} {right : List β}
    (length : left.length = right.length)
    (each : ∀ (index : Nat) (a : α) (b : β), left[index]? = some a → right[index]? = some b →
      relation a b) : List.Forall₂ relation left right :=
  List.forall₂_iff_get.mpr ⟨length, fun index inLeft inRight =>
    each index _ _ (by simp [inLeft]) (by simp [inRight])⟩

/-- A variable that is no longer on the stack has changed: its slots show what they showed. -/
theorem Depicts.others {cell : Nat}
    (depicts : Depicts world legend ⟨store, items, calls⟩ machine)
    (apart : ∀ captured, Item.cell cell captured ∉ items) :
    List.Forall₂ (Item.Shows legend { store with cells := store.cells.setIfInBounds cell datum })
      items machine.stack.toList := by
  refine forall₂_of_getElem? depicts.stack.length_eq fun index item value here there => ?_
  have shown := depicts.shows here (by rwa [Array.getElem?_toList] at there)
  refine shown.mono (Legend.Within.refl _) fun id old isCell same => ?_
  rw [Array.getElem?_setIfInBounds_ne]
  · exact same
  · rintro rfl
    cases item with
    | cell other captured =>
      cases isCell
      exact apart captured (List.mem_of_getElem? here)
    | value _ | callee => cases isCell

/-- A variable on the stack is assigned to. -/
theorem Depicts.assign {slot cell : Nat} {captured : Bool}
    (depicts : Depicts world legend ⟨store, items, calls⟩ machine)
    (here : items[slot]? = some (.cell cell captured)) (shown : datum.Shows legend value) :
    Depicts world legend
      ⟨{ store with cells := store.cells.setIfInBounds cell datum }, items, calls⟩
      { machine with stack := machine.stack.setIfInBounds slot value } :=
  { depicts with
    mapped := depicts.mapped.assigned here datum
    stack := by
      have inside : cell < store.cells.size := depicts.mapped.inside here
      rw [Array.toList_setIfInBounds]
      refine forall₂_of_getElem? (by simpa using depicts.stack.length_eq)
        fun index item other isItem isValue => ?_
      rw [List.getElem?_set] at isValue
      split at isValue
      · next same =>
        subst same
        cases here.symm.trans isItem
        split at isValue
        · cases isValue
          exact .cell _ (Array.getElem?_setIfInBounds_self_of_lt inside) shown
        · cases isValue
      · next apart =>
        have shown' := depicts.shows isItem (by rwa [Array.getElem?_toList] at isValue)
        refine shown'.mono (Legend.Within.refl _) fun id old isCell same => ?_
        rw [Array.getElem?_setIfInBounds_ne]
        · exact same
        · rintro rfl
          cases item with
          | cell another again =>
            cases isCell
            exact apart (depicts.mapped.distinct here isItem)
          | value _ | callee => cases isCell }

end Operations

end Source

end ScriptMachine
