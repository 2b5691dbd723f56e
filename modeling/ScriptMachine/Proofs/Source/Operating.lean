import ScriptMachine.Proofs.Source.Texts

set_option autoImplicit false

/- What an instruction does to the picture that a machine shows: operators, printing and jumps. -/
namespace ScriptMachine.Source

open Machine (Delivers)

variable {world : World} {legend : Legend} {store : Store} {items lower : List Item} {image : Image}
  {position base bound : Nat} {calls : List Call} {frame : Frame} {machine middle : Machine}
  {datum one other : Datum} {value : Value} {item : Item}

/-- Instructions stand at a position of the code that an image executes. -/
def Image.Holds (image : Image) : Nat → List Instruction → Prop
  | _, [] => True
  | start, first :: rest => image.setting.body.code[start]? = some first ∧ image.Holds (start + 1) rest

theorem Image.holds_append {front back : List Instruction} :
    image.Holds position (front ++ back) ↔
      image.Holds position front ∧ image.Holds (position + front.length) back := by
  induction front generalizing position with
  | nil => simp [Image.Holds]
  | cons first rest ih =>
    rw [List.cons_append, Image.Holds, Image.Holds, ih, and_assoc, List.length_cons,
      Nat.add_right_comm, Nat.add_assoc]

section Looks

theorem Supplied.alive (supplied : Machine.Supplied middle) :
    Alive middle.heap fun id => Heap.Reaches middle.heap.objects middle.roots id where
  present reached := Option.isSome_iff_exists.mp (supplied _ reached)
  closed reached here member := .next reached here member

theorem reaches_slot {index : Nat} (here : middle.stack[index]? = some value) {id : ObjectId}
    (isObject : value.object? = some id) : Heap.Reaches middle.heap.objects middle.roots id := by
  cases value with
  | ref object =>
    cases isObject
    exact .root (Machine.mem_roots_of_value here List.mem_cons_self)
  | nil | bool _ | number _ | stack _ => cases isObject

theorem Shows.isFalsey (shown : datum.Shows legend value) : value.isFalsey = datum.isFalsey := by
  cases shown <;> rfl

/-- A value in a slot is written as what it shows. -/
theorem Ready.text (ready : Ready world legend store items ⟨image, position, base⟩ calls frame middle)
    {index : Nat} (here : middle.stack[index]? = some value) (shown : datum.Shows legend value) :
    middle.view.text value = store.text world (store.records.size + 1) [] false datum :=
  text_shown ready.depicts.mapped ready.depicts.declares (Supplied.alive ready.supplied) shown fun _ =>
    reaches_slot here

/-- Values in slots are equal if what they show is. -/
theorem Ready.equal (ready : Ready world legend store items ⟨image, position, base⟩ calls frame middle)
    {index index' : Nat} {value' : Value} (here : middle.stack[index]? = some value)
    (here' : middle.stack[index']? = some value') (shown : one.Shows legend value)
    (shown' : other.Shows legend value') : middle.view.equal value value' = one.equal other :=
  equal_shown ready.depicts.mapped shown shown' (fun _ isObject => ready.supplied _ (reaches_slot here isObject))
    fun _ isObject => ready.supplied _ (reaches_slot here' isObject)

end Looks

section Stack

/-- The value on top of the stack is dropped. -/
theorem Shown.pops
    (shown : Shown world ⟨store, lower ++ [item], ⟨image, position, base⟩ :: calls⟩ machine)
    (here : image.setting.body.code[position]? = some ⟨.pop, 0, 0⟩)
    (free : ∀ id, item ≠ .cell id true) :
    Arrives machine (Shown world ⟨store, lower, ⟨image, position + 1, base⟩ :: calls⟩) := by
  refine shown.goes here fun ready => ?_
  simp only [Machine.execute, Machine.delivers_bind]
  exact Machine.delivers_pop fun value _ => ⟨rfl, _, ready.depicts.pop free⟩

/-- The value on top of the stack is replaced. -/
theorem Depicts.setsTop
    (depicts : Depicts world legend ⟨store, lower ++ [.value datum], calls⟩ machine)
    (shown : other.Shows legend value) {struck : Fault → Machine → Prop} :
    Delivers (Machine.setTop value) machine (fun _ after => ∃ legend, Depicts world legend
      ⟨store, lower ++ [.value other], calls⟩ after) struck := by
  simp only [Machine.setTop, Machine.delivers_bind, Machine.delivers_get]
  exact Machine.delivers_setSlot fun _ => ⟨legend, depicts.setTop shown⟩

theorem Shown.nots
    (shown : Shown world ⟨store, lower ++ [.value datum], ⟨image, position, base⟩ :: calls⟩ machine)
    (here : image.setting.body.code[position]? = some ⟨.not, 0, 0⟩) :
    Arrives machine (Shown world
      ⟨store, lower ++ [.value (.bool datum.isFalsey)], ⟨image, position + 1, base⟩ :: calls⟩) := by
  refine shown.goes here fun ready => ?_
  simp only [Machine.execute, Machine.delivers_bind]
  refine Machine.delivers_peek fun value isTop => ?_
  rw [Shows.isFalsey (ready.depicts.top isTop)]
  exact (ready.depicts.setsTop (.bool _)).mono (fun _ _ depicts => ⟨rfl, depicts⟩) fun _ _ struck => struck

theorem Shown.negates
    (shown : Shown world ⟨store, lower ++ [.value datum], ⟨image, position, base⟩ :: calls⟩ machine)
    (here : image.setting.body.code[position]? = some ⟨.negate, 0, 0⟩) :
    Tracks bound (fun datum store => Shown world
      ⟨store, lower ++ [.value datum], ⟨image, position + 1, base⟩ :: calls⟩) machine
      ((match datum with
        | .number value => pure (.number (-value))
        | _ => fault .operandNotNumber : Eval Datum) store) := by
  split
  · next number =>
    refine shown.goes here fun ready => ?_
    simp only [Machine.execute, Machine.negate, Machine.delivers_bind]
    refine Machine.delivers_peek fun value isTop => ?_
    cases ready.depicts.top isTop
    exact (ready.depicts.setsTop (.number _)).mono (fun _ _ depicts => ⟨rfl, depicts⟩) fun _ _ struck => struck
  · next other =>
    refine Or.inr (shown.strikes here fun ready => ?_)
    simp only [Machine.execute, Machine.negate, Machine.delivers_bind]
    refine Machine.delivers_peek fun value isTop => ?_
    have isShown := ready.depicts.top isTop
    split
    · cases isShown
      exact absurd rfl (other _)
    · exact ⟨rfl, ready.depicts.output⟩

end Stack

section Operators

/-- The value below some others. -/
theorem Depicts.under {upper : List Item}
    (depicts : Depicts world legend ⟨store, lower ++ .value datum :: upper, calls⟩ machine)
    (isValue : machine.stack[machine.stack.size - 1 - upper.length]? = some value) :
    datum.Shows legend value := by
  have place : machine.stack.size - 1 - upper.length = lower.length := by
    rw [depicts.size, List.length_append, List.length_cons]
    omega
  rw [place] at isValue
  have here : (lower ++ .value datum :: upper)[lower.length]? = some (Item.value datum) := by simp
  cases depicts.shows here isValue with
  | value shown => exact shown

theorem append_pair {α : Type} (lower : List α) (one other : α) :
    lower ++ [one, other] = lower ++ [one] ++ [other] :=
  List.append_cons lower one [other]

/-- Two operands are looked at. -/
theorem Ready.peeks
    (ready : Ready world legend store (lower ++ [.value one, .value other]) ⟨image, position, base⟩ calls
      frame middle) {α : Type} {rest : Value → Value → Exec α} {done : α → Machine → Prop}
    {struck : Fault → Machine → Prop}
    (next : ∀ a b, one.Shows legend a → other.Shows legend b → Delivers (rest a b) middle done struck) :
    Delivers (Machine.peek 1 >>= fun a => Machine.peek 0 >>= fun b => rest a b) middle done struck := by
  simp only [Machine.delivers_bind]
  refine Machine.delivers_peek fun a isFirst => Machine.delivers_peek fun b isSecond => ?_
  have depicts := ready.depicts
  rw [append_pair] at depicts
  exact next a b (ready.depicts.under isFirst) (depicts.top isSecond)

theorem Shown.computes {code : Instruction} {result : Float → Float → Value}
    {computed : Float → Float → Datum}
    (shown : Shown world ⟨store, lower ++ [.value one, .value other], ⟨image, position, base⟩ :: calls⟩ machine)
    (here : image.setting.body.code[position]? = some code)
    (executes : ∀ site, Machine.execute site code = do
      Machine.binary result
      return .running)
    (same : ∀ {legend : Legend} (a b : Float), (computed a b).Shows legend (result a b)) :
    Tracks bound (fun datum store => Shown world
      ⟨store, lower ++ [.value datum], ⟨image, position + 1, base⟩ :: calls⟩) machine
      (arithmetic computed one other store) := by
  unfold arithmetic
  split
  · next x y =>
    refine shown.goes here fun ready => ?_
    rw [executes, Machine.delivers_bind]
    unfold Machine.binary
    refine ready.peeks fun a b isOne isOther => ?_
    cases isOne
    cases isOther
    simp only [Machine.delivers_bind]
    have depicts := ready.depicts
    rw [append_pair] at depicts
    refine Machine.delivers_pop fun _ _ => ?_
    exact ((depicts.pop (by simp)).setsTop (same x y)).mono (fun _ _ depicts => ⟨rfl, depicts⟩)
      fun _ _ struck => struck
  · next others =>
    refine Or.inr (shown.strikes here fun ready => ?_)
    rw [executes, Machine.delivers_bind]
    unfold Machine.binary
    refine ready.peeks fun a b isOne isOther => ?_
    split
    · cases isOne
      cases isOther
      exact absurd rfl (others _ _ rfl)
    · exact ⟨rfl, ready.depicts.output⟩

theorem getElem?_of_pop {α : Type} {stack : Array α} {index : Nat} {a : α}
    (here : stack.pop[index]? = some a) : stack[index]? = some a := by
  rw [Array.getElem?_pop] at here
  split at here
  · exact here
  · cases here

theorem Shown.equals
    (shown : Shown world ⟨store, lower ++ [.value one, .value other], ⟨image, position, base⟩ :: calls⟩ machine)
    (here : image.setting.body.code[position]? = some ⟨.equal, 0, 0⟩) :
    Arrives machine (Shown world
      ⟨store, lower ++ [.value (.bool (one.equal other))], ⟨image, position + 1, base⟩ :: calls⟩) := by
  refine shown.goes here fun {_ _ middle} ready => ?_
  have depicts := ready.depicts
  rw [append_pair] at depicts
  simp only [Machine.execute, Machine.equal, Machine.delivers_bind]
  refine Machine.delivers_pop fun b isSecond => Machine.delivers_pop fun a isFirst => ?_
  have depicts' := depicts.pop (by simp)
  have same : (Machine.view middle).equal a b = one.equal other :=
    ready.equal (getElem?_of_pop isFirst) isSecond (depicts'.top isFirst) (depicts.top isSecond)
  simp only [Machine.delivers_get]
  change Delivers (Machine.push (.bool ((Machine.view middle).equal a b))) _ _ _
  rw [same]
  exact Machine.delivers_push rfl ⟨rfl, _, (depicts'.pop (by simp)).push rfl (.value (.bool _))⟩

theorem arithmetic_not (test : Float → Float → Bool) :
    arithmetic (fun a b => .bool !(test a b)) one other =
      (do
        let result ← arithmetic (fun a b => .bool (test a b)) one other
        return .bool result.isFalsey) := by
  unfold arithmetic
  split <;> rfl

/-- An operator, and what it stands for. -/
theorem Shown.operates {operator : Syntax.Operator}
    (shown : Shown world ⟨store, lower ++ [.value one, .value other], ⟨image, position, base⟩ :: calls⟩ machine)
    (holds : image.Holds position (operator.code.map fun op => ⟨op, 0, 0⟩)) :
    Tracks bound (fun datum store => Shown world
      ⟨store, lower ++ [.value datum], ⟨image, position + operator.code.length, base⟩ :: calls⟩) machine
      (operate operator one other store) := by
  have negated : ∀ {op : Opcode} {test : Float → Float → Bool},
      image.setting.body.code[position]? = some ⟨op, 0, 0⟩ →
      image.setting.body.code[position + 1]? = some ⟨.not, 0, 0⟩ →
      (∀ site, Machine.execute site ⟨op, 0, 0⟩ = do
        Machine.binary fun a b => .bool (test a b)
        return .running) →
      Tracks bound (fun datum store => Shown world
        ⟨store, lower ++ [.value datum], ⟨image, position + 2, base⟩ :: calls⟩) machine
        (arithmetic (fun a b => .bool !(test a b)) one other store) := by
    intro op test first second executes
    rw [arithmetic_not]
    refine (shown.computes first executes fun a b => .bool (test a b)).bind fun datum store last shown => ?_
    exact shown.nots second
  cases operator with
  | equal => exact shown.equals holds.1
  | unequal =>
    refine (shown.equals holds.1).bind fun last shown => ?_
    exact shown.nots holds.2.1
  | less => exact shown.computes holds.1 (fun _ => rfl) fun _ _ => .bool _
  | lessEqual => exact negated holds.1 holds.2.1 fun _ => rfl
  | greater => exact shown.computes holds.1 (fun _ => rfl) fun _ _ => .bool _
  | greaterEqual => exact negated holds.1 holds.2.1 fun _ => rfl
  | plus => exact shown.computes holds.1 (fun _ => rfl) fun _ _ => .number _
  | minus => exact shown.computes holds.1 (fun _ => rfl) fun _ _ => .number _
  | times => exact shown.computes holds.1 (fun _ => rfl) fun _ _ => .number _
  | «over» => exact shown.computes holds.1 (fun _ => rfl) fun _ _ => .number _

end Operators

section Printing

theorem Depicts.write (depicts : Depicts world legend ⟨store, items, calls⟩ machine) (text : Text) :
    Depicts world legend ⟨{ store with output := store.output ++ text }, items, calls⟩
      { machine with output := machine.output ++ text } :=
  { depicts with
    mapped := depicts.mapped.withStore rfl (fun _ _ same => same) (fun _ _ same => same) (Nat.le_refl _)
    stack := depicts.stack.imp fun _ _ shown =>
      shown.mono (Legend.Within.refl _) fun _ _ _ same => same
    output := by
      change (machine.output ++ text).toList = store.output ++ text
      rw [Array.toList_appendList, depicts.output] }

theorem Shown.prints
    (shown : Shown world ⟨store, lower ++ [.value datum], ⟨image, position, base⟩ :: calls⟩ machine)
    (here : image.setting.body.code[position]? = some ⟨.print, 0, 0⟩) :
    Tracks bound (fun _ store => Shown world
      ⟨store, lower, ⟨image, position + 1, base⟩ :: calls⟩) machine
      ((do write ((← Source.shown world datum) ++ [Text.newline]) : Eval Unit) store) := by
  refine shown.goes here fun {legend _ middle} ready => ?_
  simp only [Machine.execute, Machine.print, Machine.write, Machine.delivers_bind, Machine.delivers_get,
    Machine.delivers_modify]
  refine Machine.delivers_peek fun value isTop => Machine.delivers_pop fun _ _ => ⟨rfl, legend, ?_⟩
  rw [ready.text isTop (ready.depicts.top isTop)]
  exact (ready.depicts.write _).pop (by simp)

end Printing

section Jumping

variable {target : Nat}

theorem Ready.jumps
    (ready : Ready world legend store items ⟨image, position, base⟩ calls frame middle)
    {struck : Fault → Machine → Prop} :
    Delivers (Machine.jumpTo target) middle
      (fun _ after => ∃ legend, Depicts world legend ⟨store, items, ⟨image, target, base⟩ :: calls⟩ after)
      struck := by
  simp only [Machine.jumpTo, Machine.delivers_bind]
  refine Machine.delivers_operand ?_
  refine ⟨legend, { ready.depicts with calls := ?_ }⟩
  have frames := ready.depicts.calls
  change List.Forall₂ _ _ (middle.frames.modify 0 _)
  generalize middle.frames = active at frames
  cases frames with
  | cons first others => exact .cons ⟨first.closure, rfl, first.base⟩ others

theorem Shown.jumps
    (shown : Shown world ⟨store, items, ⟨image, position, base⟩ :: calls⟩ machine)
    (here : image.setting.body.code[position]? = some ⟨.jump, target, 0⟩) :
    Arrives machine (Shown world ⟨store, items, ⟨image, target, base⟩ :: calls⟩) := by
  refine shown.goes here fun ready => ?_
  simp only [Machine.execute, Machine.delivers_bind]
  exact ready.jumps.mono (fun _ _ depicts => ⟨rfl, depicts⟩) fun _ _ struck => struck

theorem Shown.branches_false
    (shown : Shown world ⟨store, lower ++ [.value datum], ⟨image, position, base⟩ :: calls⟩ machine)
    (here : image.setting.body.code[position]? = some ⟨.jumpIfFalse, target, 0⟩) :
    Arrives machine (Shown world ⟨store, lower ++ [.value datum],
      ⟨image, if datum.isFalsey then target else position + 1, base⟩ :: calls⟩) := by
  refine shown.goes here fun ready => ?_
  simp only [Machine.execute, Machine.delivers_bind]
  refine Machine.delivers_peek fun value isTop => ?_
  rw [Shows.isFalsey (ready.depicts.top isTop)]
  split
  · rw [Machine.delivers_bind]
    exact ready.jumps.mono (fun _ _ depicts => ⟨rfl, depicts⟩) fun _ _ struck => struck
  · exact ⟨rfl, _, ready.depicts⟩

theorem Shown.branches_true
    (shown : Shown world ⟨store, lower ++ [.value datum], ⟨image, position, base⟩ :: calls⟩ machine)
    (here : image.setting.body.code[position]? = some ⟨.jumpIfTrue, target, 0⟩) :
    Arrives machine (Shown world ⟨store, lower ++ [.value datum],
      ⟨image, if datum.isFalsey then position + 1 else target, base⟩ :: calls⟩) := by
  refine shown.goes here fun ready => ?_
  simp only [Machine.execute, Machine.delivers_bind]
  refine Machine.delivers_peek fun value isTop => ?_
  rw [Shows.isFalsey (ready.depicts.top isTop)]
  cases datum.isFalsey
  · simp only [Bool.not_false, if_true, Machine.delivers_bind]
    exact ready.jumps.mono (fun _ _ depicts => ⟨rfl, depicts⟩) fun _ _ struck => struck
  · exact ⟨rfl, _, ready.depicts⟩

end Jumping

end ScriptMachine.Source
