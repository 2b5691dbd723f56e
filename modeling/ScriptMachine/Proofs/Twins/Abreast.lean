import ScriptMachine.Proofs.Twins.Machines

set_option autoImplicit false

/- Two runs of one action. A run that finds no room on the heap or on the stack is cut short, and
nothing is then said of the other. A rule takes what is to be shown of both results and of the
machines they leave, so that the rules of a sequence of actions are applied one after the other. -/
namespace ScriptMachine

/-- There was no room left, on the heap or on the stack. -/
def RuntimeError.Cuts (error : RuntimeError) : Prop :=
  error.fault = .stackOverflow ∨ ∃ failure, error.fault = .exhausted failure

namespace Machine

section Judgement

variable {α β γ δ : Type}

/-- How two runs end that had printed `said` before: both with results, both with the same fault, or
one of them is cut short before it prints. Code that goes wrong is of no concern here. -/
inductive Ends (said : Array UInt8) (done : α → β → Machine → Machine → Prop) :
    EStateM.Result Stop Machine α → EStateM.Result Stop Machine β → Prop
  | both {a : α} {b : β} {left right : Machine} : done a b left right →
      Ends said done (.ok a left) (.ok b right)
  | same {error : RuntimeError} {left right : Machine} : left.output = said → right.output = said →
      Ends said done (.error (.fault error) left) (.error (.fault error) right)
  | cut {error : RuntimeError} {left : Machine} {other : EStateM.Result Stop Machine β} :
      error.Cuts → left.output = said → Ends said done (.error (.fault error) left) other
  | cut' {error : RuntimeError} {right : Machine} {other : EStateM.Result Stop Machine α} :
      error.Cuts → right.output = said → Ends said done other (.error (.fault error) right)
  | wrong {left : Machine} {other : EStateM.Result Stop Machine β} :
      Ends said done (.error .wrong left) other
  | wrong' {right : Machine} {other : EStateM.Result Stop Machine α} :
      Ends said done other (.error .wrong right)

/-- Started in `left` and `right`, the two actions end alike. -/
def Abreast (said : Array UInt8) (first : Exec α) (second : Exec β) (left right : Machine)
    (done : α → β → Machine → Machine → Prop) : Prop :=
  Ends said done (first left) (second right)

variable {said : Array UInt8} {left right : Machine} {done : α → β → Machine → Machine → Prop}

@[simp] theorem abreast_pure {a : α} {b : β} :
    Abreast said (pure a) (pure b) left right done ↔ done a b left right := by
  constructor
  · rintro (both | _ | _)
    exact both
  · exact .both

@[simp] theorem abreast_get_bind {first : Machine → Exec α} {second : Machine → Exec β} :
    Abreast said (get >>= first) (get >>= second) left right done
      ↔ Abreast said (first left) (second right) left right done :=
  Iff.rfl

@[simp] theorem abreast_modify_bind {change change' : Machine → Machine} {first : Unit → Exec α}
    {second : Unit → Exec β} :
    Abreast said (modify change >>= first) (modify change' >>= second) left right done
      ↔ Abreast said (first ()) (second ()) (change left) (change' right) done :=
  Iff.rfl

@[simp] theorem abreast_modifyGet_bind {change : Machine → γ × Machine}
    {change' : Machine → δ × Machine} {first : γ → Exec α} {second : δ → Exec β} :
    Abreast said (modifyGet change >>= first) (modifyGet change' >>= second) left right done
      ↔ Abreast said (first (change left).1) (second (change' right).1) (change left).2
        (change' right).2 done :=
  Iff.rfl

@[simp] theorem abreast_modify {change change' : Machine → Machine}
    {done : Unit → Unit → Machine → Machine → Prop} :
    Abreast said (modify change) (modify change') left right done
      ↔ done () () (change left) (change' right) := by
  constructor
  · rintro (both | _ | _)
    exact both
  · exact .both

theorem Abreast.mono {first : Exec α} {second : Exec β}
    {weaker : α → β → Machine → Machine → Prop} (abreast : Abreast said first second left right done)
    (implies : ∀ a b left right, done a b left right → weaker a b left right) :
    Abreast said first second left right weaker := by
  unfold Abreast at abreast ⊢
  generalize first left = one at abreast
  generalize second right = other at abreast
  cases abreast with
  | both both => exact .both (implies _ _ _ _ both)
  | same output output' => exact .same output output'
  | cut cuts output => exact .cut cuts output
  | cut' cuts output => exact .cut' cuts output
  | wrong => exact .wrong
  | wrong' => exact .wrong'

/-- Nothing is cut short behind the first print, so a run that goes on alone may print. -/
theorem abreast_bind {begin : Exec γ} {begin' : Exec δ} {first : γ → Exec α} {second : δ → Exec β}
    (abreast : Abreast said begin begin' left right fun a b left right =>
      Abreast said (first a) (second b) left right done) :
    Abreast said (begin >>= first) (begin' >>= second) left right done := by
  unfold Abreast at abreast ⊢
  simp only [bind, EStateM.bind]
  generalize begin left = one at abreast
  generalize begin' right = other at abreast
  cases abreast with
  | both both => exact both
  | same output output' => exact .same output output'
  | cut cuts output => exact .cut cuts output
  | cut' cuts output => exact .cut' cuts output
  | wrong => exact .wrong
  | wrong' => exact .wrong'

theorem abreast_map {begin : Exec γ} {begin' : Exec δ} {change : γ → α} {change' : δ → β}
    (abreast : Abreast said begin begin' left right fun a b left right =>
      done (change a) (change' b) left right) :
    Abreast said (change <$> begin) (change' <$> begin') left right done := by
  rw [map_eq_pure_bind, map_eq_pure_bind]
  exact abreast_bind (abreast.mono fun _ _ _ _ ended => abreast_pure.mpr ended)

/-- The same choice on both sides. -/
theorem abreast_ite {test test' : Prop} [Decidable test] [Decidable test'] {yes no : Exec α}
    {yes' no' : Exec β} (same : test ↔ test')
    (holds : test → test' → Abreast said yes yes' left right done)
    (fails : ¬ test → ¬ test' → Abreast said no no' left right done) :
    Abreast said (if test then yes else no) (if test' then yes' else no') left right done := by
  by_cases isTrue : test
  · rw [if_pos isTrue, if_pos (same.mp isTrue)]
    exact holds isTrue (same.mp isTrue)
  · rw [if_neg isTrue, if_neg fun other => isTrue (same.mpr other)]
    exact fails isTrue fun other => isTrue (same.mpr other)

theorem abreast_fail {fault : Fault} (trace : right.trace = left.trace) (output : left.output = said)
    (output' : right.output = said) :
    Abreast said (fail fault) (fail fault) left right done := by
  unfold Abreast fail
  rw [trace]
  exact .same output output'

theorem abreast_fail_bind {fault : Fault} {rest : γ → Exec α} {rest' : δ → Exec β}
    (trace : right.trace = left.trace) (output : left.output = said) (output' : right.output = said) :
    Abreast said (fail fault >>= rest) (fail fault >>= rest') left right done :=
  abreast_bind (abreast_fail trace output output')

/-- The stacks may have different limits. -/
theorem abreast_unless_full {full full' : Prop} [Decidable full] [Decidable full'] {first : Exec α}
    {second : Exec β} {rest : γ → Exec α} {rest' : δ → Exec β} (output : left.output = said)
    (output' : right.output = said) (next : Abreast said first second left right done) :
    Abreast said (if full then fail .stackOverflow >>= rest else first)
      (if full' then fail .stackOverflow >>= rest' else second) left right done := by
  by_cases isFull : full
  · rw [if_pos isFull]
    exact .cut (.inl rfl) output
  · rw [if_neg isFull]
    by_cases isFull' : full'
    · rw [if_pos isFull']
      exact .cut' (.inl rfl) output'
    · rw [if_neg isFull']
      exact next

theorem abreast_goWrong {second : Exec β} : Abreast said goWrong second left right done := .wrong

theorem abreast_goWrong' {first : Exec α} : Abreast said first goWrong left right done := .wrong'

theorem abreast_goWrong_bind {second : Exec β} {rest : γ → Exec α} :
    Abreast said (goWrong >>= rest) second left right done := .wrong

theorem abreast_goWrong_bind' {first : Exec α} {rest : γ → Exec β} :
    Abreast said first (goWrong >>= rest) left right done := .wrong'

theorem abreast_given {one : Option α} {other : Option β}
    (next : ∀ a b, one = some a → other = some b → done a b left right) :
    Abreast said (given one) (given other) left right done := by
  cases one with
  | none => exact .wrong
  | some a =>
    cases other with
    | none => exact .wrong'
    | some b => exact .both (next a b rfl rfl)

/-- Started in `machine`, the action ends with `done`, or it is cut short before it prints. -/
def Alone (said : Array UInt8) (action : Exec α) (machine : Machine) (done : α → Machine → Prop) :
    Prop :=
  match action machine with
  | .ok result after => done result after
  | .error (.fault error) after => error.Cuts ∧ after.output = said
  | .error .wrong _ => True

@[simp] theorem alone_get {done : Machine → Machine → Prop} :
    Alone said get left done ↔ done left left := Iff.rfl

@[simp] theorem alone_modify {change : Machine → Machine} {done : Unit → Machine → Prop} :
    Alone said (modify change) left done ↔ done () (change left) := Iff.rfl

@[simp] theorem alone_bind {first : Exec γ} {rest : γ → Exec α} {done : α → Machine → Prop} :
    Alone said (first >>= rest) left done ↔
      Alone said first left fun value middle => Alone said (rest value) middle done := by
  simp only [Alone, bind, EStateM.bind]
  cases first left with
  | ok value middle => exact Iff.rfl
  | error stop middle => cases stop <;> exact Iff.rfl

theorem Alone.mono {action : Exec α} {done weaker : α → Machine → Prop}
    (alone : Alone said action left done)
    (implies : ∀ result after, done result after → weaker result after) :
    Alone said action left weaker := by
  unfold Alone at alone ⊢
  split at alone
  · exact implies _ _ alone
  · exact alone
  · trivial

theorem alone_given {option : Option α} {done : α → Machine → Prop}
    (next : ∀ value, option = some value → done value left) :
    Alone said (given option) left done := by
  cases option with
  | none => trivial
  | some value => exact next value rfl

/-- Actions that may differ from each other. -/
theorem Abreast.of_alone {first : Exec α} {second : Exec β} {ends : α → Machine → Prop}
    {ends' : β → Machine → Prop} (alone : Alone said first left ends)
    (alone' : Alone said second right ends')
    (next : ∀ a b left' right', ends a left' → ends' b right' → done a b left' right') :
    Abreast said first second left right done := by
  unfold Abreast
  unfold Alone at alone alone'
  split at alone
  · next one =>
    rw [one]
    split at alone'
    · next other =>
      rw [other]
      exact .both (next _ _ _ _ alone alone')
    · next other =>
      rw [other]
      exact .cut' alone'.1 alone'.2
    · next other =>
      rw [other]
      exact .wrong'
  · next one =>
    rw [one]
    exact .cut alone.1 alone.2
  · next one =>
    rw [one]
    exact .wrong

end Judgement

section Stack

variable {α : Type} {said : Array UInt8} {pairs more : Pairing} {left right : Machine}
  {done : Unit → Unit → Machine → Machine → Prop} {value value' : Value}

theorem Twin.withStack {stack stack' : Array Value} (twin : Twin pairs left right)
    (across : Across (Value.Twin pairs) stack stack') :
    Twin pairs { left with stack } { right with stack := stack' } :=
  { twin with stack := across }

theorem abreast_push (twin : Twin pairs left right) (same : value.Twin pairs value')
    (output : left.output = said)
    (next : Twin pairs { left with stack := left.stack.push value }
        { right with stack := right.stack.push value' } →
      done () () { left with stack := left.stack.push value }
        { right with stack := right.stack.push value' }) :
    Abreast said (push value) (push value') left right done := by
  simp only [push, abreast_get_bind]
  exact abreast_unless_full output (twin.output.trans output)
    (abreast_modify.mpr (next (twin.withStack (twin.stack.push same))))

/-- There is room for the value, so nothing is cut short. -/
theorem abreast_push_room (twin : Twin pairs left right) (same : value.Twin pairs value')
    (room : left.stack.size < left.config.stackSlots)
    (room' : right.stack.size < right.config.stackSlots)
    (next : Twin pairs { left with stack := left.stack.push value }
        { right with stack := right.stack.push value' } →
      done () () { left with stack := left.stack.push value }
        { right with stack := right.stack.push value' }) :
    Abreast said (push value) (push value') left right done := by
  simp only [push, abreast_get_bind]
  rw [if_neg (Nat.not_le_of_lt room), if_neg (Nat.not_le_of_lt room')]
  exact .both (next (twin.withStack (twin.stack.push same)))

theorem abreast_peek {done : Value → Value → Machine → Machine → Prop} (twin : Twin pairs left right)
    (distance : Nat)
    (next : ∀ value value', value.Twin pairs value' →
      left.stack[left.stack.size - 1 - distance]? = some value →
      right.stack[left.stack.size - 1 - distance]? = some value' → done value value' left right) :
    Abreast said (peek distance) (peek distance) left right done := by
  simp only [peek, abreast_get_bind]
  refine abreast_ite (by rw [twin.stack.size]) (fun _ _ => ?_) fun _ _ => abreast_goWrong
  refine abreast_given fun value value' here there => ?_
  rw [← twin.stack.size] at there
  exact next value value' (twin.stack.each here there) here there

theorem abreast_pop {done : Value → Value → Machine → Machine → Prop} (twin : Twin pairs left right)
    (next : ∀ value value', value.Twin pairs value' → left.stack[left.stack.size - 1]? = some value →
      right.stack[left.stack.size - 1]? = some value' →
      Twin pairs { left with stack := left.stack.pop } { right with stack := right.stack.pop } →
      done value value' { left with stack := left.stack.pop }
        { right with stack := right.stack.pop }) :
    Abreast said pop pop left right done := by
  refine abreast_bind (abreast_peek twin 0 fun value value' same here there => ?_)
  exact .both (next value value' same here there (twin.withStack twin.stack.pop))

theorem abreast_slot {done : Value → Value → Machine → Machine → Prop} (twin : Twin pairs left right)
    (index : Nat)
    (next : ∀ value value', value.Twin pairs value' → left.stack[index]? = some value →
      right.stack[index]? = some value' → done value value' left right) :
    Abreast said (slot index) (slot index) left right done := by
  simp only [slot, abreast_get_bind]
  exact abreast_given fun value value' here there =>
    next value value' (twin.stack.each here there) here there

theorem abreast_setSlot (twin : Twin pairs left right) (index : Nat)
    (same : value.Twin pairs value')
    (next : Twin pairs { left with stack := left.stack.setIfInBounds index value }
        { right with stack := right.stack.setIfInBounds index value' } →
      done () () { left with stack := left.stack.setIfInBounds index value }
        { right with stack := right.stack.setIfInBounds index value' }) :
    Abreast said (setSlot index value) (setSlot index value') left right done := by
  simp only [setSlot, abreast_get_bind]
  refine abreast_ite (by rw [twin.stack.size]) (fun _ _ => ?_) fun _ _ => abreast_goWrong
  exact abreast_modify.mpr (next (twin.withStack (twin.stack.set index same)))

theorem abreast_setTop (twin : Twin pairs left right) (same : value.Twin pairs value')
    (next : ∀ stack stack', Twin pairs { left with stack } { right with stack := stack' } →
      done () () { left with stack } { right with stack := stack' }) :
    Abreast said (setTop value) (setTop value') left right done := by
  simp only [setTop, abreast_get_bind]
  rw [← twin.stack.size]
  exact abreast_setSlot twin _ same fun twin => next _ _ twin

theorem abreast_shrink (twin : Twin pairs left right) (size : Nat)
    (next : Twin pairs { left with stack := left.stack.shrink size }
        { right with stack := right.stack.shrink size } →
      done () () { left with stack := left.stack.shrink size }
        { right with stack := right.stack.shrink size }) :
    Abreast said (shrink size) (shrink size) left right done :=
  abreast_modify.mpr (next (twin.withStack (twin.stack.shrink size)))

end Stack

section Requests

variable {α β : Type} {said : Array UInt8} {pairs : Pairing} {left right : Machine}

theorem alone_allocating {pinned : List ObjectId} {action : (Unit → List ObjectId) → Heap.Action α}
    {done : α → Machine → Prop} (output : left.output = said)
    (next : ∀ roots a heap, action roots left.heap = .ok a heap → done a { left with heap }) :
    Alone said (allocating pinned action) left done := by
  unfold Alone allocating
  cases made : action (fun _ => pinned ++ left.roots) left.heap with
  | error failure heap => exact ⟨.inr ⟨failure, rfl⟩, output⟩
  | ok a heap => exact next _ a heap made

/-- A request to the heap is granted on both sides, or one of them is cut short. -/
theorem abreast_allocating {pinned pinned' : List ObjectId}
    {action : (Unit → List ObjectId) → Heap.Action α}
    {action' : (Unit → List ObjectId) → Heap.Action β} {done : α → β → Machine → Machine → Prop}
    (twin : Twin pairs left right) (output : left.output = said)
    (next : ∀ roots roots' a b heap heap', action roots left.heap = .ok a heap →
      action' roots' right.heap = .ok b heap' →
      done a b { left with heap } { right with heap := heap' }) :
    Abreast said (allocating pinned action) (allocating pinned' action') left right done := by
  have alone : Alone said (allocating pinned action) left fun a after => ∃ roots heap,
      action roots left.heap = .ok a heap ∧ after = { left with heap } :=
    alone_allocating output fun roots a heap made => ⟨roots, heap, made, rfl⟩
  have alone' : Alone said (allocating pinned' action') right fun b after => ∃ roots heap,
      action' roots right.heap = .ok b heap ∧ after = { right with heap } :=
    alone_allocating (twin.output.trans output) fun roots b heap made => ⟨roots, heap, made, rfl⟩
  refine .of_alone alone alone' ?_
  rintro a b _ _ ⟨roots, heap, one, rfl⟩ ⟨roots', heap', other, rfl⟩
  exact next roots roots' a b heap heap' one other

/-- Twins of objects are allocated. -/
theorem abreast_allocate {pinned pinned' : List ObjectId} {object other : Object}
    {done : ObjectId → ObjectId → Machine → Machine → Prop} (twin : Twin pairs left right)
    (plain : ∀ text, object ≠ .string text) (plain' : ∀ text, other ≠ .string text)
    (alike : object.Twin pairs other) (output : left.output = said)
    (next : ∀ more a b heap heap',
      Goes pairs left right more { left with heap } { right with heap := heap' } → more a b →
      heap.get? a = some object → heap'.get? b = some other →
      done a b { left with heap } { right with heap := heap' }) :
    Abreast said (allocating pinned (Heap.allocate · object))
      (allocating pinned' (Heap.allocate · other)) left right done := by
  refine abreast_allocating twin output fun _ _ a b heap heap' made made' => ?_
  obtain ⟨more, goes, paired⟩ := twin.heap.allocated plain plain' alike made made'
  exact next more a b heap heap' (twin.withHeap goes) paired (Heap.get?_of_allocate made)
    (Heap.get?_of_allocate made')

theorem abreast_intern {pinned pinned' : List ObjectId} {text : Text}
    {done : ObjectId → ObjectId → Machine → Machine → Prop} (twin : Twin pairs left right)
    (output : left.output = said)
    (next : ∀ more a b heap heap',
      Goes pairs left right more { left with heap } { right with heap := heap' } → more a b →
      done a b { left with heap } { right with heap := heap' }) :
    Abreast said (allocating pinned (Heap.intern · text)) (allocating pinned' (Heap.intern · text))
      left right done := by
  refine abreast_allocating twin output fun _ _ a b heap heap' made made' => ?_
  obtain ⟨more, goes, paired⟩ := twin.heap.interned made made'
  exact next more a b heap heap' (twin.withHeap goes) paired

end Requests

end Machine

end ScriptMachine
