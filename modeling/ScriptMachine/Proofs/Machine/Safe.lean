import ScriptMachine.Proofs.Machine.Lasting

set_option autoImplicit false

/- Safety of actions: what an action needs so that it does not go wrong, and what it then leaves.
A rule for an action takes what is to be shown of its result and of the state it leaves, so that
the rules of a sequence of actions are applied one after the other. -/
namespace ScriptMachine.Machine

/-- Started in `machine`, the action ends with `done`, or it stops with a fault, which is not that
of an unknown struct type, and leaves the machine intact. -/
def Safe (program : Program) {α : Type} (action : Exec α) (machine : Machine)
    (done : α → Machine → Prop) : Prop :=
  match action machine with
  | .ok result after => done result after
  | .error (.fault error) after =>
    (∀ id, error.fault ≠ .unknownStruct id) ∧ Intact program after
  | .error .wrong _ => False

section Rules

variable {program : Program} {machine : Machine} {α β : Type}

theorem Safe.mono {action : Exec α} {done weaker : α → Machine → Prop}
    (safe : Safe program action machine done)
    (implies : ∀ result after, done result after → weaker result after) :
    Safe program action machine weaker := by
  unfold Safe at safe ⊢
  split at safe
  · exact implies _ _ safe
  · exact safe
  · exact safe

@[simp] theorem safe_pure {value : α} {done : α → Machine → Prop} :
    Safe program (pure value) machine done ↔ done value machine :=
  Iff.rfl

@[simp] theorem safe_bind {action : Exec α} {rest : α → Exec β} {done : β → Machine → Prop} :
    Safe program (action >>= rest) machine done ↔
      Safe program action machine fun result after => Safe program (rest result) after done := by
  simp only [Safe, bind, EStateM.bind]
  cases action machine with
  | ok result after => exact Iff.rfl
  | error stop after => cases stop <;> exact Iff.rfl

@[simp] theorem safe_map {action : Exec α} {change : α → β} {done : β → Machine → Prop} :
    Safe program (change <$> action) machine done ↔
      Safe program action machine fun result after => done (change result) after := by
  simp only [Safe, Functor.map, EStateM.map]
  cases action machine with
  | ok result after => exact Iff.rfl
  | error stop after => cases stop <;> exact Iff.rfl

@[simp] theorem safe_get {done : Machine → Machine → Prop} :
    Safe program get machine done ↔ done machine machine :=
  Iff.rfl

@[simp] theorem safe_modify {change : Machine → Machine} {done : Unit → Machine → Prop} :
    Safe program (modify change) machine done ↔ done () (change machine) :=
  Iff.rfl

@[simp] theorem safe_modifyGet {change : Machine → α × Machine} {done : α → Machine → Prop} :
    Safe program (modifyGet change) machine done ↔ done (change machine).1 (change machine).2 :=
  Iff.rfl

@[simp] theorem safe_given {value : α} {done : α → Machine → Prop} :
    Safe program (given (some value)) machine done ↔ done value machine :=
  Iff.rfl

@[simp] theorem safe_modifyHeap {change : Heap → Heap} {done : Unit → Machine → Prop} :
    Safe program (modifyHeap change) machine done
      ↔ done () { machine with heap := change machine.heap } :=
  Iff.rfl

@[simp] theorem safe_modifyFrame {position : Nat} {change : Frame → Frame}
    {done : Unit → Machine → Prop} :
    Safe program (modifyFrame position change) machine done
      ↔ done () { machine with frames := machine.frames.modify position change } :=
  Iff.rfl

theorem safe_fail {live : ObjectId → Prop} {shape : Shape} {fault : Fault}
    {done : α → Machine → Prop} (data : Data program live [] shape machine)
    (known : ∀ id, fault ≠ .unknownStruct id) : Safe program (fail fault) machine done :=
  ⟨known, data.intact⟩

end Rules

section Stack

variable {program : Program} {live : ObjectId → Prop} {pending : List ObjectId} {shape : Shape}
  {machine : Machine}

theorem safe_push_of_intact {value : Value} {done : Unit → Machine → Prop}
    (intact : Intact program machine) (data : Data program live pending shape machine)
    (holds : Holds program live machine.frames shape.height value)
    (next : Data program live pending { shape with height := shape.height + 1 }
        { machine with stack := machine.stack.push value } →
      done () { machine with stack := machine.stack.push value }) :
    Safe program (push value) machine done := by
  simp only [push, safe_bind, safe_get]
  split
  · exact ⟨by simp, intact⟩
  · exact next (data.push holds)

theorem safe_push {value : Value} {done : Unit → Machine → Prop}
    (data : Data program live [] shape machine)
    (holds : Holds program live machine.frames shape.height value)
    (next : Data program live [] { shape with height := shape.height + 1 }
        { machine with stack := machine.stack.push value } →
      done () { machine with stack := machine.stack.push value }) :
    Safe program (push value) machine done :=
  safe_push_of_intact data.intact data holds next

theorem safe_peek {distance : Nat} {done : Value → Machine → Prop}
    (data : Data program live pending shape machine) (inside : distance < shape.height)
    (next : ∀ value, machine.stack[shape.height - 1 - distance]? = some value →
      done value machine) :
    Safe program (peek distance) machine done := by
  have bound : shape.height - 1 - distance < machine.stack.size := by
    rw [data.size]
    omega
  simp only [peek, safe_bind, safe_get]
  rw [data.size, if_pos inside, Array.getElem?_eq_getElem bound]
  exact next _ (Array.getElem?_eq_getElem bound)

theorem safe_pop {done : Value → Machine → Prop} (data : Data program live pending shape machine)
    (inside : 0 < shape.height) (clear : ∀ slot ∈ shape.captured, slot < shape.height - 1)
    (next : ∀ value, machine.stack[shape.height - 1]? = some value →
      Data program live pending { shape with height := shape.height - 1 }
        { machine with stack := machine.stack.pop } →
      done value { machine with stack := machine.stack.pop }) :
    Safe program pop machine done := by
  simp only [pop, safe_bind]
  refine safe_peek data inside fun value here => next value here ?_
  apply data.cut (by rw [Array.size_pop, data.size]) ?_ clear
  intro index other present
  rw [Array.getElem?_pop] at present
  split at present
  · exact present
  · cases present

theorem safe_slot {index : Nat} {done : Value → Machine → Prop}
    (data : Data program live pending shape machine) (inside : index < shape.height)
    (next : ∀ value, machine.stack[index]? = some value → done value machine) :
    Safe program (slot index) machine done := by
  have bound : index < machine.stack.size := by rw [data.size]; exact inside
  simp only [slot, safe_bind, safe_get]
  rw [Array.getElem?_eq_getElem bound]
  exact next _ (Array.getElem?_eq_getElem bound)

theorem safe_setSlot {index : Nat} {value : Value} {done : Unit → Machine → Prop}
    (data : Data program live pending shape machine) (inside : index < shape.height)
    (holds : Holds program live machine.frames index value)
    (next : Data program live pending shape
        { machine with stack := machine.stack.setIfInBounds index value } →
      done () { machine with stack := machine.stack.setIfInBounds index value }) :
    Safe program (setSlot index value) machine done := by
  have bound : index < machine.stack.size := by rw [data.size]; exact inside
  simp only [setSlot, safe_bind, safe_get, if_pos bound, safe_modify]
  exact next (data.setSlot holds)

theorem safe_setTop {value : Value} {done : Unit → Machine → Prop}
    (data : Data program live pending shape machine) (inside : 0 < shape.height)
    (holds : Holds program live machine.frames (shape.height - 1) value)
    (next : Data program live pending shape
        { machine with stack := machine.stack.setIfInBounds (shape.height - 1) value } →
      done () { machine with stack := machine.stack.setIfInBounds (shape.height - 1) value }) :
    Safe program (setTop value) machine done := by
  simp only [setTop, safe_bind, safe_get, data.size]
  exact safe_setSlot data (Nat.sub_one_lt_of_lt inside) holds next

theorem safe_shrink {size : Nat} {done : Unit → Machine → Prop}
    (data : Data program live pending shape machine) (inside : size ≤ shape.height)
    (clear : ∀ slot ∈ shape.captured, slot < size)
    (next : Data program live pending { shape with height := size }
        { machine with stack := machine.stack.shrink size } →
      done () { machine with stack := machine.stack.shrink size }) :
    Safe program (shrink size) machine done := by
  simp only [shrink, safe_modify]
  apply next
  apply data.cut ?_ ?_ clear
  · rw [Array.size_shrink, data.size, Nat.min_eq_left inside]
  · intro index value here
    rw [Array.getElem?_eq_some_iff] at here ⊢
    obtain ⟨bound, same⟩ := here
    rw [Array.getElem_shrink] at same
    rw [Array.size_shrink] at bound
    exact ⟨by omega, same⟩

end Stack

section Allocation

variable {program : Program} {live : ObjectId → Prop} {pending pending' : List ObjectId}
  {shape : Shape} {machine : Machine} {pinned : List ObjectId}

/-- A collection from the roots of the machine, and maybe some more, keeps the data in order. -/
theorem Data.collect (data : Data program live pending shape machine) (pinned : List ObjectId) :
    ∃ live', Data program live' pending shape
        { machine with heap := machine.heap.collect (pinned ++ machine.roots) } ∧
      (∀ id, live' id → live id ∧
        (machine.heap.collect (pinned ++ machine.roots)).get? id = machine.heap.get? id) ∧
      ∀ id ∈ pinned ++ machine.roots, live id → live' id := by
  refine ⟨_, data.withHeap (data.stored.collect (pinned ++ machine.roots)) ?_ ?_ ?_,
    fun id kept => ⟨kept.1, Heap.get?_collect_of_reaches kept.2⟩,
    fun id member isLive => ⟨isLive, .root member⟩⟩
  · intro id old _ kept found
    exact ⟨old, by rw [Heap.get?_collect_of_reaches kept.2, found], .refl old⟩
  · exact fun id member isLive => ⟨isLive, .root (List.mem_append_right _ member)⟩
  · intro slot id member
    have found := (data.cells member).2.2
    rw [Heap.get?_collect_of_reaches (.root (List.mem_append_right _ (mem_roots_of_cell member))),
      found]

theorem Data.prepare (data : Data program live pending shape machine) (pinned : List ObjectId)
    (bytes : UInt64) :
    ∃ live', Data program live' pending shape
        { machine with heap := machine.heap.prepared (fun _ => pinned ++ machine.roots) bytes } ∧
      (∀ id, live' id → live id ∧
        (machine.heap.prepared (fun _ => pinned ++ machine.roots) bytes).get? id
          = machine.heap.get? id) ∧
      ∀ id ∈ pinned ++ machine.roots, live id → live' id := by
  rcases Heap.prepared_cases machine.heap (fun _ => pinned ++ machine.roots) bytes
    with same | collected
  · rw [same]
    exact ⟨live, data, fun id isLive => ⟨isLive, rfl⟩, fun id _ isLive => isLive⟩
  · rw [collected]
    exact data.collect pinned

theorem Data.extend (data : Data program live pending shape machine) {heap : Heap}
    (tidy : heap.Tidy) (next : heap.nextId = machine.heap.nextId + 1)
    (rest : ∀ {id}, machine.heap.nextId ≠ id → heap.get? id = machine.heap.get? id) :
    Data program live pending shape { machine with heap } := by
  have kept : ∀ {id old}, machine.heap.get? id = some old → heap.get? id = some old :=
    fun found => by rw [rest (data.stored.tidy.fresh found), found]
  apply data.withHeap (data.stored.extend tidy next rest)
  · exact fun _ _ found => ⟨_, kept found, .refl _⟩
  · exact fun _ _ isLive => isLive
  · exact fun member => kept (data.cells member).2.2

theorem Data.enlist (data : Data program live pending shape machine) {id : ObjectId}
    {object : Object} (present : machine.heap.get? id = some object)
    (sane : Sane program live pending machine.openCells machine.heap id object) :
    Data program (With live id) pending shape machine :=
  data.withHeap (data.stored.enlist present sane) (fun _ _ found => ⟨_, found, .refl _⟩)
    (fun _ _ => Or.inl) fun member => (data.cells member).2.2

theorem Stored.expect {cells : List (Nat × ObjectId)} {heap : Heap}
    (stored : Stored program live pending cells heap)
    (more : ∀ id ∈ pending, id ∈ pending') : Stored program live pending' cells heap :=
  { stored with
    sane := by
      intro id isLive
      obtain ⟨object, here, sane⟩ := stored.sane isLive
      exact ⟨object, here, sane.transfer (fun _ _ isLive => isLive)
        (fun _ _ found => ⟨_, found, .refl _⟩) (more id) fun _ member => member⟩ }

theorem Data.expect (data : Data program live pending shape machine)
    (more : ∀ id ∈ pending, id ∈ pending') : Data program live pending' shape machine :=
  { data with stored := data.stored.expect more }

theorem safe_allocating {α : Type} {action : (Unit → List ObjectId) → Heap.Action α}
    {done : α → Machine → Prop} :
    Safe program (allocating pinned action) machine done ↔
      match action (fun _ => pinned ++ machine.roots) machine.heap with
      | .ok result heap => done result { machine with heap }
      | .error _ heap => Intact program { machine with heap } := by
  simp only [Safe, allocating]
  cases action (fun _ => pinned ++ machine.roots) machine.heap with
  | ok result heap => exact Iff.rfl
  | error failure heap => exact and_iff_right (by simp)

/-- A new object is there, and may be counted as live when that is wanted. -/
theorem safe_allocate_of_intact {object : Object} {done : ObjectId → Machine → Prop}
    (data : Data program live pending shape machine) (plain : ∀ text, object ≠ .string text)
    (intact : Intact program { machine with
      heap := machine.heap.prepared (fun _ => pinned ++ machine.roots) object.size.toUInt64 })
    (next : ∀ live' heap, Data program live' pending shape { machine with heap } →
      (∀ id ∈ pinned ++ machine.roots, live id → live' id) →
      (∀ id, live' id → live id ∧ heap.get? id = machine.heap.get? id) →
      heap.get? machine.heap.nextId = some object →
      heap = (machine.heap.prepared (fun _ => pinned ++ machine.roots)
        object.size.toUInt64).link object →
      done machine.heap.nextId { machine with heap }) :
    Safe program (allocating pinned (Heap.allocate · object)) machine done := by
  obtain ⟨live', prepared, fewer, rooted⟩ := data.prepare pinned object.size.toUInt64
  have sameNext := Heap.prepared_nextId machine.heap (fun _ => pinned ++ machine.roots)
    object.size.toUInt64
  rw [safe_allocating, Heap.allocate_eq]
  generalize machine.heap.prepared (fun _ => pinned ++ machine.roots) object.size.toUInt64 = ready
    at prepared fewer sameNext intact next ⊢
  by_cases full : ready.overLimit object.size.toUInt64 = true
  · simp only [full, ↓reduceIte]
    exact intact
  · simp only [full, Bool.false_eq_true, ↓reduceIte]
    rw [sameNext]
    apply next live'
    · refine prepared.extend (prepared.stored.tidy.link plain) rfl fun apart => ?_
      rw [Heap.get?_link, if_neg apart]
    · exact rooted
    · intro id isLive
      obtain ⟨found, present, _⟩ := prepared.stored.sane isLive
      refine ⟨(fewer id isLive).1, ?_⟩
      rw [← (fewer id isLive).2, Heap.get?_link, if_neg (prepared.stored.tidy.fresh present)]
    · rw [← sameNext, Heap.get?_link_self]
    · rfl

theorem safe_allocate {object : Object} {done : ObjectId → Machine → Prop}
    (data : Data program live [] shape machine) (plain : ∀ text, object ≠ .string text)
    (next : ∀ live' heap, Data program live' [] shape { machine with heap } →
      (∀ id ∈ pinned ++ machine.roots, live id → live' id) →
      (∀ id, live' id → live id ∧ heap.get? id = machine.heap.get? id) →
      heap.get? machine.heap.nextId = some object →
      done machine.heap.nextId { machine with heap }) :
    Safe program (allocating pinned (Heap.allocate · object)) machine done := by
  obtain ⟨live', prepared, _⟩ := data.prepare pinned object.size.toUInt64
  exact safe_allocate_of_intact data plain prepared.intact
    fun live' heap data' rooted same here _ => next live' heap data' rooted same here

/-- Byte counts are not part of the data. -/
theorem Data.recount (data : Data program live pending shape machine) {heap : Heap}
    (objects : heap.objects = machine.heap.objects) (sameNext : heap.nextId = machine.heap.nextId)
    (interned : heap.interned = machine.heap.interned) :
    Data program live pending shape { machine with heap } := by
  have same : ∀ id, heap.get? id = machine.heap.get? id := by
    intro id
    rw [Heap.get?, Heap.get?, objects]
  have alike : ∀ {id old}, live id → live id → machine.heap.get? id = some old →
      ∃ new, heap.get? id = some new ∧ old.Alike new :=
    fun _ _ found => ⟨_, by rw [same, found], .refl _⟩
  refine data.withHeap ?_ alike (fun _ _ isLive => isLive)
    fun member => by rw [same]; exact (data.cells member).2.2
  refine ⟨data.stored.tidy.of_same objects sameNext interned, by rw [sameNext]; exact data.stored.grown,
    ?_, ?_⟩
  · intro id isLive
    obtain ⟨object, here, sane⟩ := data.stored.sane isLive
    exact ⟨object, by rw [same, here], sane.transfer (fun _ _ isLive => isLive) alike
      (fun member => member) fun _ member => member⟩
  · intro id object other here isCode found
    exact data.stored.fixed here isCode (by rw [← same, found])

theorem safe_reserve {bytes : UInt64} {done : Unit → Machine → Prop}
    (data : Data program live [] shape machine)
    (next : ∀ live' heap, Data program live' [] shape { machine with heap } →
      (∀ id ∈ pinned ++ machine.roots, live id → live' id) → done () { machine with heap }) :
    Safe program (allocating pinned (Heap.reserve · bytes)) machine done := by
  obtain ⟨live', prepared, _, rooted⟩ := data.prepare pinned bytes
  rw [safe_allocating, Heap.reserve_eq]
  generalize machine.heap.prepared (fun _ => pinned ++ machine.roots) bytes = ready
    at prepared ⊢
  by_cases full : ready.overLimit bytes = true
  · simp only [full, ↓reduceIte]
    exact prepared.intact
  · simp only [full, Bool.false_eq_true, ↓reduceIte]
    exact next live' _ (prepared.recount rfl rfl rfl) rooted

end Allocation

end ScriptMachine.Machine
