import ScriptMachine.Proofs.Machine.Updates

set_option autoImplicit false

/- What outlives the calls of a machine. A run that stops leaves a stack, frames and open cells that
nothing uses again. What the registry, the host, the globals and the natives name stays in use, and
with it the variables that a closure among it has captured. -/
namespace ScriptMachine.Machine

/-- The objects in `live` are well formed. What the machine names apart from its calls is among
them, and so is what the slot of a captured variable among them names. All captured variables have
their slots. -/
structure Lasting (program : Program) (live : ObjectId → Prop) (machine : Machine) : Prop
    extends Linked program live machine where
  stored : Stored program live [] machine.openCells machine.heap
  opened : ∀ {slot : Nat} {id : ObjectId}, (slot, id) ∈ machine.openCells →
    machine.heap.get? id = some (.cell (.onStack slot))
  inside : ∀ {slot : Nat} {id : ObjectId}, (slot, id) ∈ machine.openCells →
    slot < machine.stack.size
  slots : ∀ {slot : Nat} {id object : ObjectId}, (slot, id) ∈ machine.openCells → live id →
    machine.stack[slot]? = some (.ref object) → live object

/-- A machine that can be reset and then run the next script. -/
def Intact (program : Program) (machine : Machine) : Prop :=
  ∃ live, Lasting program live machine

/-- The machine can be reset, and an object that is being made then is out of use. -/
def Spares (program : Program) (made : ObjectId) (machine : Machine) : Prop :=
  ∃ live, Lasting program live machine ∧ ¬ live made

variable {program : Program} {live live' : ObjectId → Prop} {shape : Shape} {machine : Machine}
  {heap : Heap} {made : ObjectId}

theorem Data.lasting (data : Data program live [] shape machine) : Lasting program live machine where
  toLinked := data.toLinked
  stored := data.stored
  opened member := (data.cells member).2.2
  inside member := data.size ▸ (data.cells member).1
  slots _ _ here := data.values here

theorem Data.intact (data : Data program live [] shape machine) : Intact program machine :=
  ⟨live, data.lasting⟩

/-- An object that is not there yet is spared. -/
theorem Data.spares (data : Data program live [] shape machine)
    (absent : machine.heap.get? made = none) : Spares program made machine := by
  refine ⟨live, data.lasting, fun isLive => ?_⟩
  obtain ⟨object, present, _⟩ := data.stored.sane isLive
  rw [absent] at present
  cases present

theorem Spares.intact (spares : Spares program made machine) : Intact program machine := by
  obtain ⟨live, lasting, _⟩ := spares
  exact ⟨live, lasting⟩

/-- A new slot belongs to no captured variable. -/
theorem Data.spares_push (data : Data program live [] shape machine)
    (spares : Spares program made machine) (value : Value) :
    Spares program made { machine with stack := machine.stack.push value } := by
  obtain ⟨live, lasting, apart⟩ := spares
  refine ⟨live, { lasting with
    inside := fun member => ?_
    slots := ?_ }, apart⟩
  · rw [Array.size_push]
    exact Nat.lt_succ_of_lt (lasting.inside member)
  intro slot id object member isLive here
  have below := (data.cells member).1
  rw [← data.size] at below
  rw [Array.getElem?_push_lt below, ← Array.getElem?_eq_getElem below] at here
  exact lasting.slots member isLive here

/-- A heap that has the live objects as they were, or those of them that are still reached. -/
theorem Lasting.withHeap (lasting : Lasting program live machine) (tidy : heap.Tidy)
    (grown : machine.heap.nextId ≤ heap.nextId)
    (same : ∀ {id}, live' id → live id ∧ heap.get? id = machine.heap.get? id)
    (closed : ∀ {id object}, live' id → machine.heap.get? id = some object →
      ∀ other ∈ object.references, live other → live' other)
    (rooted : ∀ id ∈ machine.roots, live id → live' id)
    (fixed : ∀ {id object other}, program.heap.get? id = some object → object.isCode = true →
      heap.get? id = some other → other = object)
    (opened : ∀ {slot id}, (slot, id) ∈ machine.openCells →
      heap.get? id = some (.cell (.onStack slot))) :
    Lasting program live' { machine with heap } := by
  have alike : ∀ {id old}, live id → live' id → machine.heap.get? id = some old →
      ∃ new, heap.get? id = some new ∧ old.Alike new :=
    fun _ isLive' found => ⟨_, by rw [(same isLive').2, found], .refl _⟩
  have stored : Stored program live' [] machine.openCells heap := by
    refine ⟨tidy, Nat.le_trans lasting.stored.grown grown, fun {id} isLive' => ?_, fixed⟩
    obtain ⟨object, here, sane⟩ := lasting.stored.sane (same isLive').1
    refine ⟨object, by rw [(same isLive').2, here], ?_⟩
    exact sane.transfer (closed isLive' here) alike (fun member => member) fun _ member => member
  refine ⟨lasting.toLinked.withHeap rooted fun isLive isLive' =>
    lasting.stored.closurePrototype? stored alike isLive isLive', stored, opened, lasting.inside, ?_⟩
  intro slot id object member isLive' here
  exact rooted object (mem_roots_of_value here List.mem_cons_self)
    (lasting.slots member (same isLive').1 here)

/-- A collection from the roots of the machine, and maybe some more, may come in between. -/
theorem Lasting.prepare (lasting : Lasting program live machine) (pinned : List ObjectId)
    (bytes : UInt64) :
    ∃ live', Lasting program live'
        { machine with heap := machine.heap.prepared (fun _ => pinned ++ machine.roots) bytes } ∧
      ∀ id, live' id → live id := by
  rcases Heap.prepared_cases machine.heap (fun _ => pinned ++ machine.roots) bytes
    with same | collected
  · rw [same]
    exact ⟨live, lasting, fun _ isLive => isLive⟩
  · rw [collected]
    refine ⟨fun id => live id ∧ Heap.Reaches machine.heap.objects (pinned ++ machine.roots) id,
      lasting.withHeap (lasting.stored.tidy.collect _) ?_ ?_ ?_ ?_ ?_ ?_, fun _ => And.left⟩
    · exact Nat.le_of_eq Heap.collect_nextId.symm
    · exact fun kept => ⟨kept.1, Heap.get?_collect_of_reaches kept.2⟩
    · exact fun kept here other member isLive => ⟨isLive, .next kept.2 here member⟩
    · exact fun id member isLive => ⟨isLive, .root (List.mem_append_right _ member)⟩
    · exact fun here isCode found =>
        lasting.stored.fixed here isCode (Heap.get?_collect.mp found).1
    · intro slot id member
      rw [Heap.get?_collect_of_reaches
        (.root (List.mem_append_right _ (mem_roots_of_cell member))), lasting.opened member]

/-- A new object is not counted as live. -/
theorem Lasting.link (lasting : Lasting program live machine) {object : Object}
    (plain : ∀ text, object ≠ .string text) :
    Lasting program live { machine with heap := machine.heap.link object } := by
  have kept : ∀ {id}, live id → (machine.heap.link object).get? id = machine.heap.get? id := by
    intro id isLive
    obtain ⟨found, present, _⟩ := lasting.stored.sane isLive
    rw [Heap.get?_link, if_neg (lasting.stored.tidy.fresh present)]
  refine lasting.withHeap (lasting.stored.tidy.link plain) (Nat.le_succ _)
    (fun isLive => ⟨isLive, kept isLive⟩) (fun _ _ _ _ isLive => isLive) (fun _ _ isLive => isLive)
    ?_ ?_
  · intro id code other here isCode found
    have below := program.tidy.bounded here
    have above := lasting.stored.grown
    rw [Heap.get?_link, if_neg (by lia)] at found
    exact lasting.stored.fixed here isCode found
  · intro slot id member
    have present := lasting.opened member
    rw [Heap.get?_link, if_neg (lasting.stored.tidy.fresh present), present]

/-- What is not live may be changed. -/
theorem Lasting.set (lasting : Lasting program live machine) {id : ObjectId} {old object : Object}
    (apart : ¬ live id) (present : machine.heap.get? id = some old) (alike : old.Alike object)
    (mutable : old.isCode = false) (closed : ∀ slot, old ≠ .cell (.onStack slot)) :
    Lasting program live { machine with heap := machine.heap.set id object } := by
  have kept : ∀ {other}, live other →
      (machine.heap.set id object).get? other = machine.heap.get? other := by
    intro other isLive
    exact Heap.get?_set_of_ne fun same => apart (same ▸ isLive)
  refine lasting.withHeap ?_ (Nat.le_refl _) (fun isLive => ⟨isLive, kept isLive⟩)
    (fun _ _ _ _ isLive => isLive) (fun _ _ isLive => isLive) ?_ ?_
  · apply lasting.stored.tidy.set
    · intro text isString
      have same := alike.isCode
      rw [isString, mutable] at same
      cases same
    · intro text isString
      rw [present] at isString
      cases isString
      cases mutable
  · intro other code found here isCode after
    by_cases same : id = other
    · subst same
      rw [lasting.stored.fixed here isCode present] at mutable
      rw [mutable] at isCode
      cases isCode
    · rw [Heap.get?_set_of_ne same] at after
      exact lasting.stored.fixed here isCode after
  · intro slot cell member
    have found := lasting.opened member
    rw [Heap.get?_set_of_ne, found]
    intro same
    rw [← same, present] at found
    cases found
    exact closed slot rfl

end ScriptMachine.Machine
