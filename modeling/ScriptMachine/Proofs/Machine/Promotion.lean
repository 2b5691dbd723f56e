import ScriptMachine.Proofs.Heap.Retained
import ScriptMachine.Proofs.Machine.Moves

set_option autoImplicit false

/- Moving a struct to the heap. Every request for an instance may collect, so an instance that is
still being filled is pinned, and the instances nested in it are reached from it. What is filled so
far is a copy of what the struct would be with nil in its other slots, and this is what one request
after the other preserves. -/
namespace ScriptMachine

mutual

/-- How many structs a struct consists of. Displaced ones are not among them. -/
def StackStruct.currentCount : StackStruct → Nat
  | .node _ _ slots _ => 1 + currentInSlots slots

def currentInSlots : List Slot → Nat
  | [] => 0
  | .plain _ :: rest => currentInSlots rest
  | .nested inner :: rest => inner.currentCount + currentInSlots rest

end

theorem StackStruct.slotReferences_append (first second : List Slot) :
    slotReferences (first ++ second) = slotReferences first ++ slotReferences second := by
  induction first with
  | nil => rfl
  | cons slot rest ih =>
    rw [List.cons_append, slotReferences_cons, slotReferences_cons, ih, List.append_assoc]

namespace Heap

mutual

/-- The instances from `first` up to `next` are copies of a struct and of those nested in it, each of
them of one, in the order in which they are met. -/
def Copied (heap : Heap) : StackStruct → (first next : ObjectId) → Prop
  | .node _ type slots _, first, next => ∃ fields : List Value,
      heap.get? first = some (.record type fields.toArray) ∧
        CopiedSlots heap slots fields (first + 1) next

/-- Fields with the values of slots; the instances from `first` up to `next` are copies of the structs
nested in them. -/
def CopiedSlots (heap : Heap) : List Slot → List Value → (first next : ObjectId) → Prop
  | [], [], first, next => next = first
  | .plain value :: rest, field :: fields, first, next =>
    field = value ∧ CopiedSlots heap rest fields first next
  | .nested inner :: rest, field :: fields, first, next =>
    field = .ref first ∧ ∃ middle, Copied heap inner first middle ∧
      CopiedSlots heap rest fields middle next
  | _, _, _, _ => False

end

section Copies

variable {heap other : Heap}

mutual

theorem Copied.next_eq : (struct : StackStruct) → {first next : ObjectId} →
    Copied heap struct first next → next = first + struct.currentCount
  | .node _ _ slots _, first, next, ⟨fields, _, inside⟩ => by
    rw [CopiedSlots.next_eq slots inside, StackStruct.currentCount, Nat.add_assoc]

theorem CopiedSlots.next_eq : (slots : List Slot) → {fields : List Value} →
    {first next : ObjectId} → CopiedSlots heap slots fields first next →
    next = first + currentInSlots slots
  | [], [], _, _, same => same
  | .plain _ :: rest, _ :: _, _, _, ⟨_, inside⟩ => CopiedSlots.next_eq rest inside
  | .nested inner :: rest, _ :: _, first, next, ⟨_, middle, copied, inside⟩ => by
    rw [CopiedSlots.next_eq rest inside, Copied.next_eq inner copied, currentInSlots, Nat.add_assoc]
  | [], _ :: _, _, _, copied | .plain _ :: _, [], _, _, copied
  | .nested _ :: _, [], _, _, copied => by simp [CopiedSlots] at copied

end

mutual

/-- A heap with the same instances has the same copies. -/
theorem Copied.congr : (struct : StackStruct) → {first next : ObjectId} →
    Copied heap struct first next →
    (∀ id, first ≤ id → id < next → other.get? id = heap.get? id) → Copied other struct first next
  | .node _ _ slots _, first, next, ⟨fields, here, inside⟩, same => by
    have below := CopiedSlots.next_eq slots inside
    refine ⟨fields, (same first (Nat.le_refl _) (by lia)).trans here, ?_⟩
    exact CopiedSlots.congr slots inside fun id low high => same id (by lia) high

theorem CopiedSlots.congr : (slots : List Slot) → {fields : List Value} →
    {first next : ObjectId} → CopiedSlots heap slots fields first next →
    (∀ id, first ≤ id → id < next → other.get? id = heap.get? id) →
    CopiedSlots other slots fields first next
  | [], [], _, _, same, _ => same
  | .plain _ :: rest, _ :: _, _, _, ⟨plain, inside⟩, same =>
    ⟨plain, CopiedSlots.congr rest inside same⟩
  | .nested inner :: rest, _ :: _, first, next, ⟨isRef, middle, copied, inside⟩, same => by
    have front := Copied.next_eq inner copied
    have back := CopiedSlots.next_eq rest inside
    exact ⟨isRef, middle, Copied.congr inner copied fun id low high => same id low (by lia),
      CopiedSlots.congr rest inside fun id low high => same id (by lia) high⟩
  | [], _ :: _, _, _, copied, _ | .plain _ :: _, [], _, _, copied, _
  | .nested _ :: _, [], _, _, copied, _ => by simp [CopiedSlots] at copied

end

mutual

/-- Every instance of a copy is reached from the first one. -/
theorem Copied.reaches : (struct : StackStruct) → {first next : ObjectId} →
    Copied heap struct first next → ∀ id, first ≤ id → id < next →
    Reaches heap.objects [first] id
  | .node _ _ slots _, first, next, ⟨fields, here, inside⟩, id, low, high => by
    rcases Nat.eq_or_lt_of_le low with same | above
    · subst same
      exact .root List.mem_cons_self
    · obtain ⟨root, member, reached⟩ := CopiedSlots.reaches slots inside id above high
      refine .mono (fun other isRoot => ?_) reached
      rw [List.mem_singleton.mp isRoot]
      refine .next (.root List.mem_cons_self) here ?_
      exact List.mem_filterMap.mpr ⟨.ref root, member, rfl⟩

theorem CopiedSlots.reaches : (slots : List Slot) → {fields : List Value} →
    {first next : ObjectId} → CopiedSlots heap slots fields first next → ∀ id, first ≤ id →
    id < next → ∃ root, Value.ref root ∈ fields ∧ Reaches heap.objects [root] id
  | [], [], first, next, same, id, low, high => by
    have : next = first := same
    lia
  | .plain _ :: rest, _ :: _, _, _, ⟨_, inside⟩, id, low, high => by
    obtain ⟨root, member, reached⟩ := CopiedSlots.reaches rest inside id low high
    exact ⟨root, List.mem_cons_of_mem _ member, reached⟩
  | .nested inner :: rest, _ :: _, first, next, ⟨isRef, middle, copied, inside⟩, id, low, high => by
    rcases Nat.lt_or_ge id middle with before | behind
    · exact ⟨first, isRef ▸ List.mem_cons_self, Copied.reaches inner copied id low before⟩
    · obtain ⟨root, member, reached⟩ := CopiedSlots.reaches rest inside id behind high
      exact ⟨root, List.mem_cons_of_mem _ member, reached⟩
  | [], _ :: _, _, _, copied, _, _, _ | .plain _ :: _, [], _, _, copied, _, _, _
  | .nested _ :: _, [], _, _, copied, _, _, _ => by simp [CopiedSlots] at copied

end

mutual

/-- The instances of a copy refer to each other, and to what the struct refers to. -/
theorem Copied.record : (struct : StackStruct) → {first next : ObjectId} →
    Copied heap struct first next → ∀ id, first ≤ id → id < next →
    ∃ type fields, heap.get? id = some (.record type fields) ∧
      ∀ other ∈ (Object.record type fields).references,
        id < other ∧ other < next ∨ other ∈ struct.references
  | .node _ type slots _, first, next, ⟨fields, here, inside⟩, id, low, high => by
    obtain ⟨named, records⟩ := CopiedSlots.record slots inside
    rcases Nat.eq_or_lt_of_le low with same | above
    · subst same
      refine ⟨type, fields.toArray, here, fun other member => ?_⟩
      obtain ⟨value, isField, isRef⟩ := List.mem_filterMap.mp member
      cases value with
      | ref _ =>
        cases isRef
        exact (named other isField).imp_left fun ⟨above, below⟩ => ⟨by lia, below⟩
      | nil | bool _ | number _ | stack _ => cases isRef
    · exact records id above high

theorem CopiedSlots.record : (slots : List Slot) → {fields : List Value} →
    {first next : ObjectId} → CopiedSlots heap slots fields first next →
    (∀ other, Value.ref other ∈ fields →
      first ≤ other ∧ other < next ∨ other ∈ StackStruct.slotReferences slots) ∧
    ∀ id, first ≤ id → id < next → ∃ type fields, heap.get? id = some (.record type fields) ∧
      ∀ other ∈ (Object.record type fields).references,
        id < other ∧ other < next ∨ other ∈ StackStruct.slotReferences slots
  | [], [], first, next, same =>
    ⟨by simp, fun id low high => by have : next = first := same; lia⟩
  | .plain value :: rest, field :: fields, first, next, ⟨plain, inside⟩ => by
    obtain ⟨named, records⟩ := CopiedSlots.record rest inside
    have more : ∀ id ∈ StackStruct.slotReferences rest,
        id ∈ StackStruct.slotReferences (.plain value :: rest) := by
      intro id member
      rw [StackStruct.slotReferences_cons]
      exact List.mem_append_right _ member
    refine ⟨fun other member => ?_, fun id low high => ?_⟩
    · rcases List.mem_cons.mp member with isValue | later
      · rw [← plain, ← isValue]
        exact Or.inr List.mem_cons_self
      · exact (named other later).imp_right (more other)
    · obtain ⟨type, fields, here, refs⟩ := records id low high
      exact ⟨type, fields, here, fun other member => (refs other member).imp_right (more other)⟩
  | .nested inner :: rest, field :: fields, first, next, ⟨isRef, middle, copied, inside⟩ => by
    have front := Copied.next_eq inner copied
    have back := CopiedSlots.next_eq rest inside
    obtain ⟨named, records⟩ := CopiedSlots.record rest inside
    have positive : 0 < inner.currentCount := by
      cases inner
      rw [StackStruct.currentCount]
      lia
    refine ⟨fun other member => ?_, fun id low high => ?_⟩
    · rcases List.mem_cons.mp member with isField | later
      · cases isField.trans isRef
        exact Or.inl ⟨Nat.le_refl _, by lia⟩
      · exact (named other later).imp (fun ⟨above, below⟩ => ⟨by lia, below⟩)
          (List.mem_append_right _)
    · rcases Nat.lt_or_ge id middle with before | behind
      · obtain ⟨type, fields, here, refs⟩ := Copied.record inner copied id low before
        exact ⟨type, fields, here, fun other member => (refs other member).imp
          (fun ⟨above, below⟩ => ⟨above, by lia⟩) (List.mem_append_left _)⟩
      · obtain ⟨type, fields, here, refs⟩ := records id behind high
        exact ⟨type, fields, here, fun other member =>
          (refs other member).imp_right (List.mem_append_right _)⟩
  | [], _ :: _, _, _, copied | .plain _ :: _, [], _, _, copied
  | .nested _ :: _, [], _, _, copied => by simp [CopiedSlots] at copied

end

/-- What is reached from a copy is part of it, or reached from what the struct refers to. -/
theorem Copied.bounded {roots : List ObjectId} {struct : StackStruct} {first next : ObjectId}
    (copied : Copied heap struct first next) (inside : next ≤ heap.nextId)
    (bounded : heap.Bounded roots) (named : ∀ id ∈ struct.references, id ∈ roots) :
    heap.Bounded (first :: roots) := by
  have size := Copied.next_eq struct copied
  have positive : 0 < struct.currentCount := by
    cases struct
    rw [StackStruct.currentCount]
    lia
  have either : ∀ id, Reaches heap.objects (first :: roots) id →
      (first ≤ id ∧ id < next) ∨ Reaches heap.objects roots id := by
    intro id reached
    induction reached with
    | root member =>
      rcases List.mem_cons.mp member with same | isRoot
      · exact Or.inl (by lia)
      · exact Or.inr (.root isRoot)
    | @next id other object _ present member ih =>
      rcases ih with ⟨low, high⟩ | reached
      · obtain ⟨type, fields, here, refs⟩ := Copied.record struct copied id low high
        cases here.symm.trans present
        rcases refs other member with ⟨above, below⟩ | isNamed
        · exact Or.inl ⟨by lia, below⟩
        · exact Or.inr (.root (named other isNamed))
      · exact Or.inr (.next reached present member)
  intro id reached
  rcases either id reached with ⟨_, high⟩ | old
  · lia
  · exact bounded id old

/-- Heaps that agree on what is reached from a copy have the copy. -/
theorem Copied.retained {roots : List ObjectId} {struct : StackStruct} {first next : ObjectId}
    (copied : Copied heap struct first next) (rooted : first ∈ roots)
    (retains : heap.Retains roots other) : Copied other struct first next := by
  refine Copied.congr struct copied fun id low high => retains.kept id ?_
  refine (Copied.reaches struct copied id low high).mono fun root isRoot => .root ?_
  rwa [List.mem_singleton.mp isRoot]

/-- Slots that are not filled yet. -/
def blanks (slots : List Slot) : List Slot :=
  slots.map fun _ => .plain .nil

theorem slotReferences_blanks (slots : List Slot) :
    StackStruct.slotReferences (blanks slots) = [] := by
  induction slots with
  | nil => rfl
  | cons _ rest ih => exact ih

theorem CopiedSlots.fillPlain {filled rest : List Slot} {old value : Value} {fields : List Value}
    {first next : ObjectId}
    (copied : CopiedSlots heap (filled ++ .plain old :: rest) fields first next) :
    CopiedSlots heap (filled ++ .plain value :: rest) (fields.set filled.length value) first next :=
    by
  induction filled generalizing fields first with
  | nil =>
    cases fields with
    | nil => simp [CopiedSlots] at copied
    | cons field fields => exact ⟨rfl, copied.2⟩
  | cons slot filled ih =>
    cases fields with
    | nil => cases slot <;> simp [CopiedSlots] at copied
    | cons field fields =>
      cases slot with
      | plain _ => exact ⟨copied.1, ih copied.2⟩
      | nested inner =>
        obtain ⟨isRef, middle, isCopy, inside⟩ := copied
        exact ⟨isRef, middle, isCopy, ih inside⟩

theorem CopiedSlots.blank (rest : List Slot) {fields : List Value} {first next : ObjectId}
    (copied : CopiedSlots heap (blanks rest) fields first next) (start : ObjectId) :
    next = first ∧ CopiedSlots heap (blanks rest) fields start start := by
  induction rest generalizing fields with
  | nil =>
    cases fields with
    | nil => exact ⟨copied, rfl⟩
    | cons _ _ => simp [blanks, CopiedSlots] at copied
  | cons slot rest ih =>
    cases fields with
    | nil => simp [blanks, CopiedSlots] at copied
    | cons field fields =>
      obtain ⟨same, inside⟩ := ih copied.2
      exact ⟨same, copied.1, inside⟩

theorem CopiedSlots.fillNested {filled rest : List Slot} {inner : StackStruct} {old : Value}
    {fields : List Value} {first middle next : ObjectId}
    (copied : CopiedSlots heap (filled ++ .plain old :: blanks rest) fields first middle)
    (isCopy : Copied heap inner middle next) :
    CopiedSlots heap (filled ++ .nested inner :: blanks rest)
      (fields.set filled.length (.ref middle)) first next := by
  induction filled generalizing fields first with
  | nil =>
    cases fields with
    | nil => simp [CopiedSlots] at copied
    | cons field fields =>
      obtain ⟨rfl, inside⟩ := CopiedSlots.blank rest copied.2 next
      exact ⟨rfl, next, isCopy, inside⟩
  | cons slot filled ih =>
    cases fields with
    | nil => cases slot <;> simp [CopiedSlots] at copied
    | cons field fields =>
      cases slot with
      | plain _ => exact ⟨copied.1, ih copied.2⟩
      | nested other =>
        obtain ⟨isRef, between, before, inside⟩ := copied
        exact ⟨isRef, between, before, ih inside⟩

end Copies

/-- What is kept from one heap to the next and from there on is kept altogether. -/
theorem Retains.after {few many : List ObjectId} {before middle after : Heap}
    (first : Retains few before middle) (second : Retains many middle after)
    (among : ∀ id ∈ few, id ∈ many) : Retains few before after where
  grown := Nat.le_trans first.grown second.grown
  kept id reached := by
    have still : Reaches middle.objects many id := .transfer first.kept among reached
    rw [second.kept id still, first.kept id reached]
  old below found := first.old below (second.old (Nat.lt_of_lt_of_le below first.grown) found)

end Heap

namespace Machine

/-- An action that changes nothing but the heap, and only fails if the heap has a limit. -/
def Allots {α : Type} (action : Exec α) (machine : Machine) (done : α → Heap → Prop) : Prop :=
  (∃ result heap, action machine = .ok result { machine with heap } ∧
    heap.config = machine.heap.config ∧ done result heap) ∨
  machine.heap.config.limit ≠ 0 ∧ ∃ failure trace heap,
    action machine = .error (.fault ⟨.exhausted failure, trace⟩) { machine with heap }

section Rules

variable {α β : Type} {machine : Machine}

theorem allots_pure {result : α} {done : α → Heap → Prop} (holds : done result machine.heap) :
    Allots (pure result) machine done :=
  Or.inl ⟨result, machine.heap, rfl, rfl, holds⟩

theorem allots_bind {first : Exec β} {rest : β → Exec α} {middle : β → Heap → Prop}
    {done : α → Heap → Prop} (begins : Allots first machine middle)
    (goesOn : ∀ result heap, middle result heap → Allots (rest result) { machine with heap } done) :
    Allots (first >>= rest) machine done := by
  rcases begins with ⟨result, heap, ran, config, holds⟩ | ⟨limited, failure, trace, heap, failed⟩
  · have ran' : (first >>= rest) machine = rest result { machine with heap } := by
      simp only [bind, EStateM.bind, ran]
    rcases goesOn result heap holds with ⟨last, after, isRun, same, done⟩ | ⟨limited, stopped⟩
    · exact Or.inl ⟨last, after, ran'.trans isRun, same.trans config, done⟩
    · exact Or.inr ⟨config ▸ limited, ran' ▸ stopped⟩
  · refine Or.inr ⟨limited, failure, trace, heap, ?_⟩
    simp only [bind, EStateM.bind, failed]

theorem Allots.mono {action : Exec α} {done weaker : α → Heap → Prop}
    (allots : Allots action machine done)
    (implies : ∀ result heap, done result heap → weaker result heap) :
    Allots action machine weaker := by
  rcases allots with ⟨result, heap, ran, config, holds⟩ | failed
  · exact Or.inl ⟨result, heap, ran, config, implies result heap holds⟩
  · exact Or.inr failed

theorem allots_setField {id : ObjectId} {slot : Nat} {value : Value} {done : Unit → Heap → Prop}
    {type : StructId} {fields : List Value}
    (here : machine.heap.get? id = some (.record type fields.toArray))
    (holds : done () (machine.heap.set id (.record type (fields.set slot value).toArray))) :
    Allots (modifyHeap fun heap => heap.setField id slot value) machine done := by
  refine Or.inl ⟨(), machine.heap.set id (.record type (fields.set slot value).toArray), ?_, rfl,
    holds⟩
  change EStateM.Result.ok () { machine with heap := machine.heap.setField id slot value } = _
  rw [setField_eq here, List.setIfInBounds_toArray]

/-- A new instance, and what was reached from the roots. -/
theorem allots_newRecord {pinned : List ObjectId}
    (bounded : machine.heap.Bounded (pinned ++ machine.roots)) (type : StructId) (count : Nat) :
    Allots (allocating pinned (Heap.newRecord · type count)) machine fun id heap =>
      id = machine.heap.nextId ∧ heap.nextId = id + 1 ∧
        heap.get? id = some (.record type (List.replicate count Value.nil).toArray) ∧
        machine.heap.Retains (pinned ++ machine.roots) heap := by
  let object : Object := .record type (Array.replicate count .nil)
  let roots : Unit → List ObjectId := fun _ => pinned ++ machine.roots
  let ready := machine.heap.prepared roots object.size.toUInt64
  have unchanged : machine.heap.Retains (pinned ++ machine.roots) machine.heap := .refl _ _
  have named : ∀ id ∈ pinned ++ machine.roots, id ∈ roots () := fun _ member => member
  have retains : machine.heap.Retains (pinned ++ machine.roots) ready := unchanged.prepared named _
  have requested := Heap.allocate_eq roots object machine.heap
  dsimp only at requested
  split at requested
  · next full =>
    have limited := Heap.overLimit_limited full
    rw [Heap.prepared_config] at limited
    refine Or.inr ⟨limited, ⟨object.size.toUInt64, ready.config.limit⟩, machine.trace, ready, ?_⟩
    simp only [allocating, Heap.newRecord, roots, object, ready] at requested ⊢
    rw [requested]
  · refine Or.inl ⟨ready.nextId, ready.link object, ?_, Heap.prepared_config _ _ _,
      Heap.prepared_nextId _ _ _, rfl, ?_, retains.link bounded object⟩
    · simp only [allocating, Heap.newRecord, roots, object, ready] at requested ⊢
      rw [requested]
    · rw [Heap.get?_link_self, List.toArray_replicate]

end Rules

section Copying

mutual

/-- A struct is copied to new instances. -/
theorem allots_promote : (struct : StackStruct) → {machine : Machine} → {pinned : List ObjectId} →
    machine.heap.Bounded (pinned ++ machine.roots) →
    (∀ id ∈ struct.references, id ∈ pinned ++ machine.roots) →
    Allots (promote pinned struct) machine fun id heap => id = machine.heap.nextId ∧
      heap.Copied struct id heap.nextId ∧ machine.heap.Retains (pinned ++ machine.roots) heap
  | .node node type slots displaced, machine, pinned, bounded, named => by
    rw [promote]
    refine allots_bind (allots_newRecord bounded type slots.length) fun id heap made => ?_
    obtain ⟨rfl, next, here, retains⟩ := made
    have copied : heap.Copied (.node node type ([] ++ Heap.blanks slots) displaced)
        machine.heap.nextId heap.nextId := by
      refine ⟨_, here, ?_⟩
      rw [next]
      clear here named
      induction slots with
      | nil => rfl
      | cons slot rest ih => exact ⟨rfl, ih⟩
    have fills := @allots_promoteSlots slots machine.heap { machine with heap } pinned _ node type []
      displaced bounded retains (Nat.le_refl _) copied named
    exact allots_bind fills fun _ after filled => allots_pure ⟨rfl, filled⟩

/-- A pinned instance that is filled with some slots is filled with the rest. -/
theorem allots_promoteSlots : (rest : List Slot) → {before : Heap} → {machine : Machine} →
    {pinned : List ObjectId} → {id : ObjectId} → {node : NodeId} → {type : StructId} →
    {filled : List Slot} → {displaced : List StackStruct} →
    before.Bounded (pinned ++ machine.roots) →
    before.Retains (pinned ++ machine.roots) machine.heap → before.nextId ≤ id →
    machine.heap.Copied (.node node type (filled ++ Heap.blanks rest) displaced) id
      machine.heap.nextId →
    (∀ id ∈ StackStruct.slotReferences (filled ++ rest), id ∈ pinned ++ machine.roots) →
    Allots (promoteSlots (id :: pinned) id filled.length rest) machine fun _ heap =>
      heap.Copied (.node node type (filled ++ rest) displaced) id heap.nextId ∧
        before.Retains (pinned ++ machine.roots) heap
  | [], before, machine, pinned, id, node, type, filled, displaced, _, retains, _, copied, _ => by
    rw [promoteSlots]
    exact allots_pure ⟨copied, retains⟩
  | .plain value :: rest, before, machine, pinned, id, node, type, filled, displaced, bounded,
      retains, new, copied, named => by
    obtain ⟨fields, here, inside⟩ := copied
    rw [promoteSlots]
    let heap := machine.heap.set id (.record type (fields.set filled.length value).toArray)
    have stored : Allots (modifyHeap fun heap => heap.setField id filled.length value) machine
        fun _ after => after = heap := allots_setField here rfl
    refine allots_bind stored fun _ _ same => ?_
    subst same
    have filling : heap.Copied
        (.node node type ((filled ++ [.plain value]) ++ Heap.blanks rest) displaced) id
        machine.heap.nextId := by
      refine ⟨_, Heap.get?_set_self here, ?_⟩
      rw [List.append_assoc]
      refine Heap.CopiedSlots.congr _ (Heap.CopiedSlots.fillPlain inside) fun other above _ => ?_
      exact Heap.get?_set_of_ne (by lia)
    have further := @allots_promoteSlots rest before { machine with heap } pinned id node type _
      displaced bounded (retains.set bounded new _) new filling (by rwa [List.append_assoc])
    rw [List.length_append, List.length_singleton, List.append_assoc] at further
    exact further
  | .nested inner :: rest, before, machine, pinned, id, node, type, filled, displaced, bounded,
      retains, new, copied, named => by
    have refs : StackStruct.slotReferences (filled ++ .nested inner :: rest)
        = StackStruct.slotReferences filled ++ (inner.references ++ StackStruct.slotReferences rest) :=
      StackStruct.slotReferences_append _ _
    have boundedNow : machine.heap.Bounded (id :: (pinned ++ machine.roots)) := by
      refine copied.bounded (Nat.le_refl _) (retains.bounded bounded) fun other member => ?_
      rw [StackStruct.references, StackStruct.slotReferences_append, Heap.slotReferences_blanks,
        List.append_nil] at member
      exact named other (refs ▸ List.mem_append_left _ member)
    rw [promoteSlots]
    refine allots_bind (allots_promote inner boundedNow fun other member =>
      List.mem_cons_of_mem _ (named other (refs ▸ List.mem_append_right _
        (List.mem_append_left _ member)))) fun moved heap made => ?_
    obtain ⟨rfl, isCopy, kept⟩ := made
    obtain ⟨fields, here, inside⟩ := copied.retained List.mem_cons_self kept
    have retainsNow := retains.after kept fun other member => List.mem_cons_of_mem _ member
    let after := heap.set id (.record type (fields.set filled.length (.ref machine.heap.nextId)).toArray)
    have stored : Allots (modifyHeap fun heap =>
        heap.setField id filled.length (.ref machine.heap.nextId)) { machine with heap }
        fun _ changed => changed = after := allots_setField here rfl
    refine allots_bind stored fun _ _ same => ?_
    subst same
    have filling : after.Copied
        (.node node type ((filled ++ [.nested inner]) ++ Heap.blanks rest) displaced) id
        heap.nextId := by
      refine ⟨_, Heap.get?_set_self here, ?_⟩
      rw [List.append_assoc]
      refine Heap.CopiedSlots.congr _ (Heap.CopiedSlots.fillNested inside isCopy)
        fun other above _ => ?_
      exact Heap.get?_set_of_ne (by lia)
    have further := @allots_promoteSlots rest before { machine with heap := after } pinned id node
      type _ displaced bounded (retainsNow.set bounded new _) new filling
      (by rwa [List.append_assoc])
    rw [List.length_append, List.length_singleton, List.append_assoc] at further
    exact further

end

end Copying

end Machine

end ScriptMachine
