import ScriptMachine.Proofs.Twins.Arenas

set_option autoImplicit false

/- The actions on frame-owned structs, side by side: copying a struct into a frame, storing into a slot
and moving a struct to the heap. -/
namespace ScriptMachine.Machine

variable {said : Array UInt8} {pairs : Pairing} {left right : Machine}
  {struct struct' : StackStruct} {value value' : Value}

section Copying

/-- A struct named on both sides. -/
theorem abreast_struct {done : StackStruct → StackStruct → Machine → Machine → Prop}
    (twin : Twin pairs left right) (node : NodeId)
    (next : ∀ struct struct', struct.Twin pairs struct' → done struct struct' left right) :
    Abreast said (Machine.struct node) (Machine.struct node) left right done := by
  simp only [Machine.struct, abreast_get_bind]
  exact abreast_given fun struct struct' here there => next struct struct' (twin.nodes here there)

theorem abreast_charge {bytes bytes' : UInt64} {position : Nat}
    {done : Unit → Unit → Machine → Machine → Prop} (twin : Twin pairs left right)
    (output : left.output = said)
    (next : ∀ left' right', Thins left left' → Thins right right' →
      Goes pairs left right pairs left' right' → done () () left' right') :
    Abreast said (charge position bytes) (charge position bytes') left right done :=
  .of_alone (alone_charge twin.numbered.unique output)
    (alone_charge twin.numbered'.unique (twin.output.trans output))
    fun _ _ left' right' thins thins' => next left' right' thins thins' (twin.thinned thins thins')

theorem Goes.withFrames {left' right' : Machine} {frames frames' : List Frame}
    (goes : Goes pairs left right pairs left' right')
    (twin : Twin pairs { left' with frames } { right' with frames := frames' }) :
    Goes pairs left right pairs { left' with frames } { right' with frames := frames' } :=
  ⟨goes.larger, twin, goes.older, goes.older', goes.said⟩

theorem abreast_adopt {base : NodeId} {position : Nat} {done : Value → Value → Machine → Machine → Prop}
    (twin : Twin pairs left right) (spare : Spare base left struct.ids)
    (spare' : Spare base right struct'.ids) (matched : Matched pairs struct struct')
    (output : left.output = said)
    (next : ∀ left' right', Goes pairs left right pairs left' right' →
      done (.stack struct.id) (.stack struct'.id) left' right') :
    Abreast said (adopt position struct) (adopt position struct') left right done := by
  refine abreast_bind (abreast_charge twin output fun left' right' thins thins' goes => ?_)
  simp only [modifyFrame, abreast_modify_bind, abreast_pure]
  exact next _ _ (goes.withFrames (goes.twin.adopt (spare.thin thins) (spare'.thin thins') matched))

/-- Copies of twins take up the same identifiers on both sides. -/
theorem abreast_fresh {done : StackStruct → StackStruct → Machine → Machine → Prop}
    (twin : Twin pairs left right) (same : struct.Twin pairs struct')
    (next : ∀ copy copy' next, left.nextNode ≤ next →
      Twin pairs { left with nextNode := next } { right with nextNode := next } →
      Spare left.nextNode { left with nextNode := next } copy.ids →
      Spare left.nextNode { right with nextNode := next } copy'.ids → Matched pairs copy copy' →
      done copy copy' { left with nextNode := next } { right with nextNode := next }) :
    Abreast said (fresh struct) (fresh struct') left right done := by
  obtain ⟨sameNext, alike, inside⟩ := StackStruct.Twin.clone struct same left.nextNode
  have above := StackStruct.clone_next_lt struct left.nextNode
  have spare := spare_clone twin.numbered struct
  have spare' := spare_clone twin.numbered' struct'
  rw [twin.nextNode, ← sameNext] at spare'
  have goesOn : done (struct.clone left.nextNode).1 (struct'.clone left.nextNode).1
      { left with nextNode := (struct.clone left.nextNode).2 }
      { right with nextNode := (struct.clone left.nextNode).2 } := by
    refine next _ _ _ (Nat.le_of_lt above) ?_ spare spare' ⟨alike, inside⟩
    exact { twin with
      nextNode := rfl
      numbered := ⟨twin.numbered.unique, fun id member =>
        Nat.lt_trans (twin.numbered.below id member) above⟩
      numbered' := ⟨twin.numbered'.unique, fun id member =>
        Nat.lt_trans (twin.nextNode ▸ twin.numbered'.below id member) above⟩ }
  unfold Abreast fresh
  simp only [modifyGet_run]
  rw [twin.nextNode, ← sameNext]
  exact .both goesOn

/-- A frame gets a copy on both sides. -/
theorem abreast_copyInto {position : Nat} {done : Value → Value → Machine → Machine → Prop}
    (twin : Twin pairs left right) (same : struct.Twin pairs struct') (output : left.output = said)
    (next : ∀ value left' right', Goes pairs left right pairs left' right' →
      done (.stack value) (.stack value) left' right') :
    Abreast said (copyInto position struct) (copyInto position struct') left right done := by
  refine abreast_bind (abreast_fresh twin same fun copy copy' nextNode _ twin' spare spare' matched => ?_)
  refine abreast_adopt twin' spare spare' matched output fun left' right' goes => ?_
  rw [← matched.twin.id_eq]
  exact next _ _ _ ⟨goes.larger, goes.twin, goes.older, goes.older', goes.said⟩

/-- The initialisers of a struct literal. -/
theorem abreast_fillStruct {base : NodeId} {entries entries' : List (Nat × Value)}
    {done : StackStruct → StackStruct → Machine → Machine → Prop}
    (same : List.Forall₂ (fun entry entry' : Nat × Value =>
      entry'.1 = entry.1 ∧ entry.2.Twin pairs entry'.2) entries entries') :
    ∀ {left right : Machine} {struct struct' : StackStruct}, Twin pairs left right →
      Spare base left struct.ids → Spare base right struct'.ids → Matched pairs struct struct' →
      (∀ struct struct' left' right', Goes pairs left right pairs left' right' →
        Spare base left' struct.ids → Spare base right' struct'.ids → Matched pairs struct struct' →
        done struct struct' left' right') →
      Abreast said (fillStruct struct entries) (fillStruct struct' entries') left right done := by
  induction same with
  | nil =>
    intro left right struct struct' twin spare spare' matched next
    exact abreast_pure.mpr (next struct struct' left right twin.goes spare spare' matched)
  | @cons entry entry' rest rest' first _ ih =>
    intro left right struct struct' twin spare spare' matched next
    obtain ⟨slot, value⟩ := entry
    obtain ⟨slot', value'⟩ := entry'
    obtain ⟨same, alike⟩ := first
    dsimp only at same alike
    subst same
    have plainly : ∀ {value value' : Value}, value.Twin pairs value' →
        Abreast said (fillStruct (struct.store slot' (.plain value)) rest)
          (fillStruct (struct'.store slot' (.plain value')) rest') left right done := by
      intro value value' alike
      refine ih twin (spare.store (spare_plain twin.numbered value) (Nat.le_refl _) slot')
        (spare'.store (spare_plain twin.numbered' value') (Nat.le_refl _) slot') ?_ next
      have upper' := spare'.upper
      rw [twin.nextNode] at upper'
      exact matched.store slot' (.plain alike) spare.unique spare'.unique spare.upper upper' (by simp)
        (by simp)
    cases alike with
    | stack node =>
      simp only [fillStruct]
      refine abreast_bind (abreast_struct twin node fun source source' same => ?_)
      refine abreast_bind (abreast_fresh twin same
        fun copy copy' nextNode above twin' fresh fresh' matched' => ?_)
      rw [← Slot.ids_nested] at fresh fresh'
      have upper' := spare'.upper
      rw [twin.nextNode] at upper'
      have stored := spare.store fresh above slot'
      have stored' := spare'.store (twin.nextNode ▸ fresh') (twin.nextNode ▸ above) slot'
      refine ih twin' stored stored' ?_ fun struct struct' left' right' goes => ?_
      · refine matched.store slot' (.nested matched') spare.unique spare'.unique spare.upper upper' ?_ ?_
        · exact fun id member => fresh.lower id member
        · exact fun id member => fresh'.lower id member
      · exact next struct struct' left' right'
          ⟨goes.larger, goes.twin, goes.older, goes.older', goes.said⟩
    | nil => exact plainly .nil
    | bool value => exact plainly (.bool value)
    | number value => exact plainly (.number value)
    | ref paired => exact plainly (.ref paired)

end Copying

section Promoting

theorem abreast_modifyHeap {change change' : Heap → Heap} {more : Pairing}
    {done : Unit → Unit → Machine → Machine → Prop} (twin : Twin pairs left right)
    (goes : Heap.Goes pairs left.heap right.heap more (change left.heap) (change' right.heap))
    (next : ∀ heap heap', Goes pairs left right more { left with heap } { right with heap := heap' } →
      done () () { left with heap } { right with heap := heap' }) :
    Abreast said (modifyHeap change) (modifyHeap change') left right done :=
  abreast_modify.mpr (next _ _ (twin.withHeap goes))

mutual

/-- A struct is moved to the heap on both sides. -/
theorem abreast_promote : (struct : StackStruct) → ∀ {struct' : StackStruct} {pairs : Pairing}
    {left right : Machine} {pinned pinned' : List ObjectId}
    {done : ObjectId → ObjectId → Machine → Machine → Prop},
    struct.Twin pairs struct' → Twin pairs left right → left.output = said →
    (∀ more a b heap heap', Goes pairs left right more { left with heap } { right with heap := heap' } →
      more a b → done a b { left with heap } { right with heap := heap' }) →
    Abreast said (promote pinned struct) (promote pinned' struct') left right done
  | .node _ type slots _, .node _ _ slots' _, pairs, left, right, pinned, pinned', done, same, twin,
      output, next => by
    obtain ⟨_, rfl, inside⟩ := same
    have length : slots'.length = slots.length :=
      (StackStruct.twinSlots_iff.mp inside).length_eq.symm
    simp only [promote, Heap.newRecord, length]
    refine abreast_bind (abreast_allocate twin (by simp) (by simp)
      (.record type (.replicate .nil _)) output fun more a b heap heap' goes paired _ _ => ?_)
    refine abreast_bind (abreast_promoteSlots slots (inside.mono goes.larger) goes.twin paired output
      fun most heap heap' goes' => ?_)
    exact abreast_pure.mpr (next most a b heap heap' (goes.trans goes') (goes'.larger _ _ paired))

theorem abreast_promoteSlots : (slots : List Slot) → ∀ {slots' : List Slot} {pairs : Pairing}
    {left right : Machine} {pinned pinned' : List ObjectId} {a b : ObjectId} {index : Nat}
    {done : Unit → Unit → Machine → Machine → Prop},
    StackStruct.TwinSlots pairs slots slots' → Twin pairs left right → pairs a b →
    left.output = said →
    (∀ more heap heap', Goes pairs left right more { left with heap } { right with heap := heap' } →
      done () () { left with heap } { right with heap := heap' }) →
    Abreast said (promoteSlots pinned a index slots) (promoteSlots pinned' b index slots') left right
      done
  | [], [], pairs, left, right, _, _, _, _, _, done, _, twin, _, _, next =>
    abreast_pure.mpr (next pairs left.heap right.heap twin.goes)
  | .plain _ :: rest, .plain _ :: rest', pairs, left, right, _, _, _, _, _, done, same, twin, paired,
      output, next => by
    simp only [promoteSlots]
    refine abreast_bind (abreast_modifyHeap twin (twin.heap.setField paired _ same.1)
      fun heap heap' goes => ?_)
    exact abreast_promoteSlots rest same.2 goes.twin paired output fun more heap heap' goes' =>
      next more heap heap' (goes.trans goes')
  | .nested inner :: rest, .nested inner' :: rest', pairs, left, right, _, _, _, _, _, done, same, twin,
      paired, output, next => by
    simp only [promoteSlots]
    refine abreast_bind (abreast_promote inner same.1 twin output
      fun more moved moved' heap heap' goes joined => ?_)
    refine abreast_bind (abreast_modifyHeap goes.twin
      (goes.twin.heap.setField (goes.larger _ _ paired) _ (.ref joined)) fun heap heap' goes' => ?_)
    have stored := goes.trans goes'
    exact abreast_promoteSlots rest (same.2.mono stored.larger) stored.twin (stored.larger _ _ paired)
      output fun most heap heap' goes'' => next most heap heap' (stored.trans goes'')
  | [], .plain _ :: _, _, _, _, _, _, _, _, _, _, same, _, _, _, _
  | [], .nested _ :: _, _, _, _, _, _, _, _, _, _, same, _, _, _, _
  | .plain _ :: _, [], _, _, _, _, _, _, _, _, _, same, _, _, _, _
  | .nested _ :: _, [], _, _, _, _, _, _, _, _, _, same, _, _, _, _
  | .plain _ :: _, .nested _ :: _, _, _, _, _, _, _, _, _, _, same, _, _, _, _
  | .nested _ :: _, .plain _ :: _, _, _, _, _, _, _, _, _, _, same, _, _, _, _ => by
    simp [StackStruct.TwinSlots] at same

end

/-- A value is made fit for the heap on both sides. -/
theorem abreast_heapValue {pinned pinned' : List ObjectId}
    {done : Value → Value → Machine → Machine → Prop} (twin : Twin pairs left right)
    (same : value.Twin pairs value') (output : left.output = said)
    (next : ∀ more value value' heap heap',
      Goes pairs left right more { left with heap } { right with heap := heap' } →
      value.Twin more value' → done value value' { left with heap } { right with heap := heap' }) :
    Abreast said (heapValue pinned value) (heapValue pinned' value') left right done := by
  cases same with
  | stack node =>
    simp only [heapValue]
    refine abreast_bind (abreast_struct twin node fun struct struct' alike => ?_)
    refine abreast_bind (abreast_promote struct alike twin output
      fun more a b heap heap' goes paired => ?_)
    exact abreast_pure.mpr (next more _ _ heap heap' goes (.ref paired))
  | nil => exact abreast_pure.mpr (next pairs _ _ left.heap right.heap twin.goes .nil)
  | bool value => exact abreast_pure.mpr (next pairs _ _ left.heap right.heap twin.goes (.bool value))
  | number value =>
    exact abreast_pure.mpr (next pairs _ _ left.heap right.heap twin.goes (.number value))
  | ref paired => exact abreast_pure.mpr (next pairs _ _ left.heap right.heap twin.goes (.ref paired))

end Promoting

section Leaving

/-- The innermost call ends on both sides. -/
theorem abreast_popFrame {done : Unit → Unit → Machine → Machine → Prop} (twin : Twin pairs left right)
    (next : ∀ left' right', Twin pairs left' right' → left'.stack = left.stack →
      left'.output = left.output → done () () left' right') :
    Abreast said popFrame popFrame left right done := by
  simp only [popFrame, topFrame]
  refine abreast_bind ?_
  rw [abreast_get_bind]
  refine abreast_given fun frame frame' _ _ => ?_
  refine abreast_modify.mpr (next _ _ ?_ rfl rfl)
  have dropped := twin.withFrames (List.forall₂_drop 1 twin.frames)
    ((List.drop_sublist 1 left.frames).flatMap _) ((List.drop_sublist 1 right.frames).flatMap _)
  exact dropped.recount (.of_same rfl rfl rfl) (.of_same rfl rfl rfl)

end Leaving

end ScriptMachine.Machine
