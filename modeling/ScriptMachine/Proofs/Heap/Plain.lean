import ScriptMachine.Proofs.Heap.Table
import ScriptMachine.Proofs.Invariant
import ScriptMachine.Proofs.StackStruct.Plain

set_option autoImplicit false

/- Heap-lived storage without frame-owned structs. A field of an instance, a closed cell and a
constant outlive every frame, so none of them may name a struct that some frame owns. -/
namespace ScriptMachine

/-- An object that names no frame-owned struct. -/
def Object.Plain : Object → Prop
  | .function prototype => ∀ value ∈ prototype.constants, value.Plain
  | .cell (.closed value) => value.Plain
  | .record _ fields => ∀ value ∈ fields, value.Plain
  | _ => True

namespace Heap

def Plain (heap : Heap) : Prop :=
  ∀ (id : ObjectId) (object : Object), heap.get? id = some object → object.Plain

section Operations

variable {heap : Heap} {roots : Unit → List ObjectId}

theorem plain_empty (config : HeapConfig) : (empty config).Plain := by
  intro id object found
  simp at found

theorem Plain.of_same {other : Heap} (isPlain : heap.Plain)
    (objects : other.objects = heap.objects) : other.Plain := by
  intro id object found
  rw [get?, objects] at found
  exact isPlain _ _ found

theorem Plain.collect (isPlain : heap.Plain) (roots : List ObjectId) : (heap.collect roots).Plain :=
  fun _ _ found => isPlain _ _ (get?_collect.mp found).1

theorem Plain.prepared (isPlain : heap.Plain) (bytes : UInt64) : (heap.prepared roots bytes).Plain :=
  fun _ _ found => isPlain _ _ (get?_of_prepared found)

theorem Plain.link (isPlain : heap.Plain) {object : Object} (stored : object.Plain) :
    (heap.link object).Plain := by
  intro id found present
  rw [get?_link] at present
  split at present
  · cases present
    exact stored
  · exact isPlain _ _ present

theorem Plain.set (isPlain : heap.Plain) {id : ObjectId} {object : Object} (stored : object.Plain) :
    (heap.set id object).Plain := by
  intro other found present
  rw [get?_set] at present
  split at present
  · obtain ⟨_, _, same⟩ := Option.map_eq_some_iff.mp present
    rwa [← same]
  · exact isPlain _ _ present

theorem Plain.setField (isPlain : heap.Plain) {id : ObjectId} {slot : Nat} {value : Value}
    (stored : value.Plain) : (heap.setField id slot value).Plain := by
  unfold Heap.setField
  split
  · next type fields found =>
    have replaced : (Object.record type (fields.setIfInBounds slot value)).Plain := by
      intro other member
      rcases Array.mem_or_eq_of_mem_setIfInBounds member with old | new
      · exact isPlain _ _ found other old
      · rwa [new]
    exact isPlain.set replaced
  · exact isPlain

theorem Plain.setUpvalue (isPlain : heap.Plain) {id : ObjectId} {index : Nat}
    {cell : Option ObjectId} : (heap.setUpvalue id index cell).Plain := by
  unfold Heap.setUpvalue
  split
  · next prototype upvalues _ =>
    have replaced : (Object.closure prototype (upvalues.setIfInBounds index cell)).Plain := trivial
    exact isPlain.set replaced
  · exact isPlain

end Operations

section Requests

variable (roots : Unit → List ObjectId)

instance (bytes : UInt64) : Keeps Plain (makeRoom roots bytes) where
  left {heap} isPlain := by
    rw [makeRoom_eq]
    split <;> exact Plain.prepared isPlain bytes

theorem keeps_allocate {object : Object} (stored : object.Plain) :
    Keeps Plain (allocate roots object) := by
  have : Keeps Plain (modifyGet fun heap => (heap.nextId, heap.link object) : Action ObjectId) :=
    keeps_modifyGet fun _ isPlain => Plain.link isPlain stored
  exact inferInstanceAs (Keeps Plain (_ >>= _))

instance (text : Text) : Keeps Plain (intern roots text) := by
  have allocates : Keeps Plain (allocate roots (.string text)) := keeps_allocate roots trivial
  have files : ∀ id, Keeps Plain
      (modify fun heap => { heap with interned := heap.interned.insert text id } : Action Unit) :=
    fun _ => keeps_modify fun _ isPlain => Plain.of_same isPlain rfl
  unfold intern
  refine Keeps.andThen inferInstance fun heap => ?_
  split <;> infer_instance

instance (bytes : UInt64) : Keeps Plain (reserve roots bytes) := by
  have : Keeps Plain
      (modify fun heap => { heap with bytes := heap.bytes + bytes } : Action Unit) :=
    keeps_modify fun _ isPlain => Plain.of_same isPlain rfl
  unfold reserve
  infer_instance

instance : Keeps Plain (newFunction roots) :=
  keeps_allocate roots fun value member => by simp at member

instance (prototype : ObjectId) : Keeps Plain (newClosure roots prototype) := by
  have : ∀ count, Keeps Plain (allocate roots (.closure prototype (Array.replicate count none))) :=
    fun _ => keeps_allocate roots trivial
  unfold newClosure
  infer_instance

instance (slot : Nat) : Keeps Plain (newCell roots slot) :=
  keeps_allocate roots trivial

instance (type : StructId) (fieldCount : Nat) : Keeps Plain (newRecord roots type fieldCount) := by
  refine keeps_allocate roots fun value member => ?_
  rw [(Array.mem_replicate.mp member).2]
  rfl

instance (native : Native) : Keeps Plain (newNative roots native) :=
  keeps_allocate roots trivial

end Requests

end Heap

end ScriptMachine
