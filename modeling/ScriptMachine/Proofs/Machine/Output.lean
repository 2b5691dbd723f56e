import ScriptMachine.Machine
import ScriptMachine.Proofs.Invariant

set_option autoImplicit false

/- What has been printed stays printed: every action appends to the output or leaves it alone. -/
namespace ScriptMachine.Machine

/-- The output begins with what had been said before. -/
def Said (said : Array UInt8) (machine : Machine) : Prop :=
  ∃ text : Text, machine.output = said ++ text

variable {said : Array UInt8} {machine : Machine}

theorem Said.refl (machine : Machine) : Said machine.output machine :=
  ⟨[], by simp⟩

section Basics

/-- A change of anything but the output. -/
theorem keeps_silently {change : Machine → Machine}
    (same : ∀ machine, (change machine).output = machine.output) :
    Keeps (Said said) (modify change : Exec Unit) :=
  keeps_modify fun machine holds => by
    rw [Said, same]
    exact holds

instance {α : Type} (fault : Fault) : Keeps (Said said) (fail fault : Exec α) where
  left holds := holds

instance {α : Type} : Keeps (Said said) (goWrong : Exec α) :=
  inferInstanceAs (Keeps (Said said) (throw _ : Exec α))

/-- Nothing runs behind a fault. -/
instance {α β : Type} (fault : Fault) (rest : β → Exec α) :
    Keeps (Said said) (fail fault >>= rest) where
  left holds := holds

instance {α β : Type} (rest : β → Exec α) : Keeps (Said said) (goWrong >>= rest) where
  left holds := holds

instance {α : Type} (value : Option α) : Keeps (Said said) (given value) := by
  cases value
  · exact inferInstanceAs (Keeps (Said said) goWrong)
  · exact inferInstanceAs (Keeps (Said said) (pure _))

instance {α : Type} (pinned : List ObjectId) (action : (Unit → List ObjectId) → Heap.Action α) :
    Keeps (Said said) (allocating pinned action) where
  left {machine} holds := by
    unfold allocating
    split <;> exact holds

instance (change : Heap → Heap) : Keeps (Said said) (modifyHeap change) :=
  keeps_silently fun _ => rfl

instance (value : Value) : Keeps (Said said) (push value) := by
  have : Keeps (Said said) (modify fun machine => { machine with stack := machine.stack.push value }) :=
    keeps_silently fun _ => rfl
  unfold push
  infer_instance

instance (distance : Nat) : Keeps (Said said) (peek distance) := by
  unfold peek
  infer_instance

instance : Keeps (Said said) pop := by
  have : Keeps (Said said) (modify fun machine => { machine with stack := machine.stack.pop }) :=
    keeps_silently fun _ => rfl
  unfold pop
  infer_instance

instance (index : Nat) : Keeps (Said said) (slot index) := by
  unfold slot
  infer_instance

instance (index : Nat) (value : Value) : Keeps (Said said) (setSlot index value) := by
  have : Keeps (Said said)
      (modify fun machine => { machine with stack := machine.stack.setIfInBounds index value }) :=
    keeps_silently fun _ => rfl
  unfold setSlot
  infer_instance

instance (value : Value) : Keeps (Said said) (setTop value) := by
  unfold setTop
  infer_instance

instance (size : Nat) : Keeps (Said said) (shrink size) :=
  keeps_silently fun _ => rfl

instance : Keeps (Said said) topFrame := by
  unfold topFrame
  infer_instance

instance (index : Nat) (change : Frame → Frame) : Keeps (Said said) (Machine.modifyFrame index change) :=
  keeps_silently fun _ => rfl

instance (text : Text) : Keeps (Said said) (write text) :=
  keeps_modify fun machine holds => by
    obtain ⟨before, printed⟩ := holds
    exact ⟨before ++ text, Array.ext' (by simp [printed])⟩

end Basics

section Structs

instance (index : Nat) : Keeps (Said said) (sweepArena index) := by
  have releases : ∀ freed, Keeps (Said said) (modify fun machine =>
      { machine with
        heap := machine.heap.release freed
        arenaBytes := machine.arenaBytes - freed } : Exec Unit) :=
    fun _ => keeps_silently fun _ => rfl
  unfold sweepArena
  dsimp only
  infer_instance

instance (index : Nat) (bytes : UInt64) : Keeps (Said said) (charge index bytes) := by
  have charges : Keeps (Said said)
      (modify fun machine => { machine with arenaBytes := machine.arenaBytes + bytes }) :=
    keeps_silently fun _ => rfl
  unfold charge
  dsimp only
  infer_instance

instance (index : Nat) (struct : StackStruct) : Keeps (Said said) (adopt index struct) := by
  unfold adopt
  infer_instance

instance (struct : StackStruct) : Keeps (Said said) (fresh struct) :=
  keeps_modifyGet fun _ holds => holds

instance (index : Nat) (struct : StackStruct) : Keeps (Said said) (copyInto index struct) := by
  unfold copyInto
  infer_instance

instance (id : NodeId) : Keeps (Said said) (Machine.struct id) := by
  unfold Machine.struct
  infer_instance

instance (id : NodeId) (change : StackStruct → StackStruct) :
    Keeps (Said said) (modifyStruct id change) :=
  keeps_silently fun _ => rfl

mutual

theorem keeps_said_promote : (struct : StackStruct) → (pinned : List ObjectId) →
    Keeps (Said said) (promote pinned struct)
  | .node _ type slots _, pinned => by
    have fills : ∀ id, Keeps (Said said) (promoteSlots (id :: pinned) id 0 slots) :=
      fun id => keeps_said_promoteSlots slots (id :: pinned) id 0
    rw [promote]
    infer_instance

theorem keeps_said_promoteSlots : (slots : List Slot) → (pinned : List ObjectId) → (id : ObjectId) →
    (index : Nat) → Keeps (Said said) (promoteSlots pinned id index slots)
  | [], _, _, _ => by
    rw [promoteSlots]
    infer_instance
  | .plain value :: rest, pinned, id, index => by
    have fills := keeps_said_promoteSlots rest pinned id (index + 1)
    rw [promoteSlots]
    infer_instance
  | .nested inner :: rest, pinned, id, index => by
    have moves := keeps_said_promote inner pinned
    have fills := keeps_said_promoteSlots rest pinned id (index + 1)
    rw [promoteSlots]
    infer_instance

end

instance (pinned : List ObjectId) (value : Value) : Keeps (Said said) (heapValue pinned value) := by
  have moves : ∀ struct, Keeps (Said said) (promote pinned struct) :=
    fun struct => keeps_said_promote struct pinned
  unfold heapValue
  split <;> infer_instance

instance : Keeps (Said said) popFrame := by
  unfold popFrame
  exact Keeps.andThen inferInstance fun _ => keeps_silently fun _ => rfl

end Structs

section Cells

instance (slot : Nat) : Keeps (Said said) (captureSlot slot) := by
  have files : ∀ cell, Keeps (Said said) (modify fun machine =>
      { machine with openCells := insertCell slot cell machine.openCells } : Exec Unit) :=
    fun _ => keeps_silently fun _ => rfl
  unfold captureSlot
  refine Keeps.andThen inferInstance fun machine => ?_
  split <;> infer_instance

instance (fromSlot : Nat) (cells : List (Nat × ObjectId)) :
    Keeps (Said said) (closeCellsOf fromSlot cells) := by
  induction cells with
  | nil =>
    rw [closeCellsOf]
    infer_instance
  | cons entry rest ih =>
    have closes : ∀ value, Keeps (Said said) (modify fun machine =>
        { machine with
          openCells := rest
          heap := machine.heap.set entry.2 (.cell (.closed value)) } : Exec Unit) :=
      fun _ => keeps_silently fun _ => rfl
    rw [closeCellsOf]
    split <;> infer_instance

instance (fromSlot : Nat) : Keeps (Said said) (closeCells fromSlot) := by
  unfold closeCells
  infer_instance

instance (frame : Frame) (index : Nat) : Keeps (Said said) (upvalueCell frame index) := by
  unfold upvalueCell
  refine Keeps.andThen inferInstance fun machine => ?_
  split
  · refine Keeps.andThen inferInstance fun id => Keeps.andThen inferInstance fun machine => ?_
    split <;> infer_instance
  · infer_instance

instance (id : ObjectId) (cell : Cell) (value : Value) : Keeps (Said said) (assignCell id cell value) := by
  unfold assignCell
  split
  · cases value <;> dsimp only <;> infer_instance
  · infer_instance

end Cells

section Calls

instance (index count : Nat) : Keeps (Said said) (copyArguments index count) := by
  induction count generalizing index with
  | zero =>
    rw [copyArguments]
    infer_instance
  | succ count ih =>
    rw [copyArguments]
    refine Keeps.andThen inferInstance fun value => ?_
    split <;> dsimp only <;> infer_instance

instance (closure : ObjectId) (argCount : Nat) : Keeps (Said said) (callClosure closure argCount) := by
  have enters : ∀ base, Keeps (Said said) (modify fun machine =>
      { machine with frames := { closure, base } :: machine.frames } : Exec Unit) :=
    fun _ => keeps_silently fun _ => rfl
  unfold callClosure
  dsimp only
  infer_instance

instance (action : Builtin) (args : List Value) : Keeps (Said said) (runBuiltin action args) := by
  have collects : Keeps (Said said) (modify fun machine =>
      { machine with heap := machine.heap.collect machine.roots } : Exec Unit) :=
    keeps_silently fun _ => rfl
  unfold runBuiltin
  dsimp only
  split
  case h_2 => split <;> infer_instance
  all_goals infer_instance

instance (host : Native) (argCount : Nat) : Keeps (Said said) (applyNative host argCount) := by
  unfold applyNative
  dsimp only
  cases host.action <;> infer_instance

instance (host : Native) (argCount : Nat) : Keeps (Said said) (callNative host argCount) := by
  unfold callNative
  cases host.arity <;> infer_instance

instance (callee : Value) (argCount : Nat) : Keeps (Said said) (callValue callee argCount) := by
  unfold callValue
  split
  · refine Keeps.andThen inferInstance fun machine => ?_
    split <;> infer_instance
  · infer_instance

instance (name : Text) (argCount : Nat) : Keeps (Said said) (invoke name argCount) := by
  unfold invoke
  refine Keeps.andThen inferInstance fun receiver => Keeps.andThen inferInstance fun machine => ?_
  split
  · infer_instance
  · split
    · infer_instance
    · split <;> infer_instance

end Calls

section Instructions

instance : Keeps (Said said) fetch where
  left {machine} holds := by
    unfold fetch
    split
    · exact holds
    · split
      · exact holds
      · split <;> exact holds

instance (value : Int) : Keeps (Said said) (operand value) := by
  unfold operand
  infer_instance

instance (site : Site) (index : Int) : Keeps (Said said) (nameOperand site index) := by
  unfold nameOperand
  split <;> infer_instance

instance (target : Int) : Keeps (Said said) (jumpTo target) := by
  unfold jumpTo
  infer_instance

instance (site : Site) (index : Int) : Keeps (Said said) (getGlobal site index) := by
  unfold getGlobal
  refine Keeps.andThen inferInstance fun name => Keeps.andThen inferInstance fun machine => ?_
  split <;> infer_instance

instance (key : ObjectId) (name : Text) : Keeps (Said said) (storeGlobal key name) := by
  unfold storeGlobal
  refine Keeps.andThen inferInstance fun value => ?_
  split
  · infer_instance
  · exact keeps_silently fun _ => rfl

instance (site : Site) (index : Int) : Keeps (Said said) (defineGlobal site index) := by
  unfold defineGlobal
  infer_instance

instance (site : Site) (index : Int) : Keeps (Said said) (setGlobal site index) := by
  unfold setGlobal
  dsimp only
  infer_instance

instance (site : Site) (index : Int) : Keeps (Said said) (getUpvalue site index) := by
  unfold getUpvalue
  refine Keeps.andThen inferInstance fun index => Keeps.andThen inferInstance fun cell => ?_
  split <;> infer_instance

instance (site : Site) (index : Int) : Keeps (Said said) (setUpvalue site index) := by
  unfold setUpvalue
  infer_instance

instance (site : Site) (index : Int) : Keeps (Said said) (getProperty site index) := by
  unfold getProperty
  refine Keeps.andThen inferInstance fun name => Keeps.andThen inferInstance fun machine =>
    Keeps.andThen inferInstance fun value => ?_
  split
  · infer_instance
  · split <;> infer_instance

instance (target : Value) (slot : Nat) (value : Value) :
    Keeps (Said said) (storeField target slot value) := by
  unfold storeField
  split <;> infer_instance

instance (site : Site) (index : Int) : Keeps (Said said) (setProperty site index) := by
  unfold setProperty
  refine Keeps.andThen inferInstance fun name => Keeps.andThen inferInstance fun object =>
    Keeps.andThen inferInstance fun machine => ?_
  split
  · infer_instance
  · split <;> infer_instance

instance (result : Float → Float → Value) : Keeps (Said said) (binary result) := by
  unfold binary
  refine Keeps.andThen inferInstance fun a => Keeps.andThen inferInstance fun b => ?_
  split <;> infer_instance

instance : Keeps (Said said) negate := by
  unfold negate
  refine Keeps.andThen inferInstance fun a => ?_
  split <;> infer_instance

instance : Keeps (Said said) Machine.equal := by
  unfold Machine.equal
  infer_instance

instance : Keeps (Said said) Machine.print := by
  unfold Machine.print
  infer_instance

instance (frame : Frame) (closure : ObjectId) (index : Nat) (captures : List Capture) :
    Keeps (Said said) (captureAll frame closure index captures) := by
  induction captures generalizing index with
  | nil =>
    rw [captureAll]
    infer_instance
  | cons capture rest ih =>
    rw [captureAll]
    dsimp only
    split
    · infer_instance
    · refine Keeps.andThen inferInstance fun machine => ?_
      split <;> infer_instance

instance (site : Site) (index : Int) : Keeps (Said said) (makeClosure site index) := by
  unfold makeClosure
  split <;> infer_instance

instance (site : Site) : Keeps (Said said) (finishCall site) := by
  unfold finishCall
  dsimp only
  refine Keeps.andThen inferInstance fun _ => Keeps.andThen inferInstance fun result => ?_
  cases result <;> dsimp only <;> infer_instance

instance (id : Int) : Keeps (Said said) (structOperand id) := by
  unfold structOperand
  dsimp only
  refine Keeps.andThen inferInstance fun machine => ?_
  split <;> infer_instance

instance (site : Site) (code : Instruction) : Keeps (Said said) (literal site code) := by
  unfold literal
  dsimp only
  infer_instance

instance (struct : StackStruct) (entries : List (Nat × Value)) :
    Keeps (Said said) (fillStruct struct entries) := by
  induction entries generalizing struct with
  | nil =>
    rw [fillStruct]
    infer_instance
  | cons entry rest ih =>
    obtain ⟨slot, value⟩ := entry
    cases value <;> rw [fillStruct] <;> first | infer_instance | simp

instance (id : ObjectId) (entries : List (Nat × Value)) : Keeps (Said said) (fillRecord id entries) := by
  induction entries with
  | nil =>
    rw [fillRecord]
    infer_instance
  | cons entry rest ih =>
    rw [fillRecord]
    infer_instance

instance (site : Site) (code : Instruction) : Keeps (Said said) (makeStackStruct site code) := by
  have numbers : Keeps (Said said) (modifyGet fun machine =>
      (machine.nextNode, { machine with nextNode := machine.nextNode + 1 }) : Exec NodeId) :=
    keeps_modifyGet fun _ holds => holds
  unfold makeStackStruct
  infer_instance

instance (site : Site) (code : Instruction) : Keeps (Said said) (makeHeapStruct site code) := by
  unfold makeHeapStruct
  infer_instance

instance : Keeps (Said said) copyTop := by
  unfold copyTop
  refine Keeps.andThen inferInstance fun value => ?_
  split <;> infer_instance

instance (site : Site) (code : Instruction) : Keeps (Said said) (execute site code) := by
  unfold execute
  dsimp only
  split <;> infer_instance

instance : Keeps (Said said) step := by
  unfold step
  infer_instance

end Instructions

section Runs

theorem Said.run (holds : Said said machine) (steps : Nat) : Said said (run steps machine).2 := by
  induction steps generalizing machine with
  | zero => exact holds
  | succ steps ih =>
    have left := (inferInstance : Keeps (Said said) step).left holds
    rw [Machine.run]
    split
    all_goals
      next ran =>
        rw [ran] at left
        first
          | exact ih left
          | exact left

instance (script : ObjectId) : Keeps (Said said) (enter script) := by
  have resets : Keeps (Said said) (modify Machine.reset : Exec Unit) := keeps_silently fun _ => rfl
  unfold enter
  infer_instance

/-- A run only appends to the output. -/
theorem said_interpret (machine : Machine) (script : ObjectId) (steps : Nat) :
    Said machine.output (interpret machine script steps).2 := by
  have left := (inferInstance : Keeps (Said machine.output) (enter script)).left (Said.refl machine)
  unfold Machine.interpret
  split
  all_goals
    next ran =>
      rw [ran] at left
      first
        | exact Said.run left steps
        | exact left

end Runs

end ScriptMachine.Machine
