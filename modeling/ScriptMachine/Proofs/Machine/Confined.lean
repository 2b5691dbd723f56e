import Mathlib
import ScriptMachine.Machine
import ScriptMachine.Proofs.Heap.Plain

set_option autoImplicit false

/- Frame-owned structs stay in frames. Nothing is assumed about the code: every instruction, with
whatever operands and on whatever stack, stores a struct in an arena or moves it to the heap. -/
namespace ScriptMachine.Machine

/-- No object, no global and no plain slot of an arena names a frame-owned struct. -/
structure Confined (machine : Machine) : Prop where
  heap : machine.heap.Plain
  globals : ∀ {name : ObjectId} {value : Value}, machine.globals[name]? = some value → value.Plain
  arenas : ∀ frame ∈ machine.frames, ∀ struct ∈ frame.arena, struct.Plain

section Updates

variable {machine : Machine}

theorem Confined.withHeap (confined : Confined machine) {heap : Heap} (isPlain : heap.Plain) :
    Confined { machine with heap } :=
  { confined with heap := isPlain }

theorem Confined.node? (confined : Confined machine) {id : NodeId} {struct : StackStruct}
    (found : machine.node? id = some struct) : struct.Plain := by
  obtain ⟨frame, member, inArena⟩ := List.exists_of_findSome?_eq_some found
  exact StackStruct.PlainAmong.find? frame.arena
    ((StackStruct.plainAmong_iff _).mpr (confined.arenas frame member)) inArena

/-- Changing one frame is fine when its arena is. -/
theorem Confined.modifyFrame (confined : Confined machine) (index : Nat) {change : Frame → Frame}
    (keeps : ∀ frame ∈ machine.frames, ∀ struct ∈ (change frame).arena, struct.Plain) :
    Confined { machine with frames := machine.frames.modify index change } := by
  refine { confined with arenas := fun frame member => ?_ }
  obtain ⟨place, here⟩ := List.getElem?_of_mem member
  rw [List.getElem?_modify] at here
  obtain ⟨old, present, same⟩ := Option.map_eq_some_iff.mp here
  have inFrames := List.mem_of_getElem? present
  rw [← same]
  split
  · exact keeps old inFrames
  · exact confined.arenas old inFrames

theorem Confined.reset (confined : Confined machine) : Confined machine.reset := by
  have closing : ∀ (cells : List (Nat × ObjectId)) (heap : Heap), heap.Plain →
      (cells.foldl (fun heap entry =>
        heap.set entry.2 (.cell (.closed (machine.abandonedValue entry.1)))) heap).Plain := by
    intro cells
    induction cells with
    | nil => exact fun _ isPlain => isPlain
    | cons entry rest ih =>
      intro heap isPlain
      refine ih _ (isPlain.set ?_)
      change (machine.abandonedValue entry.1).Plain
      unfold abandonedValue
      split
      · rfl
      · next value notStack _ =>
        cases value with
        | stack node => exact absurd rfl (notStack node)
        | nil | bool _ | number _ | ref _ => rfl
      · rfl
  exact ⟨(closing machine.openCells machine.heap confined.heap).of_same rfl, confined.globals,
    fun frame member => by cases member⟩

end Updates

section Stack

instance {α : Type} (fault : Fault) : Keeps Confined (fail fault : Exec α) where
  left confined := confined

instance {α : Type} : Keeps Confined (goWrong : Exec α) :=
  inferInstanceAs (Keeps Confined (throw _ : Exec α))

/-- Nothing runs behind a fault. -/
instance {α β : Type} (fault : Fault) (rest : β → Exec α) :
    Keeps Confined (fail fault >>= rest) where
  left confined := confined

instance {α β : Type} (rest : β → Exec α) : Keeps Confined (goWrong >>= rest) where
  left confined := confined

instance {α : Type} (value : Option α) : Keeps Confined (given value) := by
  cases value
  · exact inferInstanceAs (Keeps Confined goWrong)
  · exact inferInstanceAs (Keeps Confined (pure _))

theorem yields_given {α : Type} {value : Option α} {good : α → Prop}
    (isGood : ∀ found, value = some found → good found) : Yields Confined (given value) good := by
  intro machine after result _ ran
  cases value with
  | none => cases ran
  | some found =>
    cases ran
    exact isGood _ rfl

instance {α : Type} (pinned : List ObjectId) (action : (Unit → List ObjectId) → Heap.Action α)
    [keeps : ∀ roots, Keeps Heap.Plain (action roots)] :
    Keeps Confined (allocating pinned action) where
  left {machine} confined := by
    have left := (keeps fun _ => pinned ++ machine.roots).left confined.heap
    unfold allocating
    split
    · next ran =>
      rw [ran] at left
      exact confined.withHeap left
    · next ran =>
      rw [ran] at left
      exact confined.withHeap left

theorem keeps_modifyHeap {change : Heap → Heap} (keeps : ∀ heap, heap.Plain → (change heap).Plain) :
    Keeps Confined (modifyHeap change) :=
  keeps_modify fun _ confined => confined.withHeap (keeps _ confined.heap)

/-- A change of anything but heap, globals and frames. -/
theorem keeps_elsewhere {change : Machine → Machine}
    (heap : ∀ machine, (change machine).heap = machine.heap)
    (globals : ∀ machine, (change machine).globals = machine.globals)
    (frames : ∀ machine, (change machine).frames = machine.frames) :
    Keeps Confined (modify change : Exec Unit) :=
  keeps_modify fun machine confined =>
    ⟨by rw [heap]; exact confined.heap, by rw [globals]; exact confined.globals,
      by rw [frames]; exact confined.arenas⟩

instance (value : Value) : Keeps Confined (push value) := by
  have : Keeps Confined (modify fun machine => { machine with stack := machine.stack.push value }) :=
    keeps_elsewhere (fun _ => rfl) (fun _ => rfl) fun _ => rfl
  unfold push
  infer_instance

instance (distance : Nat) : Keeps Confined (peek distance) := by
  unfold peek
  infer_instance

instance : Keeps Confined pop := by
  have : Keeps Confined (modify fun machine => { machine with stack := machine.stack.pop }) :=
    keeps_elsewhere (fun _ => rfl) (fun _ => rfl) fun _ => rfl
  unfold pop
  infer_instance

instance (index : Nat) : Keeps Confined (slot index) := by
  unfold slot
  infer_instance

instance (index : Nat) (value : Value) : Keeps Confined (setSlot index value) := by
  have : Keeps Confined
      (modify fun machine => { machine with stack := machine.stack.setIfInBounds index value }) :=
    keeps_elsewhere (fun _ => rfl) (fun _ => rfl) fun _ => rfl
  unfold setSlot
  infer_instance

instance (value : Value) : Keeps Confined (setTop value) := by
  unfold setTop
  infer_instance

instance (size : Nat) : Keeps Confined (shrink size) :=
  keeps_elsewhere (fun _ => rfl) (fun _ => rfl) fun _ => rfl

instance : Keeps Confined topFrame := by
  unfold topFrame
  infer_instance

instance (text : Text) : Keeps Confined (write text) :=
  keeps_elsewhere (fun _ => rfl) (fun _ => rfl) fun _ => rfl

theorem keeps_modifyFrame {index : Nat} {change : Frame → Frame}
    (same : ∀ frame, (change frame).arena = frame.arena) :
    Keeps Confined (Machine.modifyFrame index change) :=
  keeps_modify fun _ confined => confined.modifyFrame index fun frame member => by
    rw [same]
    exact confined.arenas frame member

end Stack

section Arena

instance (index : Nat) : Keeps Confined (sweepArena index) := by
  unfold sweepArena
  refine Keeps.bind inferInstance Yields.get fun machine confined => ?_
  refine Keeps.bind inferInstance (yields_given fun frame here => confined.arenas frame (List.mem_of_getElem? here))
    fun frame isPlain => ?_
  refine Keeps.bind inferInstance Yields.get fun current _ => ?_
  have swept : ∀ struct ∈ sweptArena (referenced current) frame.arena, struct.Plain := by
    intro struct member
    obtain ⟨before, inArena, isPruned⟩ := List.mem_filterMap.mp member
    dsimp only at isPruned
    split at isPruned
    · cases isPruned
      exact StackStruct.Plain.prune before (isPlain before inArena)
    · cases isPruned
  have sweeps : Keeps Confined (Machine.modifyFrame index fun old =>
      { old with
        arena := sweptArena (referenced current) frame.arena
        arrivals := 0
        sweepAt := max minSweep (2 * (sweptArena (referenced current) frame.arena).length) }) :=
    keeps_modify fun _ confined => confined.modifyFrame index fun _ _ => swept
  have releases : ∀ freed, Keeps Confined (modify fun machine =>
      { machine with
        heap := machine.heap.release freed
        arenaBytes := machine.arenaBytes - freed } : Exec Unit) :=
    fun freed => keeps_modify fun _ confined =>
      ⟨confined.heap.of_same rfl, confined.globals, confined.arenas⟩
  dsimp only
  infer_instance

instance (index : Nat) (bytes : UInt64) : Keeps Confined (charge index bytes) := by
  have counts : Keeps Confined
      (Machine.modifyFrame index fun frame => { frame with arrivals := frame.arrivals + 1 }) :=
    keeps_modifyFrame fun _ => rfl
  have charges : Keeps Confined
      (modify fun machine => { machine with arenaBytes := machine.arenaBytes + bytes }) :=
    keeps_elsewhere (fun _ => rfl) (fun _ => rfl) fun _ => rfl
  have reserves : Keeps Confined (allocating [] (Heap.reserve · bytes)) := inferInstance
  unfold charge
  dsimp only
  infer_instance

theorem keeps_adopt {index : Nat} {struct : StackStruct} (isPlain : struct.Plain) :
    Keeps Confined (adopt index struct) := by
  have : Keeps Confined
      (Machine.modifyFrame index fun frame => { frame with arena := struct :: frame.arena }) := by
    refine keeps_modify fun _ confined => confined.modifyFrame index fun frame member => ?_
    intro other inArena
    rcases List.mem_cons.mp inArena with rfl | old
    · exact isPlain
    · exact confined.arenas frame member other old
  unfold adopt
  infer_instance

instance (struct : StackStruct) : Keeps Confined (fresh struct) :=
  keeps_modifyGet fun _ confined => ⟨confined.heap, confined.globals, confined.arenas⟩

theorem yields_fresh {struct : StackStruct} (isPlain : struct.Plain) :
    Yields Confined (fresh struct) StackStruct.Plain := by
  intro machine after copy _ ran
  cases ran
  exact StackStruct.Plain.clone struct machine.nextNode isPlain

theorem keeps_copyInto {index : Nat} {struct : StackStruct} (isPlain : struct.Plain) :
    Keeps Confined (copyInto index struct) :=
  Keeps.bind inferInstance (yields_fresh isPlain) fun _ => keeps_adopt

instance (id : NodeId) : Keeps Confined (Machine.struct id) := by
  unfold Machine.struct
  infer_instance

theorem yields_struct (id : NodeId) : Yields Confined (Machine.struct id) StackStruct.Plain :=
  Yields.bind inferInstance Yields.get fun _ confined => yields_given fun _ => confined.node?

/-- Copying a struct that some value names, and going on with the copy. -/
instance {α : Type} (index : Nat) (id : NodeId) (rest : Value → Exec α)
    [goesOn : ∀ value, Keeps Confined (rest value)] :
    Keeps Confined (Machine.struct id >>= fun struct => copyInto index struct >>= rest) := by
  refine Keeps.bind inferInstance (yields_struct id) fun struct isPlain => ?_
  have copies : Keeps Confined (copyInto index struct) := keeps_copyInto isPlain
  infer_instance

theorem keeps_modifyStruct {id : NodeId} {change : StackStruct → StackStruct}
    (keeps : ∀ struct : StackStruct, struct.Plain → (change struct).Plain) :
    Keeps Confined (modifyStruct id change) := by
  refine keeps_modify fun machine confined => { confined with arenas := fun frame member => ?_ }
  obtain ⟨old, inFrames, rfl⟩ := List.mem_map.mp member
  rw [← StackStruct.plainAmong_iff]
  exact StackStruct.PlainAmong.update keeps old.arena
    ((StackStruct.plainAmong_iff _).mpr (confined.arenas old inFrames))

theorem keeps_setField (id : ObjectId) (slot : Nat) {value : Value} (isPlain : value.Plain) :
    Keeps Confined (modifyHeap fun heap => heap.setField id slot value) :=
  keeps_modifyHeap fun _ heap => heap.setField isPlain

mutual

theorem keeps_promote : (struct : StackStruct) → (pinned : List ObjectId) → struct.Plain →
    Keeps Confined (promote pinned struct)
  | .node _ type slots _, pinned, isPlain => by
    have fills : ∀ id, Keeps Confined (promoteSlots (id :: pinned) id 0 slots) :=
      fun id => keeps_promoteSlots slots (id :: pinned) id 0 isPlain.1
    rw [promote]
    infer_instance

theorem keeps_promoteSlots : (slots : List Slot) → (pinned : List ObjectId) → (id : ObjectId) →
    (index : Nat) → StackStruct.PlainSlots slots →
    Keeps Confined (promoteSlots pinned id index slots)
  | [], _, _, _, _ => by
    rw [promoteSlots]
    infer_instance
  | .plain value :: rest, pinned, id, index, isPlain => by
    have sets := keeps_setField id index isPlain.1
    have fills := keeps_promoteSlots rest pinned id (index + 1) isPlain.2
    rw [promoteSlots]
    infer_instance
  | .nested inner :: rest, pinned, id, index, isPlain => by
    have moves := keeps_promote inner pinned isPlain.1
    have sets : ∀ moved, Keeps Confined
        (modifyHeap fun heap => heap.setField id index (.ref moved)) :=
      fun _ => keeps_setField id index rfl
    have fills := keeps_promoteSlots rest pinned id (index + 1) isPlain.2
    rw [promoteSlots]
    infer_instance

end

instance (pinned : List ObjectId) (value : Value) : Keeps Confined (heapValue pinned value) := by
  unfold heapValue
  split
  · next id =>
    have moves : Keeps Confined (Machine.struct id >>= promote pinned) :=
      Keeps.bind inferInstance (yields_struct id) fun struct => keeps_promote struct pinned
    rw [← bind_assoc]
    infer_instance
  · infer_instance

theorem yields_heapValue (pinned : List ObjectId) (value : Value) :
    Yields Confined (heapValue pinned value) Value.Plain := by
  cases value with
  | stack id =>
    intro machine after result confined ran
    simp only [Machine.heapValue, bind, EStateM.bind] at ran
    split at ran
    · split at ran
      · cases ran
        rfl
      · cases ran
    · cases ran
  | nil | bool _ | number _ | ref _ => exact Yields.pure rfl

instance : Keeps Confined popFrame := by
  unfold popFrame
  refine Keeps.andThen inferInstance fun frame => ?_
  refine keeps_modify fun machine confined =>
    ⟨confined.heap.of_same rfl, confined.globals, fun other member => ?_⟩
  exact confined.arenas other (List.mem_of_mem_drop member)

end Arena

section Cells

instance (slot : Nat) : Keeps Confined (captureSlot slot) := by
  have allocates : Keeps Confined (allocating [] (Heap.newCell · slot)) := inferInstance
  have files : ∀ cell, Keeps Confined (modify fun machine =>
      { machine with openCells := insertCell slot cell machine.openCells } : Exec Unit) :=
    fun _ => keeps_elsewhere (fun _ => rfl) (fun _ => rfl) fun _ => rfl
  unfold captureSlot
  refine Keeps.bind inferInstance Yields.get fun machine _ => ?_
  split <;> infer_instance

theorem keeps_setCell {id : ObjectId} {value : Value} (isPlain : value.Plain) :
    Keeps Confined (modifyHeap fun heap => heap.set id (.cell (.closed value))) :=
  keeps_modifyHeap fun _ heap => heap.set isPlain

instance (fromSlot : Nat) (cells : List (Nat × ObjectId)) :
    Keeps Confined (closeCellsOf fromSlot cells) := by
  induction cells with
  | nil =>
    rw [closeCellsOf]
    infer_instance
  | cons entry rest ih =>
    rw [closeCellsOf]
    split
    · refine Keeps.andThen inferInstance fun old => ?_
      refine Keeps.bind inferInstance (yields_heapValue [] old) fun value isPlain => ?_
      have closes : Keeps Confined (modify fun machine =>
          { machine with
            openCells := rest
            heap := machine.heap.set entry.2 (.cell (.closed value)) } : Exec Unit) :=
        keeps_modify fun _ confined =>
          ⟨confined.heap.set isPlain, confined.globals, confined.arenas⟩
      infer_instance
    · infer_instance

instance (fromSlot : Nat) : Keeps Confined (closeCells fromSlot) := by
  unfold closeCells
  infer_instance

instance (frame : Frame) (index : Nat) : Keeps Confined (upvalueCell frame index) := by
  unfold upvalueCell
  refine Keeps.bind inferInstance Yields.get fun machine _ => ?_
  split
  · refine Keeps.andThen inferInstance fun id => ?_
    refine Keeps.bind inferInstance Yields.get fun machine _ => ?_
    split <;> infer_instance
  · infer_instance

instance (id : ObjectId) (cell : Cell) (value : Value) : Keeps Confined (assignCell id cell value) := by
  unfold assignCell
  split
  · cases value <;> dsimp only <;> infer_instance
  · refine Keeps.bind inferInstance (yields_heapValue [] value) fun value => ?_
    exact keeps_setCell

end Cells

section Calls

instance (index count : Nat) : Keeps Confined (copyArguments index count) := by
  induction count generalizing index with
  | zero =>
    rw [copyArguments]
    infer_instance
  | succ count ih =>
    rw [copyArguments]
    refine Keeps.andThen inferInstance fun value => ?_
    split <;> dsimp only <;> infer_instance

instance (closure : ObjectId) (argCount : Nat) : Keeps Confined (callClosure closure argCount) := by
  have enters : ∀ base, Keeps Confined (modify fun machine =>
      { machine with frames := { closure, base } :: machine.frames } : Exec Unit) := by
    refine fun base => keeps_modify fun machine confined =>
      { confined with arenas := fun frame member => ?_ }
    rcases List.mem_cons.mp member with rfl | older
    · intro struct inArena
      cases inArena
    · exact confined.arenas frame older
  unfold callClosure
  dsimp only
  infer_instance

instance (action : Builtin) (args : List Value) : Keeps Confined (runBuiltin action args) := by
  have interns : ∀ text, Keeps Confined (allocating [] (Heap.intern · text)) := inferInstance
  have collects : Keeps Confined (modify fun machine =>
      { machine with heap := machine.heap.collect machine.roots } : Exec Unit) :=
    keeps_modify fun _ confined => confined.withHeap (confined.heap.collect _)
  unfold runBuiltin
  dsimp only
  split
  case h_2 => split <;> infer_instance
  all_goals infer_instance

instance (host : Native) (argCount : Nat) : Keeps Confined (applyNative host argCount) := by
  unfold applyNative
  dsimp only
  cases host.action <;> infer_instance

instance (host : Native) (argCount : Nat) : Keeps Confined (callNative host argCount) := by
  unfold callNative
  cases host.arity <;> infer_instance

instance (callee : Value) (argCount : Nat) : Keeps Confined (callValue callee argCount) := by
  unfold callValue
  split
  · refine Keeps.bind inferInstance Yields.get fun machine _ => ?_
    split <;> infer_instance
  · infer_instance

instance (name : Text) (argCount : Nat) : Keeps Confined (invoke name argCount) := by
  unfold invoke
  refine Keeps.andThen inferInstance fun receiver => ?_
  refine Keeps.bind inferInstance Yields.get fun machine _ => ?_
  split
  · infer_instance
  · split
    · infer_instance
    · split <;> infer_instance

end Calls

section Instructions

instance : Keeps Confined fetch where
  left {machine} confined := by
    unfold fetch
    split
    · exact confined
    · next frame rest here =>
      split
      · exact confined
      · split
        · exact confined
        · refine { confined with arenas := fun other member => ?_ }
          rcases List.mem_cons.mp member with rfl | older
          · exact confined.arenas frame (by rw [here]; exact List.mem_cons_self)
          · exact confined.arenas other (by rw [here]; exact List.mem_cons_of_mem _ older)

instance (value : Int) : Keeps Confined (operand value) := by
  unfold operand
  infer_instance

instance (site : Site) (index : Int) : Keeps Confined (nameOperand site index) := by
  unfold nameOperand
  split <;> infer_instance

instance (target : Int) : Keeps Confined (jumpTo target) := by
  have : ∀ ip, Keeps Confined (Machine.modifyFrame 0 fun frame => { frame with ip }) :=
    fun _ => keeps_modifyFrame fun _ => rfl
  unfold jumpTo
  infer_instance

instance (site : Site) (index : Int) : Keeps Confined (getGlobal site index) := by
  unfold getGlobal
  refine Keeps.andThen inferInstance fun name => ?_
  refine Keeps.bind inferInstance Yields.get fun machine _ => ?_
  split <;> infer_instance

instance (key : ObjectId) (name : Text) : Keeps Confined (storeGlobal key name) := by
  unfold storeGlobal
  refine Keeps.andThen inferInstance fun value => ?_
  split
  · infer_instance
  · next notStack =>
    refine keeps_modify fun machine confined =>
      { confined with globals := fun {other found} here => ?_ }
    rw [Std.TreeMap.getElem?_insert] at here
    split at here
    · cases here
      cases value with
      | stack node => exact absurd rfl (notStack node)
      | nil | bool _ | number _ | ref _ => rfl
    · exact confined.globals here

instance (site : Site) (index : Int) : Keeps Confined (defineGlobal site index) := by
  unfold defineGlobal
  infer_instance

instance (site : Site) (index : Int) : Keeps Confined (setGlobal site index) := by
  unfold setGlobal
  dsimp only
  infer_instance

instance (site : Site) (index : Int) : Keeps Confined (getUpvalue site index) := by
  unfold getUpvalue
  refine Keeps.andThen inferInstance fun index => ?_
  refine Keeps.andThen inferInstance fun cell => ?_
  split <;> infer_instance

instance (site : Site) (index : Int) : Keeps Confined (setUpvalue site index) := by
  unfold setUpvalue
  infer_instance

instance (site : Site) (index : Int) : Keeps Confined (getProperty site index) := by
  unfold getProperty
  refine Keeps.andThen inferInstance fun name => ?_
  refine Keeps.bind inferInstance Yields.get fun machine _ => ?_
  refine Keeps.andThen inferInstance fun value => ?_
  split
  · infer_instance
  · split <;> infer_instance

/-- A struct is stored as a nested copy in a frame-owned struct, and moved for an instance. -/
instance (target : Value) (slot : Nat) (value : Value) :
    Keeps Confined (storeField target slot value) := by
  unfold storeField
  split
  · next node source =>
    refine Keeps.bind inferInstance (yields_struct source) fun struct isPlain => ?_
    refine Keeps.bind inferInstance (yields_fresh isPlain) fun copy copyPlain => ?_
    have stores : Keeps Confined
        (modifyStruct node fun struct => struct.store slot (.nested copy)) :=
      keeps_modifyStruct fun _ isPlain => isPlain.store slot copyPlain
    infer_instance
  · next node notStack =>
    have isPlain : value.Plain := by
      cases value with
      | stack source => exact absurd rfl (notStack source)
      | nil | bool _ | number _ | ref _ => rfl
    have stores : Keeps Confined
        (modifyStruct node fun struct => struct.store slot (.plain value)) :=
      keeps_modifyStruct fun _ plain => plain.store slot isPlain
    infer_instance
  · next id =>
    refine Keeps.bind inferInstance (yields_heapValue [] value) fun value isPlain => ?_
    have sets := keeps_setField id slot isPlain
    infer_instance
  · infer_instance

instance (site : Site) (index : Int) : Keeps Confined (setProperty site index) := by
  unfold setProperty
  refine Keeps.andThen inferInstance fun name => ?_
  refine Keeps.andThen inferInstance fun object => ?_
  refine Keeps.bind inferInstance Yields.get fun machine _ => ?_
  split
  · infer_instance
  · split <;> infer_instance

instance (result : Float → Float → Value) : Keeps Confined (binary result) := by
  unfold binary
  refine Keeps.andThen inferInstance fun a => ?_
  refine Keeps.andThen inferInstance fun b => ?_
  split <;> infer_instance

instance : Keeps Confined negate := by
  unfold negate
  refine Keeps.andThen inferInstance fun a => ?_
  split <;> infer_instance

instance : Keeps Confined Machine.equal := by
  unfold Machine.equal
  infer_instance

instance : Keeps Confined Machine.print := by
  unfold Machine.print
  infer_instance

instance (frame : Frame) (closure : ObjectId) (index : Nat) (captures : List Capture) :
    Keeps Confined (captureAll frame closure index captures) := by
  induction captures generalizing index with
  | nil =>
    rw [captureAll]
    infer_instance
  | cons capture rest ih =>
    have sets : ∀ cell, Keeps Confined (modifyHeap fun heap => heap.setUpvalue closure index cell) :=
      fun _ => keeps_modifyHeap fun _ heap => heap.setUpvalue
    rw [captureAll]
    dsimp only
    split
    · infer_instance
    · refine Keeps.bind inferInstance Yields.get fun machine _ => ?_
      split <;> infer_instance

instance (site : Site) (index : Int) : Keeps Confined (makeClosure site index) := by
  have allocates : ∀ id, Keeps Confined (allocating [] (Heap.newClosure · id)) := inferInstance
  unfold makeClosure
  split <;> infer_instance

instance (site : Site) : Keeps Confined (finishCall site) := by
  unfold finishCall
  dsimp only
  refine Keeps.andThen inferInstance fun _ => ?_
  refine Keeps.andThen inferInstance fun result => ?_
  cases result <;> dsimp only <;> infer_instance

instance (id : Int) : Keeps Confined (structOperand id) := by
  unfold structOperand
  dsimp only
  refine Keeps.bind inferInstance Yields.get fun machine _ => ?_
  split <;> infer_instance

instance (site : Site) (code : Instruction) : Keeps Confined (literal site code) := by
  unfold literal
  dsimp only
  infer_instance

theorem keeps_fillStruct (entries : List (Nat × Value)) {struct : StackStruct}
    (isPlain : struct.Plain) :
    Keeps Confined (fillStruct struct entries) ∧
      Yields Confined (fillStruct struct entries) StackStruct.Plain := by
  induction entries generalizing struct with
  | nil =>
    rw [fillStruct]
    exact ⟨inferInstance, Yields.pure isPlain⟩
  | cons entry rest ih =>
    obtain ⟨slot, value⟩ := entry
    cases value with
    | stack node =>
      have stored : ∀ copy : StackStruct, copy.Plain → (struct.store slot (.nested copy)).Plain :=
        fun _ copyPlain => isPlain.store slot copyPlain
      have copies : Keeps Confined (Machine.struct node >>= fresh) := inferInstance
      have copyPlain : Yields Confined (Machine.struct node >>= fresh) StackStruct.Plain :=
        Yields.bind inferInstance (yields_struct node) fun _ => yields_fresh
      rw [fillStruct, ← bind_assoc]
      exact ⟨copies.bind copyPlain fun copy plain => (ih (stored copy plain)).1,
        Yields.bind copies copyPlain fun copy plain => (ih (stored copy plain)).2⟩
    | nil | bool _ | number _ | ref _ =>
      rw [fillStruct]
      · exact ih (isPlain.store slot rfl)
      · simp

instance (id : ObjectId) (entries : List (Nat × Value)) : Keeps Confined (fillRecord id entries) := by
  induction entries with
  | nil =>
    rw [fillRecord]
    infer_instance
  | cons entry rest ih =>
    rw [fillRecord]
    refine Keeps.bind inferInstance (yields_heapValue [id] entry.2) fun value isPlain => ?_
    have sets := keeps_setField id entry.1 isPlain
    infer_instance

instance (site : Site) (code : Instruction) : Keeps Confined (makeStackStruct site code) := by
  have numbers : Keeps Confined (modifyGet fun machine =>
      (machine.nextNode, { machine with nextNode := machine.nextNode + 1 }) : Exec NodeId) :=
    keeps_modifyGet fun _ confined => ⟨confined.heap, confined.globals, confined.arenas⟩
  unfold makeStackStruct
  refine Keeps.andThen inferInstance fun parts => ?_
  refine Keeps.andThen inferInstance fun node => ?_
  have fills := keeps_fillStruct parts.2.2 (StackStruct.plain_blank node parts.1 parts.2.1.fields.length)
  refine Keeps.bind fills.1 fills.2 fun struct isPlain => ?_
  have adopts : Keeps Confined (adopt 0 struct) := keeps_adopt isPlain
  infer_instance

instance (site : Site) (code : Instruction) : Keeps Confined (makeHeapStruct site code) := by
  have allocates : ∀ type count, Keeps Confined (allocating [] (Heap.newRecord · type count)) :=
    inferInstance
  unfold makeHeapStruct
  infer_instance

instance : Keeps Confined copyTop := by
  unfold copyTop
  refine Keeps.andThen inferInstance fun value => ?_
  split <;> infer_instance

instance (site : Site) (code : Instruction) : Keeps Confined (execute site code) := by
  unfold execute
  dsimp only
  split <;> infer_instance

instance : Keeps Confined step := by
  unfold step
  infer_instance

end Instructions

section Runs

variable {machine : Machine}

theorem Confined.run (confined : Confined machine) (steps : Nat) :
    Confined (run steps machine).2 := by
  induction steps generalizing machine with
  | zero => exact confined
  | succ steps ih =>
    have left := (inferInstance : Keeps Confined step).left confined
    rw [Machine.run]
    split
    all_goals
      next ran =>
        rw [ran] at left
        first
          | exact ih left
          | exact left
          | exact left.reset

instance (script : ObjectId) : Keeps Confined (enter script) := by
  have resets : Keeps Confined (modify Machine.reset : Exec Unit) :=
    keeps_modify fun _ confined => confined.reset
  have allocates : Keeps Confined (allocating [script] (Heap.newClosure · script)) := inferInstance
  unfold enter
  infer_instance

theorem Confined.interpret (confined : Confined machine) (script : ObjectId) (steps : Nat) :
    Confined (interpret machine script steps).2 := by
  have left := (inferInstance : Keeps Confined (enter script)).left confined
  unfold Machine.interpret
  split
  all_goals
    next ran =>
      rw [ran] at left
      first
        | exact Confined.run left steps
        | exact left.reset

instance (native : Native) : Keeps Confined (defineNative native) := by
  have interns : Keeps Confined (allocating [] (Heap.intern · native.name)) := inferInstance
  have allocates : ∀ key, Keeps Confined (allocating [key] (Heap.newNative · native)) := inferInstance
  have files : ∀ key id, Keeps Confined (modify fun machine =>
      { machine with natives := machine.natives.insert key id } : Exec Unit) :=
    fun _ _ => keeps_elsewhere (fun _ => rfl) (fun _ => rfl) fun _ => rfl
  unfold defineNative
  infer_instance

end Runs

end ScriptMachine.Machine
