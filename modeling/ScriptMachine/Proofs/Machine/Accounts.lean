import ScriptMachine.Proofs.Heap.Account
import ScriptMachine.Proofs.Machine.Moves
import ScriptMachine.Proofs.Machine.Standing
import ScriptMachine.Proofs.StackStruct.Bytes

set_option autoImplicit false

/- What a machine has charged for structs, against the structs that are there. The counts are words,
so the books are kept modulo the size of a word; they are balanced whatever happens, as long as all
that is in use when bytes are given back can be counted. -/
namespace ScriptMachine.Machine

open StackStruct (total)

/-- The bytes of the structs in all arenas. -/
def structBytes (machine : Machine) : Nat :=
  total (arenas machine.frames)

/-- The bytes of all objects and structs. -/
def inUse (machine : Machine) : Nat :=
  Heap.bytesOf machine.heap.listed + machine.structBytes

/-- The counts are right but for `extra` bytes, charged for a struct that is in no arena yet. -/
structure Owes (extra : Nat) (machine : Machine) : Prop where
  counter : machine.arenaBytes = UInt64.ofNat (machine.structBytes + extra)
  tallies : machine.heap.Tallies (machine.structBytes + extra)

abbrev Balanced := Owes 0

section Mild

variable {free : Licence} {before after machine : Machine} {extra : Nat} {code : Instruction}

theorem structBytes_congr
    (same : after.frames.map Frame.arena = before.frames.map Frame.arena) :
    after.structBytes = before.structBytes := by
  have flat : ∀ frames : List Frame, arenas frames = (frames.map Frame.arena).flatten := by
    intro frames
    rw [arenas, List.flatMap_def]
  rw [structBytes, structBytes, flat, flat, same]

/-- Machines with the same counts and the same structs owe the same. -/
theorem Owes.of_same (owes : Owes extra before) (heap : after.heap = before.heap)
    (level : Level before after) : Owes extra after := by
  have same := structBytes_congr level.arenas
  exact ⟨by rw [level.bytes, same]; exact owes.counter, by rw [same, heap]; exact owes.tallies⟩

theorem Owes.withHeap (owes : Owes extra machine) {heap : Heap}
    (tallies : heap.Tallies (machine.structBytes + extra)) :
    Owes extra { machine with heap } :=
  ⟨owes.counter, tallies⟩

theorem Refills.size {old new : Object} (refills : Refills old new) : new.size = old.size := by
  cases refills with
  | record type same => simp only [Object.size, same]
  | closure prototype same => simp only [Object.size, same]

/-- A change that leaves the structs alone keeps the books. -/
theorem Touch.owes (touch : Touch free before after) (shut : ¬ free.structs) (filed : Filed before)
    (owes : Owes extra before) : Owes extra after := by
  cases touch with
  | aside aside level => exact owes.of_same aside.heap (level.resolve_right shut)
  | collect pinned => exact owes.withHeap (owes.tallies.collect _)
  | recount objects _ _ bytes =>
    exact owes.withHeap (owes.tallies.recount objects (bytes.resolve_right shut))
  | link _ _ => exact owes.withHeap (owes.tallies.link filed.tidy.absent)
  | file _ => exact owes.withHeap (owes.tallies.file filed.tidy.absent _)
  | refill present refills _ => exact owes.withHeap (owes.tallies.set (Heap.same_size present refills.size))
  | capture _ _ => exact ⟨owes.counter, owes.tallies.link filed.tidy.absent⟩
  | close value opened _ =>
    have isOpen := filed.listed.mpr (by rw [opened]; exact List.mem_cons_self)
    exact ⟨owes.counter, owes.tallies.set (Heap.same_size isOpen rfl)⟩

theorem Touches.owes (touches : Touches free before after) (shut : ¬ free.structs)
    (filed : Filed before) (owes : Owes extra before) : Owes extra after := by
  induction touches with
  | refl => exact owes
  | tail touches touch ih => exact Touch.owes touch shut (filed.touches touches) ih

/-- So does an instruction that does not handle structs. -/
theorem Executes.balanced (executes : Executes code before after)
    (mild : code.op.movesStructs = false) (filed : Filed before) (balanced : Balanced before) :
    Balanced after := by
  cases executes with
  | stays _ touches =>
    exact Touches.owes touches (fun moves => by simp [licence, mild] at moves) filed balanced
  | jumps _ touches =>
    refine (Touches.owes touches False.elim filed balanced).of_same rfl ⟨?_, rfl⟩
    exact @map_modify_same _ Frame.arena 0 (fun frame => { frame with ip := code.a.toNat })
      (fun _ => rfl) _
  | assigns _ isSet _ _ =>
    rw [isSet] at mild
    cases mild
  | stores value _ first isName second =>
    have stored := (Touches.owes first False.elim filed balanced)
    exact Touches.owes second False.elim ((filed.touches first).store isName value)
      ⟨stored.counter, stored.tallies⟩
  | calls isCall _ => rcases isCall with isCall | isCall <;> rw [isCall] at mild <;> cases mild
  | returns isReturn _ _ =>
    rw [isReturn] at mild
    cases mild

theorem Struck.balanced (struck : Struck code before after) (mild : code.op.movesStructs = false)
    (filed : Filed before) (balanced : Balanced before) : Balanced after := by
  cases struck with
  | here touches =>
    exact Touches.owes touches (fun moves => by simp [licence, mild] at moves) filed balanced
  | calling isCall _ => rcases isCall with isCall | isCall <;> rw [isCall] at mild <;> cases mild

end Mild

section Arenas

variable {machine : Machine} {position : Nat} {frame : Frame} {nodes : List NodeId}

theorem total_arenas_modify {frames : List Frame} (here : frames[position]? = some frame)
    (change : Frame → Frame) :
    total (arenas (frames.modify position change)) + total frame.arena
      = total (arenas frames) + total (change frame).arena := by
  induction frames generalizing position with
  | nil => simp at here
  | cons first rest ih =>
    cases position with
    | zero =>
      rw [List.getElem?_cons_zero] at here
      cases here
      simp only [List.modify_zero_cons, arenas, List.flatMap_cons, StackStruct.total_append]
      omega
    | succ position =>
      have sum := ih (by simpa using here)
      simp only [List.modify_succ_cons, arenas, List.flatMap_cons, StackStruct.total_append] at sum ⊢
      omega

theorem total_arena_le (here : machine.frames[position]? = some frame) :
    total frame.arena ≤ machine.structBytes := by
  have emptied := total_arenas_modify here fun frame => { frame with arena := [] }
  rw [StackStruct.total_nil] at emptied
  rw [structBytes]
  omega

theorem arenaSize_eq (arena : List StackStruct) : arenaSize arena = UInt64.ofNat (total arena) := by
  have summed : ∀ (arena : List StackStruct) (start : Nat),
      arena.foldl (fun total struct => total + struct.bytes) start = start + total arena := by
    intro arena
    induction arena with
    | nil => simp
    | cons struct rest ih =>
      intro start
      rw [List.foldl_cons, ih, StackStruct.total_cons, Nat.add_assoc]
  rw [arenaSize, summed, Nat.zero_add]

theorem total_swept_le (arena : List StackStruct) : total (sweptArena nodes arena) ≤ total arena :=
  StackStruct.total_kept_le arena

/-- The bytes that a sweep gives back. -/
theorem freed_eq (arena : List StackStruct) :
    arenaSize arena - arenaSize (sweptArena nodes arena)
      = UInt64.ofNat (total arena - total (sweptArena nodes arena)) := by
  have less := @total_swept_le nodes arena
  rw [arenaSize_eq, arenaSize_eq]
  conv_lhs => rw [← Nat.sub_add_cancel less, UInt64.ofNat_add, UInt64.add_sub_cancel]

/-- A frame whose arena has been swept down to some structs. -/
def withLive (live : List StackStruct) (frame : Frame) : Frame :=
  { frame with arena := live, arrivals := 0, sweepAt := max minSweep (2 * live.length) }

/-- The machine when a frame's arena has been swept. -/
def sweptAt (machine : Machine) (position : Nat) (frame : Frame) : Machine :=
  let live := sweptArena (referenced machine) frame.arena
  let freed := arenaSize frame.arena - arenaSize live
  { machine with
    frames := machine.frames.modify position (withLive live)
    heap := machine.heap.release freed
    arenaBytes := machine.arenaBytes - freed }

theorem leads_sweepArena {done : Unit → Machine → Prop} {struck : Machine → Prop}
    (here : machine.frames[position]? = some frame)
    (goesOn : done () (sweptAt machine position frame)) :
    Leads (sweepArena position) machine done struck := by
  unfold sweepArena
  simp only [leads_bind, leads_get]
  refine leads_given fun found isFound => ?_
  cases here.symm.trans isFound
  exact goesOn

/-- What structs were charged can be given back when they go, if all that is in use can be counted. -/
theorem Owes.released (balanced : Balanced machine) (fits : machine.inUse < 2 ^ 64)
    {frames : List Frame} {freed : Nat} (sum : total (arenas frames) + freed = machine.structBytes) :
    Balanced { machine with
      frames
      heap := machine.heap.release (UInt64.ofNat freed)
      arenaBytes := machine.arenaBytes - UInt64.ofNat freed } := by
  refine ⟨?_, ?_⟩
  · change machine.arenaBytes - UInt64.ofNat freed = UInt64.ofNat (total (arenas frames))
    rw [balanced.counter, Nat.add_zero, ← sum, UInt64.ofNat_add, UInt64.add_sub_cancel]
  · have left : total (arenas frames) = machine.structBytes - freed := by omega
    change (machine.heap.release _).Tallies (total (arenas frames))
    rw [left]
    exact balanced.tallies.release fits (by omega)

theorem Owes.swept_of_fits (balanced : Balanced machine) (fits : machine.inUse < 2 ^ 64)
    (here : machine.frames[position]? = some frame) : Balanced (sweptAt machine position frame) := by
  have less := @total_swept_le (referenced machine) frame.arena
  have sum : total (arenas (machine.frames.modify position
        (withLive (sweptArena (referenced machine) frame.arena))))
      + (total frame.arena - total (sweptArena (referenced machine) frame.arena))
      = machine.structBytes := by
    have sum := total_arenas_modify here (withLive (sweptArena (referenced machine) frame.arena))
    change _ = _ + total (sweptArena (referenced machine) frame.arena) at sum
    rw [structBytes]
    omega
  have released := balanced.released fits sum
  rw [← freed_eq] at released
  exact released

/-- An arena with nothing to sweep. -/
def Spotless (machine : Machine) (frame : Frame) : Prop :=
  ∀ struct ∈ frame.arena, struct.id ∈ referenced machine ∧
    ∀ referenced, (struct.prune referenced).2 = struct

theorem Spotless.swept_eq (spotless : Spotless machine frame) :
    sweptArena (referenced machine) frame.arena = frame.arena := by
  rw [sweptArena_eq]
  refine (List.filterMap_congr fun struct member => ?_).trans List.filterMap_some
  obtain ⟨named, whole⟩ := spotless struct member
  have reached : (struct.prune (referenced machine).contains).1 = true := by
    rw [StackStruct.prune_reached, List.any_eq_true]
    exact ⟨struct.id, struct.id_mem_ids, by simpa using named⟩
  rw [StackStruct.kept, if_pos reached, whole]

theorem release_zero (heap : Heap) : heap.release 0 = heap := by
  have least : min (0 : UInt64) heap.bytes = 0 := if_pos UInt64.zero_le
  rw [Heap.release, least, UInt64.sub_zero]

/-- Where nothing is swept nothing is given back, however much is in use. -/
theorem Owes.swept_of_spotless (balanced : Balanced machine)
    (here : machine.frames[position]? = some frame) (spotless : Spotless machine frame) :
    Balanced (sweptAt machine position frame) := by
  refine balanced.of_same ?_ ⟨?_, ?_⟩
  · change machine.heap.release (arenaSize frame.arena - arenaSize _) = _
    rw [spotless.swept_eq, UInt64.sub_self, release_zero]
  · change (machine.frames.modify position _).map Frame.arena = _
    rw [spotless.swept_eq]
    apply List.ext_getElem?
    intro index
    simp only [List.getElem?_map, List.getElem?_modify]
    by_cases same : position = index
    · subst same
      simp [here, withLive]
    · simp [same]
  · change machine.arenaBytes - (arenaSize frame.arena - arenaSize _) = _
    rw [spotless.swept_eq, UInt64.sub_self, UInt64.sub_zero]

end Arenas

end ScriptMachine.Machine
