import ScriptMachine.Proofs.Machine.Accounts

set_option autoImplicit false

/- The books of a machine while structs are copied, stored and given up. A struct is paid for before
it is in an arena, on one frame, and what a frame gives back is counted anew when it is swept or left;
in between the machine owes the difference. -/
namespace ScriptMachine.Machine

open StackStruct (total)

section Charging

variable {machine : Machine} {position : Nat} {frame : Frame}

/-- A frame has been charged. Its arena was swept, or it was not. -/
structure Charged (machine : Machine) (position : Nat) (after : Machine) : Prop where
  stack : after.stack = machine.stack
  arena : ∃ frame owner, machine.frames[position]? = some frame ∧
    after.frames[position]? = some owner ∧
    (owner.arena = frame.arena ∨ owner.arena = sweptArena (referenced machine) frame.arena)

/-- Nothing is lost when the arena of a frame is swept. -/
def Sweeps (machine : Machine) (position : Nat) : Prop :=
  machine.inUse < 2 ^ 64 ∨
    ∀ frame, machine.frames[position]? = some frame → Spotless machine frame

theorem Owes.swept (balanced : Balanced machine) (sweeps : Sweeps machine position)
    (here : machine.frames[position]? = some frame) : Balanced (sweptAt machine position frame) :=
  sweeps.elim (fun fits => balanced.swept_of_fits fits here) fun spotless =>
    balanced.swept_of_spotless here (spotless frame here)

/-- A request that is refused leaves both counts as they were. -/
theorem leads_request {bytes : Nat} {done : Unit → Machine → Prop} (balanced : Balanced machine)
    (goesOn : ∀ heap arenaBytes, Owes bytes { machine with heap, arenaBytes } →
      done () { machine with heap, arenaBytes }) :
    Leads (do
      allocating [] (Heap.reserve · (UInt64.ofNat bytes))
      modify fun machine =>
        { machine with arenaBytes := machine.arenaBytes + UInt64.ofNat bytes }) machine done
      Balanced := by
  rw [leads_bind, leads_allocating, Heap.reserve_eq]
  have tallies := balanced.tallies.prepared (fun _ => [] ++ machine.roots) (UInt64.ofNat bytes)
  have tells := @tells_prepared machine [] (UInt64.ofNat bytes)
  generalize machine.heap.prepared (fun _ => [] ++ machine.roots) (UInt64.ofNat bytes) = ready
    at tallies tells ⊢
  by_cases full : ready.overLimit (UInt64.ofNat bytes) = true
  · simp only [full, ↓reduceIte]
    exact ⟨balanced.withHeap tallies, tells _⟩
  · simp only [full, Bool.false_eq_true, ↓reduceIte]
    refine goesOn _ _ ⟨?_, ?_⟩
    · change machine.arenaBytes + UInt64.ofNat bytes = UInt64.ofNat (machine.structBytes + bytes)
      rw [balanced.counter, Nat.add_zero, UInt64.ofNat_add]
    · exact tallies.reserve bytes

/-- A frame at which one more struct arrives. -/
def expecting (frame : Frame) : Frame :=
  { frame with arrivals := frame.arrivals + 1 }

theorem leads_charge {bytes : Nat} (balanced : Balanced machine) (sweeps : Sweeps machine position) :
    Leads (charge position (UInt64.ofNat bytes)) machine
      (fun _ after => Owes bytes after ∧ Charged machine position after) Balanced := by
  let counted : Machine := { machine with frames := machine.frames.modify position expecting }
  have level : counted.frames.map Frame.arena = machine.frames.map Frame.arena :=
    @map_modify_same _ Frame.arena position expecting (fun _ => rfl) machine.frames
  have same : counted.structBytes = machine.structBytes := structBytes_congr level
  have balanced : Balanced counted := balanced.of_same rfl ⟨level, rfl⟩
  simp only [charge, leads_bind, leads_get, modifyFrame, leads_modify]
  refine leads_given fun ticked isTicked => ?_
  obtain ⟨frame, here, rfl⟩ : ∃ frame, machine.frames[position]? = some frame ∧
      ticked = expecting frame := by
    rw [List.getElem?_modify_eq, Option.map_eq_map, Option.map_eq_some_iff] at isTicked
    obtain ⟨frame, here, isArrived⟩ := isTicked
    exact ⟨frame, here, isArrived.symm⟩
  have isTicked : counted.frames[position]? = some (expecting frame) := isTicked
  split
  · have sweeps : Sweeps counted position := by
      refine sweeps.imp (fun fits => ?_) fun spotless owner isOwner => ?_
      · rw [inUse, same]
        exact fits
      · cases isTicked.symm.trans isOwner
        exact spotless frame here
    refine leads_bind.mpr (leads_sweepArena isTicked ?_)
    refine leads_request (balanced.swept sweeps isTicked) fun heap arenaBytes owes => ⟨owes, rfl, ?_⟩
    refine ⟨frame, withLive (sweptArena (referenced counted) frame.arena) (expecting frame), here, ?_,
      Or.inr rfl⟩
    change (counted.frames.modify position _)[position]? = _
    rw [List.getElem?_modify_eq, isTicked]
    rfl
  · exact leads_request balanced fun heap arenaBytes owes =>
      ⟨owes, rfl, frame, expecting frame, here, isTicked, Or.inl rfl⟩

/-- A frame has been given a struct of its own, which is on top of its arena. -/
structure Gave (machine : Machine) (position : Nat) (struct : StackStruct) (after : Machine) :
    Prop where
  stack : after.stack = machine.stack
  arena : ∃ frame owner arena, machine.frames[position]? = some frame ∧
    after.frames[position]? = some owner ∧ owner.arena = struct :: arena ∧
    (arena = frame.arena ∨ arena = sweptArena (referenced machine) frame.arena)

/-- A struct in an arena is no longer owed. -/
theorem leads_adopt {struct : StackStruct} (balanced : Balanced machine)
    (sweeps : Sweeps machine position) :
    Leads (adopt position struct) machine
      (fun value after => Balanced after ∧ value = .stack struct.id ∧ Gave machine position struct after)
      Balanced := by
  unfold adopt
  refine leads_bind.mpr ((leads_charge balanced sweeps).mono ?_ fun _ => id)
  rintro _ middle ⟨owes, charged⟩
  obtain ⟨frame, owner, here, isOwner, arena⟩ := charged.arena
  have sum := total_arenas_modify isOwner fun frame => { frame with arena := struct :: frame.arena }
  rw [StackStruct.total_cons] at sum
  have grown : structBytes { middle with
      frames := middle.frames.modify position fun frame =>
        { frame with arena := struct :: frame.arena } } = middle.structBytes + struct.bytes := by
    change total (arenas (middle.frames.modify position _)) = total (arenas middle.frames) + _
    omega
  refine ⟨⟨?_, ?_⟩, rfl, charged.stack, frame, { owner with arena := struct :: owner.arena },
    owner.arena, here, ?_, rfl, arena⟩
  · rw [grown]
    exact owes.counter
  · rw [grown]
    exact owes.tallies
  · change (middle.frames.modify position _)[position]? = _
    rw [List.getElem?_modify_eq, isOwner]
    rfl

theorem leads_copyInto {struct : StackStruct} (balanced : Balanced machine)
    (sweeps : Sweeps machine position) :
    Leads (copyInto position struct) machine
      (fun value after => Balanced after ∧ ∃ fresh, value = .stack (struct.clone fresh).1.id ∧
        Gave machine position (struct.clone fresh).1 after)
      Balanced := by
  let copied : Machine := { machine with nextNode := (struct.clone machine.nextNode).2 }
  have adopts := @leads_adopt copied position (struct.clone machine.nextNode).1
    (balanced.of_same rfl ⟨rfl, rfl⟩) sweeps
  unfold copyInto fresh
  rw [leads_bind, leads_modifyGet]
  refine adopts.mono ?_ fun _ => id
  rintro value after ⟨balanced, isValue, gave⟩
  exact ⟨balanced, machine.nextNode, isValue, gave.stack, gave.arena⟩

end Charging

section Arguments

variable {machine : Machine}

/-- The innermost frame owns what has been copied for the slots below a bound, and no more. -/
def CopiedBelow (bound : Nat) (machine : Machine) : Prop :=
  ∀ frame, machine.frames[0]? = some frame → ∀ struct ∈ frame.arena,
    (∃ slot < bound, machine.stack[slot]? = some (.stack struct.id)) ∧
      ∀ referenced, (struct.prune referenced).2 = struct

theorem CopiedBelow.spotless {bound : Nat} {frame : Frame} (copied : CopiedBelow bound machine)
    (here : machine.frames[0]? = some frame) : Spotless machine frame := by
  intro struct member
  obtain ⟨⟨slot, _, named⟩, whole⟩ := copied frame here struct member
  exact ⟨mem_referenced named, whole⟩

/-- Nothing is swept while the arguments of a call are copied, since each copy is named by its slot. -/
theorem leads_copyArguments (count : Nat) : ∀ {index : Nat} {machine : Machine}, Balanced machine →
    CopiedBelow index machine →
    Leads (copyArguments index count) machine (fun _ => Balanced) Balanced := by
  induction count with
  | zero => exact fun balanced _ => balanced
  | succ count ih =>
    intro index machine balanced copied
    have kept : CopiedBelow (index + 1) machine := fun frame here struct member => by
      obtain ⟨⟨slot, below, named⟩, whole⟩ := copied frame here struct member
      exact ⟨⟨slot, Nat.lt_succ_of_lt below, named⟩, whole⟩
    rw [copyArguments]
    refine (looks_slot index).leads fun value inSlot => ?_
    split
    · refine (looks_struct _).leads fun struct _ => ?_
      refine leads_bind.mpr ((leads_copyInto balanced (Or.inr fun _ here => copied.spotless here)).mono ?_ fun _ => id)
      rintro _ middle ⟨balanced, fresh, rfl, gave⟩
      refine leads_bind.mpr (leads_setSlot (ih (balanced.of_same rfl ⟨rfl, rfl⟩) ?_))
      obtain ⟨frame, owner, arena, here, isOwner, isArena, same⟩ := gave.arena
      have same : arena = frame.arena := same.elim id fun swept => by
        rw [swept, (copied.spotless here).swept_eq]
      intro other isOther struct member
      cases isOwner.symm.trans isOther
      rw [isArena, same] at member
      change (∃ slot < index + 1,
        (middle.stack.setIfInBounds index _)[slot]? = some (.stack struct.id)) ∧ _
      rw [gave.stack]
      rcases List.mem_cons.mp member with rfl | older
      · refine ⟨⟨index, Nat.lt_succ_self index, ?_⟩, fun _ => StackStruct.prune_clone _ _⟩
        exact Array.getElem?_setIfInBounds_self_of_lt (Array.getElem?_eq_some_iff.mp inSlot).1
      · obtain ⟨⟨slot, below, named⟩, whole⟩ := copied frame here struct older
        refine ⟨⟨slot, Nat.lt_succ_of_lt below, ?_⟩, whole⟩
        rw [Array.getElem?_setIfInBounds_ne (Nat.ne_of_gt below), named]
    · exact ih balanced kept

end Arguments

section Structs

variable {free : Licence} {machine : Machine} {α β : Type}

/-- An action that keeps the books, however it ends. -/
def Balances (action : Exec α) (machine : Machine) : Prop :=
  Leads action machine (fun _ => Balanced) Balanced

/-- What leaves the structs alone goes before. -/
theorem Balances.after {first : Exec β} {rest : β → Exec α} [touching : Touching free first]
    (shut : ¬ free.structs) (filed : Filed machine) (balanced : Balanced machine)
    (goesOn : ∀ value middle, Touches free machine middle → Balanced middle →
      Balances (rest value) middle) : Balances (first >>= rest) machine :=
  Leads.after (fun _ touches => Touches.owes touches shut filed balanced) fun value middle touches =>
    goesOn value middle touches (Touches.owes touches shut filed balanced)

theorem Balances.bind {first : Exec β} {rest : β → Exec α} (balances : Balances first machine)
    (goesOn : ∀ value middle, Balanced middle → Balances (rest value) middle) :
    Balances (first >>= rest) machine :=
  leads_bind.mpr (Leads.mono balances goesOn fun _ => id)

theorem balances_mild {action : Exec α} [touching : Touching .none action] (filed : Filed machine)
    (balanced : Balanced machine) : Balances action machine :=
  (touching.leads machine).mono (fun _ _ touches => Touches.owes touches id filed balanced)
    fun _ touches => Touches.owes touches id filed balanced

theorem balances_setSlot {index : Nat} {value : Value} (balanced : Balanced machine) :
    Balances (setSlot index value) machine :=
  leads_setSlot (balanced.of_same rfl ⟨rfl, rfl⟩)

theorem balances_pop (balanced : Balanced machine) : Balances pop machine :=
  (looks_peek 0).leads fun _ _ => balanced.of_same rfl ⟨rfl, rfl⟩

theorem balances_push {value : Value} (balanced : Balanced machine) : Balances (push value) machine := by
  unfold Balances push
  simp only [leads_bind, leads_get]
  split
  · exact leads_bind.mpr (leads_fail.mpr balanced)
  · exact balanced.of_same rfl ⟨rfl, rfl⟩

theorem balances_copyInto {struct : StackStruct} {position : Nat} (balanced : Balanced machine)
    (fits : machine.inUse < 2 ^ 64) : Balances (copyInto position struct) machine :=
  (leads_copyInto balanced (Or.inl fits)).mono (fun _ _ ends => ends.1) fun _ => id

theorem balances_copyTop (balanced : Balanced machine) (fits : machine.inUse < 2 ^ 64) :
    Balances copyTop machine := by
  unfold copyTop
  refine (looks_peek 0).leads fun value _ => ?_
  split
  · refine (looks_struct _).leads fun struct _ => ?_
    exact (balances_copyInto balanced fits).bind fun copy after balanced => balances_setSlot balanced
  · exact balanced

theorem leads_literal (site : Site) (code : Instruction) :
    Leads (literal site code) machine (fun _ after => after = machine) (· = machine) := by
  have known : Leads (structOperand code.a) machine (fun _ after => after = machine) (· = machine) := by
    simp only [structOperand, leads_bind, leads_get]
    split
    · exact rfl
    · exact leads_fail.mpr rfl
  unfold literal
  refine leads_bind.mpr (known.mono ?_ fun _ => id)
  rintro type _ rfl
  refine (looks_operand code.b).leads fun place _ => ?_
  refine (looks_given _).leads fun layout _ => ?_
  rw [leads_bind, leads_get]
  dsimp only
  split
  · exact leads_bind.mpr leads_goWrong
  · exact rfl

theorem leads_fillStruct (entries : List (Nat × Value)) : ∀ {machine : Machine} {struct : StackStruct},
    Leads (fillStruct struct entries) machine
      (fun _ after => ∃ nextNode, after = { machine with nextNode }) fun _ => False := by
  induction entries with
  | nil => exact fun {machine _} => ⟨machine.nextNode, rfl⟩
  | cons entry rest ih =>
    intro machine struct
    obtain ⟨slot, value⟩ := entry
    cases value with
    | nil | bool _ | number _ | ref _ => exact ih
    | stack node =>
      rw [fillStruct]
      refine (looks_struct node).leads fun inner _ => ?_
      unfold fresh
      rw [leads_bind, leads_modifyGet]
      refine ih.mono ?_ fun _ => id
      rintro _ after ⟨nextNode, rfl⟩
      exact ⟨nextNode, rfl⟩

theorem balances_makeStackStruct (site : Site) (code : Instruction) (balanced : Balanced machine)
    (fits : machine.inUse < 2 ^ 64) : Balances (makeStackStruct site code) machine := by
  unfold makeStackStruct
  refine leads_bind.mpr ((leads_literal site code).mono ?_ fun _ same => same ▸ balanced)
  rintro ⟨name, type, entries⟩ _ rfl
  simp only [leads_bind, leads_modifyGet]
  refine (leads_fillStruct entries).mono ?_ fun _ => False.elim
  rintro struct numbered ⟨nextNode, isNumbered⟩
  have ready : Balanced numbered := isNumbered ▸ balanced.of_same rfl ⟨rfl, rfl⟩
  refine (leads_adopt ready (Or.inl (isNumbered ▸ fits))).mono ?_ fun _ => id
  rintro value after ⟨balanced, _⟩
  simp only [leads_get, shrink, leads_modify]
  exact balances_push (balanced.of_same rfl ⟨rfl, rfl⟩)

theorem balances_setUpvalue (site : Site) (index : Int) (filed : Filed machine)
    (balanced : Balanced machine) (fits : machine.inUse < 2 ^ 64) :
    Balances (setUpvalue site index) machine := by
  unfold setUpvalue
  refine (looks_operand index).leads fun position _ => ?_
  refine (looks_upvalueCell site.frame position).leads fun found present => ?_
  refine (looks_peek 0).leads fun value _ => ?_
  obtain ⟨id, cell⟩ := found
  cases cell with
  | onStack slot =>
    cases value with
    | nil | bool _ | number _ | ref _ => exact balances_setSlot balanced
    | stack node =>
      refine leads_bind.mpr (leads_get.mpr ?_)
      refine (looks_struct node).leads fun struct _ => ?_
      exact (balances_copyInto balanced fits).bind fun copy after balanced => balances_setSlot balanced
  | closed old =>
    have shut : Shut id (fun _ => True) machine := by
      refine ⟨filed.tidy.bounded present, fun object found => ⟨old, ?_, trivial⟩⟩
      exact Option.some.inj (found.symm.trans present)
    refine Balances.after not_false filed balanced fun moved middle (touches : Touches .none _ _) balanced => ?_
    refine balanced.withHeap (balanced.tallies.set fun object found => ?_)
    obtain ⟨_, rfl, _⟩ := (Touches.shut touches shut).2 object found
    rfl

end Structs

section Stores

variable {program : Program} {live : ObjectId → Prop} {shape : Shape} {machine : Machine} {α : Type}

/-- What is safe and leads somewhere is both when it gets there. -/
theorem Leads.safely {action : Exec α} {done sound : α → Machine → Prop} {struck : Machine → Prop}
    (leads : Leads action machine done struck) (safe : Safe program action machine sound) :
    Leads action machine (fun result after => done result after ∧ sound result after) struck := by
  unfold Leads Safe at *
  cases ran : action machine with
  | ok result after =>
    rw [ran] at leads safe
    exact ⟨leads, safe⟩
  | error stop after =>
    rw [ran] at leads safe
    cases stop with
    | fault error => exact leads
    | wrong => trivial

/-- A store adds what it adds to the one struct that it changes. -/
theorem structBytes_withSlot {node : NodeId} {struct : StackStruct} (slot : Nat) (contents : Slot)
    (unique : StackStruct.Unique (nodeIds machine.frames)) (found : machine.node? node = some struct) :
    total (arenas (withSlot machine.frames node slot contents)) + struct.bytes
      = machine.structBytes + (struct.store slot contents).bytes := by
  have same : arenas (withSlot machine.frames node slot contents)
      = (arenas machine.frames).map
          (StackStruct.update node fun struct => struct.store slot contents) := by
    rw [arenas, withSlot, List.flatMap_map, arenas, List.map_flatMap]
    exact List.flatMap_congr fun frame _ => StackStruct.updateAmong_eq frame.arena
  rw [node?_eq, StackStruct.findAmong?_eq] at found
  rw [same, structBytes]
  refine StackStruct.total_map_update unique found fun owner member here => ?_
  refine StackStruct.bytes_update (unique.of_le fun id => ?_) here
  rw [nodeIds, StackStruct.idsAmong_eq]
  exact StackStruct.count_child_le member id

/-- What was paid for is in its place. -/
theorem Owes.store {node : NodeId} {struct : StackStruct} {slot : Nat} {contents : Slot} {extra : Nat}
    (owes : Owes extra machine) (unique : StackStruct.Unique (nodeIds machine.frames))
    (found : machine.node? node = some struct)
    (paid : (struct.store slot contents).bytes = struct.bytes + extra) :
    Balanced { machine with frames := withSlot machine.frames node slot contents } := by
  have sum := structBytes_withSlot slot contents unique found
  have grown : total (arenas (withSlot machine.frames node slot contents))
      = machine.structBytes + extra := by
    omega
  refine ⟨?_, ?_⟩
  · change machine.arenaBytes = UInt64.ofNat (total (arenas (withSlot _ _ _ _)))
    rw [grown]
    exact owes.counter
  · change machine.heap.Tallies (total (arenas (withSlot _ _ _ _)))
    rw [grown]
    exact owes.tallies

theorem balances_storeField {target : Target} {object value : Value} {slot place source : Nat}
    {frame : Frame} (data : Data program live [] shape machine) (filed : Filed machine)
    (balanced : Balanced machine) (fits : machine.inUse < 2 ^ 64)
    (here : machine.frames[0]? = some frame) (objectHere : machine.stack[place]? = some object)
    (valueHere : machine.stack[source]? = some value)
    (isTarget : target? machine object = some target) (inside : slot < target.type.fields.length) :
    Balances (storeField object slot value) machine := by
  cases object with
  | nil | bool _ | number _ => cases isTarget
  | ref id =>
    have mild : Touching .none (storeField (.ref id) slot value) := by
      unfold storeField
      cases value <;> dsimp only <;> infer_instance
    exact balances_mild filed balanced
  | stack node =>
    cases value with
    | nil | bool _ | number _ | ref _ =>
      obtain ⟨struct, found, _, _⟩ := data.struct objectHere
      exact balanced.store data.unique found (StackStruct.bytes_store_plain struct slot _)
    | stack inner =>
      refine (looks_struct inner).leads fun struct isStruct => ?_
      obtain ⟨_, sameStruct, _, fitsStruct⟩ := data.struct valueHere
      cases isStruct.symm.trans sameStruct
      have above := Nat.le_of_lt (StackStruct.clone_next_lt struct machine.nextNode)
      let copied : Machine := { machine with nextNode := (struct.clone machine.nextNode).2 }
      have data' : Data program live [] shape copied := data.skip above
      unfold fresh
      rw [leads_bind, leads_modifyGet]
      -- the charge keeps the target in its arena, and its node apart from all others
      have settles : Safe program (charge 0 (UInt64.ofNat ((struct.clone machine.nextNode).1.bytes + 8)))
          copied fun _ after => ∃ live', Data program live' [] shape after ∧
            Settled live live' copied after :=
        safe_charge data' here fun live' _ data'' settled => ⟨live', data'', settled⟩
      have ready : Balanced copied := balanced.of_same rfl ⟨rfl, rfl⟩
      have charges := (leads_charge ready (Or.inl fits)).safely settles
      refine leads_bind.mpr (charges.mono ?_ fun _ => id)
      rintro _ after ⟨⟨owes, _⟩, live', data'', settled⟩
      have targetHere : after.stack[place]? = some (.stack node) := by
        rw [settled.stack]
        exact objectHere
      obtain ⟨found, foundAfter, owned, fitsTarget⟩ := data''.struct targetHere
      have declared := settled.slot_lt data' objectHere isTarget inside foundAfter fitsTarget
      refine owes.store data''.unique foundAfter ?_
      rw [StackStruct.bytes_store _ _ declared]
      simp only [Slot.inner?, Option.toList_some, StackStruct.linked_cons, StackStruct.linked_nil]
      omega

theorem balances_setProperty {site : Site} {index : Int} {frame : Frame}
    (data : Data program live [] shape machine) (filed : Filed machine) (balanced : Balanced machine)
    (fits : machine.inUse < 2 ^ 64) (here : machine.frames[0]? = some frame) :
    Balances (setProperty site index) machine := by
  unfold setProperty
  refine (looks_nameOperand site index).leads fun named _ => ?_
  refine (looks_peek 1).leads fun object ⟨place, objectHere⟩ => ?_
  rw [leads_bind, leads_get]
  split
  · exact leads_fail.mpr balanced
  · next target isTarget =>
    split
    · exact leads_fail.mpr balanced
    · next slot isField =>
      refine (looks_peek 0).leads fun value ⟨source, valueHere⟩ => ?_
      refine (balances_storeField data filed balanced fits here objectHere valueHere isTarget
        (findField_lt isField)).bind fun result _ balanced => ?_
      refine (balances_pop balanced).bind fun _ _ balanced => ?_
      exact (balances_pop balanced).bind fun _ _ balanced => balances_push balanced

end Stores

section Calls

variable {machine : Machine}

/-- The machine when the frame of a call is there and its arguments have not been copied. -/
def begun (machine : Machine) (closure : ObjectId) (argCount : Nat) : Machine :=
  { machine with frames := { closure, base := machine.stack.size - argCount - 1 } :: machine.frames }

theorem balances_begun (closure : ObjectId) (argCount count : Nat) (balanced : Balanced machine) :
    Balances (copyArguments (machine.stack.size - argCount - 1) count) (begun machine closure argCount) := by
  refine leads_copyArguments count ⟨balanced.counter, balanced.tallies⟩ fun frame here => ?_
  cases here
  simp

theorem balances_callClosure (closure : ObjectId) (argCount : Nat) (balanced : Balanced machine) :
    Balances (callClosure closure argCount) machine := by
  unfold Balances callClosure
  simp only [leads_bind, leads_get]
  refine leads_given fun body _ => ?_
  split
  · exact leads_bind.mpr (leads_fail.mpr balanced)
  · simp only [leads_bind, leads_get]
    split
    · exact leads_bind.mpr (leads_fail.mpr balanced)
    · split
      · exact leads_bind.mpr leads_goWrong
      · exact balances_begun closure argCount (argCount + 1) balanced

theorem balances_callValue (callee : Value) (argCount : Nat) (filed : Filed machine)
    (balanced : Balanced machine) : Balances (callValue callee argCount) machine := by
  unfold callValue
  split
  · refine leads_bind.mpr (leads_get.mpr ?_)
    split
    · exact balances_callClosure _ argCount balanced
    · exact balances_mild filed balanced
    · exact leads_fail.mpr balanced
  · exact leads_fail.mpr balanced

theorem balances_invoke (name : Text) (argCount : Nat) (filed : Filed machine)
    (balanced : Balanced machine) : Balances (invoke name argCount) machine := by
  unfold invoke
  refine (looks_peek argCount).leads fun receiver _ => ?_
  refine leads_bind.mpr (leads_get.mpr ?_)
  split
  · exact leads_fail.mpr balanced
  · split
    · refine (looks_given _).leads fun callee _ => ?_
      refine leads_bind.mpr (leads_get.mpr ?_)
      refine Balances.after not_false filed balanced fun _ middle (touches : Touches .none _ _) =>
        balances_callValue callee argCount (filed.touches touches)
    · split
      · exact balances_callClosure _ argCount balanced
      · exact leads_fail.mpr balanced

/-- The bytes of a frame are given back as a whole. -/
theorem leads_leave {done : Unit → Machine → Prop} {struck : Machine → Prop} (balanced : Balanced machine)
    (fits : machine.inUse < 2 ^ 64) (goesOn : ∀ after, Balanced after → done () after) :
    Leads popFrame machine done struck := by
  unfold popFrame topFrame
  simp only [leads_bind, leads_get]
  refine leads_given fun frame isTop => ?_
  refine goesOn _ ?_
  rw [arenaSize_eq]
  refine balanced.released fits ?_
  obtain ⟨rest, isFrames⟩ := List.head?_eq_some_iff.mp isTop
  rw [structBytes, isFrames, List.drop_one, List.tail_cons, arenas, arenas, List.flatMap_cons,
    StackStruct.total_append]
  omega

/-- The machines at which a return gives bytes back: when the cells of its slots are closed, and when
its result has been copied for the caller. -/
inductive Parts (site : Site) (machine : Machine) : Machine → Prop where
  | closed {after : Machine} : closeCells site.frame.base machine = .ok () after →
      Parts site machine after
  | handed {closed after : Machine} {node : NodeId} {struct : StackStruct} {copy : Value} :
      closeCells site.frame.base machine = .ok () closed → closed.node? node = some struct →
      peek 0 closed = .ok (.stack node) closed → copyInto 1 struct closed = .ok copy after →
      Parts site machine after

/-- The end of an action is what the action comes to. -/
theorem Leads.ran {α : Type} {action : Exec α} {done : α → Machine → Prop} {struck : Machine → Prop}
    (leads : Leads action machine done struck) :
    Leads action machine (fun result after => action machine = .ok result after ∧ done result after)
      struck := by
  unfold Leads at *
  cases ran : action machine with
  | ok result after =>
    rw [ran] at leads
    exact ⟨rfl, leads⟩
  | error stop after =>
    rw [ran] at leads
    cases stop <;> exact leads

theorem balances_handBack (base : Nat) (result : Value) (balanced : Balanced machine)
    (fits : machine.inUse < 2 ^ 64) :
    Balances (do shrink base; popFrame; push result; return Progress.running) machine := by
  unfold Balances shrink
  rw [leads_bind, leads_modify, leads_bind]
  refine leads_leave (balanced.of_same rfl ⟨rfl, rfl⟩) fits fun after balanced => ?_
  exact (balances_push balanced).bind fun _ _ balanced => balanced

theorem balances_finishCall {site : Site} (filed : Filed machine) (balanced : Balanced machine)
    (fits : ∀ moment, Parts site machine moment → moment.inUse < 2 ^ 64) :
    Balances (finishCall site) machine := by
  have closes := ((inferInstance : Touching ⟨True, False⟩ (closeCells site.frame.base)).leads
    machine).ran
  unfold finishCall
  refine leads_bind.mpr (closes.mono ?_ fun _ touches => Touches.owes touches id filed balanced)
  rintro _ closed ⟨isClosed, touches⟩
  have balanced : Balanced closed := Touches.owes touches id filed balanced
  have enough := fits closed (.closed isClosed)
  refine leads_bind.mpr ((looks_peek 0).ran.mono ?_ fun _ => False.elim)
  rintro result _ ⟨isResult, rfl, -⟩
  rw [leads_bind, leads_get]
  split
  · refine leads_bind.mpr (leads_leave balanced enough fun after balanced => ?_)
    exact balanced.of_same rfl ⟨rfl, rfl⟩
  · cases result with
    | nil | bool _ | number _ | ref _ => exact balances_handBack _ _ balanced enough
    | stack node =>
      refine (looks_struct node).leads fun struct isStruct => ?_
      have copies : Balances (copyInto 1 struct) _ := balances_copyInto balanced enough
      refine leads_bind.mpr (copies.ran.mono ?_ fun _ => id)
      rintro copy handed ⟨isHanded, balanced⟩
      exact balances_handBack _ copy balanced (fits handed (.handed isClosed isStruct isResult isHanded))

end Calls

section Steps

variable {program : Program} {machine : Machine}

/-- The closure that the next instruction of a machine calls, with so many arguments, and the machine
that calls it. -/
inductive Calls (machine : Machine) : Machine → ObjectId → Nat → Prop where
  | callee {site : Site} {code : Instruction} {fetched : Machine} {closure : ObjectId} :
      fetch machine = .ok (site, code) fetched → code.op = .call →
      peek code.a.toNat fetched = .ok (.ref closure) fetched →
      Calls machine fetched closure code.a.toNat
  | method {site : Site} {code : Instruction} {fetched : Machine} {key : ObjectId} {name : Text}
      {receiver : Value} {target : Target} {method : Method} :
      fetch machine = .ok (site, code) fetched → code.op = .invoke →
      nameOperand site code.a fetched = .ok (key, name) fetched →
      peek code.b.toNat fetched = .ok receiver fetched → target? fetched receiver = some target →
      target.type.findField name = none → target.type.findMethod name = some method →
      Calls machine fetched method.closure code.b.toNat
  | field {site : Site} {code : Instruction} {fetched called : Machine} {key closure : ObjectId}
      {name : Text} {receiver : Value} {target : Target} {slot : Nat} :
      fetch machine = .ok (site, code) fetched → code.op = .invoke →
      nameOperand site code.a fetched = .ok (key, name) fetched →
      peek code.b.toNat fetched = .ok receiver fetched → target? fetched receiver = some target →
      target.type.findField name = some slot → target.field? slot = some (.ref closure) →
      setSlot (fetched.stack.size - code.b.toNat - 1) (.ref closure) fetched = .ok () called →
      Calls machine called closure code.b.toNat

/-- The machines at which one instruction gives bytes back: at its beginning, while arguments are
copied, when a frame is left, and where a fault ends the run. -/
inductive Releases (machine : Machine) : Machine → Prop where
  | here : Releases machine machine
  | passing {called moment : Machine} {closure : ObjectId} {argCount count : Nat} :
      Calls machine called closure argCount → count ≤ argCount + 1 →
      copyArguments (called.stack.size - argCount - 1) count (begun called closure argCount)
        = .ok () moment →
      Releases machine moment
  | leaving {site : Site} {code : Instruction} {fetched moment : Machine} :
      fetch machine = .ok (site, code) fetched → code.op = .return → Parts site fetched moment →
      Releases machine moment
  | struck {error : RuntimeError} {after : Machine} : step machine = .error (.fault error) after →
      Releases machine after

/-- Whether the next instruction gives bytes back only where it begins. -/
def Calm (machine : Machine) : Bool :=
  match fetch machine, step machine with
  | .ok (_, code) _, .ok _ _ => code.op != .call && code.op != .invoke && code.op != .return
  | _, _ => false

theorem Releases.of_calm {machine moment : Machine} (releases : Releases machine moment)
    (calm : machine.Calm = true) : moment = machine := by
  have mild : ∀ {site : Site} {code : Instruction} {fetched : Machine},
      fetch machine = .ok (site, code) fetched →
      code.op ≠ .call ∧ code.op ≠ .invoke ∧ code.op ≠ .return := by
    intro site code fetched isFetched
    unfold Calm at calm
    rw [isFetched] at calm
    split at calm
    · next same _ =>
      cases same
      simpa [Bool.and_eq_true, and_assoc] using calm
    · cases calm
  cases releases with
  | here => rfl
  | passing calls _ _ =>
    cases calls with
    | callee isFetched isCall _ => exact absurd isCall (mild isFetched).1
    | method isFetched isInvoke _ _ _ _ _ => exact absurd isInvoke (mild isFetched).2.1
    | field isFetched isInvoke _ _ _ _ _ _ => exact absurd isInvoke (mild isFetched).2.1
  | leaving isFetched isReturn _ => exact absurd isReturn (mild isFetched).2.2
  | struck failed =>
    unfold Calm at calm
    rw [failed] at calm
    split at calm
    · next succeeded => cases succeeded
    · cases calm

theorem Leads.apply {α : Type} {action : Exec α} {done : α → Machine → Prop}
    {struck : Machine → Prop} {result : α} {after : Machine} (leads : Leads action machine done struck)
    (ran : action machine = .ok result after) : done result after := by
  rw [Leads, ran] at leads
  exact leads

theorem Balances.apply {α : Type} {action : Exec α} {result : α} {after : Machine}
    (balances : Balances action machine) (ran : action machine = .ok result after) :
    Balanced after := by
  rw [Balances, Leads, ran] at balances
  exact balances

theorem Owes.fetch {site : Site} {code : Instruction} {after : Machine} (balanced : Balanced machine)
    (ran : fetch machine = .ok (site, code) after) : Balanced after ∧ (Filed machine → Filed after) := by
  unfold Machine.fetch at ran
  split at ran
  · cases ran
  · next frame rest isFrames =>
    split at ran
    · cases ran
    · split at ran
      · cases ran
      · cases ran
        refine ⟨balanced.of_same rfl ⟨?_, rfl⟩, fun filed => filed.withFrames _⟩
        rw [isFrames]
        rfl

theorem Calls.balanced {called : Machine} {closure : ObjectId} {argCount : Nat}
    (calls : Calls machine called closure argCount) (balanced : Balanced machine) :
    Balanced called := by
  cases calls with
  | callee isFetched => exact (balanced.fetch isFetched).1
  | method isFetched => exact (balanced.fetch isFetched).1
  | field isFetched _ _ _ _ _ _ isSet =>
    exact (balances_setSlot (balanced.fetch isFetched).1).apply isSet

theorem Parts.balanced {site : Site} {moment : Machine} (parts : Parts site machine moment)
    (filed : Filed machine) (balanced : Balanced machine)
    (fits : ∀ moment, Parts site machine moment → moment.inUse < 2 ^ 64) : Balanced moment := by
  have closes := (inferInstance : Touching ⟨True, False⟩ (closeCells site.frame.base)).leads machine
  have shut : ∀ {after}, closeCells site.frame.base machine = .ok () after → Balanced after :=
    fun isClosed => Touches.owes (closes.apply isClosed) id filed balanced
  cases parts with
  | closed isClosed => exact shut isClosed
  | handed isClosed _ _ isHanded =>
    exact (balances_copyInto (shut isClosed) (fits _ (.closed isClosed))).apply isHanded

theorem AtCode.fetch_eq {frame : Frame} {waiting : List Frame} {body : Prototype}
    {code : Instruction} (atCode : AtCode machine frame waiting body code) :
    fetch machine = .ok (⟨frame, body⟩, code) (fetched machine frame waiting) := by
  simp only [fetch, atCode.frames, atCode.isBody, atCode.here]
  rfl

theorem Sound.executing {frame : Frame} {waiting : List Frame} {body : Prototype}
    {code : Instruction} (sound : Sound program machine)
    (atCode : AtCode machine frame waiting body code) :
    ∃ live shape, Executing program live shape (fetched machine frame waiting) ⟨frame, body⟩ := by
  obtain ⟨live, ⟨calls, captured, height⟩, data, stacked⟩ := sound
  cases calls with
  | nil => cases stacked
  | cons call calls =>
    obtain ⟨site, _, after, isFetched, _, _, _, executing⟩ := Machine.fetch_eq data stacked
    rw [atCode.fetch_eq] at isFetched
    cases isFetched
    exact ⟨live, _, executing⟩

/-- The instructions that handle structs. -/
theorem balances_execute {live : ObjectId → Prop} {shape : Shape} {site : Site} {code : Instruction}
    (executing : Executing program live shape machine site) (filed : Filed machine)
    (balanced : Balanced machine) (fits : machine.inUse < 2 ^ 64)
    (parts : code.op = .return → ∀ moment, Parts site machine moment → moment.inUse < 2 ^ 64)
    (moves : code.op.movesStructs = true) : Balances (execute site code) machine := by
  have ends : ∀ (_ : Unit) after, Balanced after → Balances (pure Progress.running) after :=
    fun _ _ balanced => balanced
  unfold execute
  cases isOp : code.op with
  | setUpvalue => exact (balances_setUpvalue site code.a filed balanced fits).bind ends
  | setProperty =>
    obtain ⟨frame, rest, _, _, isFrames, _⟩ := executing.frame
    have here : machine.frames[0]? = some frame := by rw [isFrames]; rfl
    exact (balances_setProperty executing.data filed balanced fits here).bind ends
  | call =>
    refine (looks_operand code.a).leads fun argCount _ => ?_
    refine (looks_peek argCount).leads fun callee _ => ?_
    exact (balances_callValue callee argCount filed balanced).bind ends
  | invoke =>
    refine (looks_nameOperand site code.a).leads fun named _ => ?_
    refine (looks_operand code.b).leads fun argCount _ => ?_
    exact (balances_invoke named.2 argCount filed balanced).bind ends
  | «return» => exact balances_finishCall filed balanced (parts isOp)
  | stackStruct => exact (balances_makeStackStruct site code balanced fits).bind ends
  | copyStruct => exact (balances_copyTop balanced fits).bind ends
  | _ =>
    rw [isOp] at moves
    cases moves

theorem balances_step (sound : Sound program machine) (filed : Filed machine)
    (balanced : Balanced machine)
    (fits : ∀ moment, Releases machine moment → moment.inUse < 2 ^ 64) :
    Balances step machine := by
  obtain ⟨frame, waiting, body, code, atCode⟩ := sound.atCode
  have level : (fetched machine frame waiting).frames.map Frame.arena
      = machine.frames.map Frame.arena := by
    rw [atCode.frames]
    rfl
  have ready : Balanced (fetched machine frame waiting) := balanced.of_same rfl ⟨level, rfl⟩
  have filedReady : Filed (fetched machine frame waiting) := filed.withFrames _
  cases moves : code.op.movesStructs with
  | false =>
    exact (atCode.leads filed).mono (fun _ _ executes => executes.balanced moves filedReady ready)
      fun _ struck => struck.balanced moves filedReady ready
  | true =>
    obtain ⟨live, shape, executing⟩ := sound.executing atCode
    have enough : (fetched machine frame waiting).inUse < 2 ^ 64 := by
      have same : (fetched machine frame waiting).inUse = machine.inUse := by
        rw [inUse, inUse, structBytes_congr level]
        rfl
      rw [same]
      exact fits machine .here
    have executes := balances_execute executing filedReady ready enough
      (fun isReturn moment parts => fits moment (.leaving atCode.fetch_eq isReturn parts)) moves
    unfold Balances Leads at executes ⊢
    rw [atCode.step_eq]
    exact executes

/-- The books are right wherever bytes are given back. -/
theorem Releases.balanced {moment : Machine} (releases : Releases machine moment)
    (steps : Balances step machine) (filed : Filed machine) (balanced : Balanced machine)
    (fits : ∀ moment, Releases machine moment → moment.inUse < 2 ^ 64) : Balanced moment := by
  cases releases with
  | here => exact balanced
  | passing calls _ copied => exact (balances_begun _ _ _ (calls.balanced balanced)).apply copied
  | leaving isFetched isReturn parts =>
    obtain ⟨ready, kept⟩ := balanced.fetch isFetched
    exact parts.balanced (kept filed) ready fun moment parts =>
      fits moment (.leaving isFetched isReturn parts)
  | struck ran =>
    rw [Balances, Leads, ran] at steps
    exact steps.1

end Steps

section Exact

variable {machine : Machine}

/-- The counts are right to the byte. -/
structure Exact (machine : Machine) : Prop where
  structs : machine.arenaBytes.toNat = machine.structBytes
  heap : machine.heap.bytes.toNat = Heap.bytesOf machine.heap.listed + machine.arenaBytes.toNat

/-- What can be given back has been charged: what a sweep leaves was there before, what a frame owns
is charged for structs, and that is counted by the heap. -/
structure Covers (machine : Machine) : Prop where
  sweep : ∀ frame ∈ machine.frames,
    arenaSize (sweptArena (referenced machine) frame.arena) ≤ arenaSize frame.arena
  frame : ∀ frame ∈ machine.frames, arenaSize frame.arena ≤ machine.arenaBytes
  heap : machine.arenaBytes ≤ machine.heap.bytes

theorem Owes.exact (balanced : Balanced machine) (fits : machine.inUse < 2 ^ 64) : Exact machine := by
  have inside : machine.structBytes < 2 ^ 64 := Nat.lt_of_le_of_lt (Nat.le_add_left _ _) fits
  have structs : machine.arenaBytes.toNat = machine.structBytes := by
    rw [balanced.counter, Nat.add_zero, UInt64.toNat_ofNat_of_lt' inside]
  exact ⟨structs, by rw [structs]; exact balanced.tallies.toNat fits⟩

theorem Exact.covers (exact : Exact machine) : Covers machine := by
  have charged : machine.structBytes < 2 ^ 64 := exact.structs ▸ UInt64.toNat_lt _
  have sizes : ∀ arena : List StackStruct, total arena ≤ machine.structBytes →
      (arenaSize arena).toNat = total arena := fun arena less => by
    rw [arenaSize_eq, UInt64.toNat_ofNat_of_lt' (Nat.lt_of_le_of_lt less charged)]
  have owned : ∀ frame ∈ machine.frames, total frame.arena ≤ machine.structBytes := by
    intro frame member
    obtain ⟨position, here⟩ := List.mem_iff_getElem?.mp member
    exact total_arena_le here
  refine ⟨fun frame member => ?_, fun frame member => ?_, ?_⟩
  · have less := @total_swept_le (referenced machine) frame.arena
    rw [UInt64.le_iff_toNat_le, sizes _ (owned frame member),
      sizes _ (Nat.le_trans less (owned frame member))]
    exact less
  · rw [UInt64.le_iff_toNat_le, sizes _ (owned frame member), exact.structs]
    exact owned frame member
  · rw [UInt64.le_iff_toNat_le, exact.heap]
    exact Nat.le_add_left _ _

end Exact

end ScriptMachine.Machine
