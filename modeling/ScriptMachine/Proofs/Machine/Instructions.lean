import ScriptMachine.Proofs.Machine.Calls

set_option autoImplicit false

/- Safety of the instructions that stay in their frame. Each rule asks for the operands and the
values that the code guarantees, and leaves data of the shape that the effect of the instruction
announces. -/
namespace ScriptMachine.Machine

variable {program : Program} {live : ObjectId → Prop} {shape : Shape} {machine : Machine}
  {site : Site} {index : Int} {done : Unit → Machine → Prop}

/-- What is known while an instruction of the innermost frame is executed. -/
structure Executing (program : Program) (live : ObjectId → Prop) (shape : Shape)
    (machine : Machine) (site : Site) : Prop where
  data : Data program live [] shape machine
  frame : ∃ top rest call calls, machine.frames = top :: rest ∧ shape.calls = call :: calls ∧
    Runs live machine.heap top call ∧ site.frame.closure = top.closure ∧
    site.frame.base = call.base ∧ site.prototype = call.body
  bases : ∀ frame ∈ machine.frames, frame.base ≤ site.frame.base
  bottom : ∃ frame ∈ machine.frames, frame.base = 0
  above : site.frame.base ≤ shape.height

theorem Executing.constants (executing : Executing program live shape machine site) :
    ∀ value ∈ site.prototype.constants, value.Kept live := by
  obtain ⟨_, _, _, _, _, _, runs, _, _, body⟩ := executing.frame
  obtain ⟨_, _, _, _, _, constants⟩ := executing.data.stored.prototype runs.live runs.body
  rw [body]
  exact constants

theorem Executing.constant (executing : Executing program live shape machine site) {value : Value}
    (here : site.prototype.constant? index = some value) : value.Kept live :=
  executing.constants value (Prototype.constant?_mem here)

section Operands

theorem safe_operand {value : Int} {done : Nat → Machine → Prop} (valid : 0 ≤ value)
    (next : done value.toNat machine) : Safe program (operand value) machine done := by
  rw [operand, if_neg (by omega)]
  exact next

theorem safe_nameOperand {done : ObjectId × Text → Machine → Prop}
    (executing : Executing program live shape machine site)
    (names : site.prototype.Names program.heap index)
    (next : ∀ id text, live id → done (id, text) machine) :
    Safe program (nameOperand site index) machine done := by
  obtain ⟨id, text, here, string⟩ := names
  have present : machine.heap.string? id = some text := by
    unfold Heap.string? at string ⊢
    split at string
    · next found =>
      rw [executing.data.stored.code (executing.constant here) found rfl]
      exact string
    · cases string
  simp only [nameOperand, here, safe_bind, safe_get, present, safe_given, safe_pure]
  exact next id text (executing.constant here)

end Operands

section Globals

theorem safe_getGlobal (executing : Executing program live shape machine site)
    (names : site.prototype.Names program.heap index)
    (next : ∀ after, Leaves program { shape with height := shape.height + 1 } after →
      done () after) :
    Safe program (getGlobal site index) machine done := by
  have data := executing.data
  simp only [getGlobal, safe_bind, safe_get]
  refine safe_nameOperand executing names fun key name liveKey => ?_
  simp only
  split
  · next value _ found =>
    exact safe_push data (Kept.holds (data.globals found).2) fun pushed => next _ ⟨live, pushed⟩
  · next native _ found =>
    exact safe_push data (data.natives found).2 fun pushed => next _ ⟨live, pushed⟩
  · exact safe_fail data (by simp)

theorem safe_storeGlobal {key : ObjectId} {name : Text}
    (data : Data program live [] shape machine) (liveKey : live key) (inside : 0 < shape.height)
    (next : ∀ globals, Data program live [] shape { machine with globals } →
      done () { machine with globals }) :
    Safe program (storeGlobal key name) machine done := by
  simp only [storeGlobal, safe_bind]
  refine safe_peek data inside fun value here => ?_
  have holds := data.values here
  have keep : value.Kept live →
      Data program live [] shape { machine with globals := machine.globals.insert key value } := by
    intro kept
    refine { data with globals := ?_ }
    intro other found present
    rw [Std.TreeMap.getElem?_insert] at present
    split at present
    · next same =>
      cases present
      exact ⟨(Std.LawfulEqCmp.eq_of_compare same) ▸ liveKey, kept⟩
    · exact data.globals present
  cases value with
  | nil | bool _ | number _ => exact next _ (keep trivial)
  | ref id => exact next _ (keep holds)
  | stack node => exact safe_fail data (by simp)

theorem safe_defineGlobal (executing : Executing program live shape machine site)
    (names : site.prototype.Names program.heap index) (inside : 0 < shape.height)
    (clear : ∀ slot ∈ shape.captured, slot < shape.height - 1)
    (next : ∀ after, Leaves program { shape with height := shape.height - 1 } after →
      done () after) :
    Safe program (defineGlobal site index) machine done := by
  simp only [defineGlobal, safe_bind]
  refine safe_nameOperand executing names fun key name liveKey => ?_
  refine safe_storeGlobal executing.data liveKey inside fun globals data => ?_
  exact safe_pop data inside clear fun _ _ popped => next _ ⟨live, popped⟩

theorem safe_setGlobal (executing : Executing program live shape machine site)
    (names : site.prototype.Names program.heap index) (inside : 0 < shape.height)
    (next : ∀ after, Leaves program shape after → done () after) :
    Safe program (setGlobal site index) machine done := by
  simp only [setGlobal, safe_bind]
  refine safe_nameOperand executing names fun key name liveKey => ?_
  simp only [safe_get]
  split
  · exact safe_fail executing.data (by simp)
  · exact safe_storeGlobal executing.data liveKey inside fun globals data => next _ ⟨live, data⟩

end Globals

section Upvalues

theorem safe_getUpvalue (executing : Executing program live shape machine site) (valid : 0 ≤ index)
    (inside : index.toNat < site.prototype.captures.size)
    (next : ∀ after, Leaves program { shape with height := shape.height + 1 } after →
      done () after) :
    Safe program (getUpvalue site index) machine done := by
  have data := executing.data
  obtain ⟨top, rest, call, calls, frames, active, _, closure, _, body⟩ := executing.frame
  simp only [getUpvalue, safe_bind]
  refine safe_operand valid ?_
  refine safe_upvalueCell data frames active closure (by simp) (body ▸ inside) ?_
  intro id contents _ _ isLive found _ _
  obtain ⟨object, here, sane⟩ := data.stored.sane isLive
  rw [found] at here
  cases here
  cases contents with
  | closed value =>
    exact safe_push data (Kept.holds sane) fun pushed => next _ ⟨live, pushed⟩
  | onStack slot =>
    have below := (data.cells sane).1
    simp only [safe_bind]
    refine safe_slot data below fun value present => ?_
    exact safe_push data ((data.values present).mono (Nat.le_of_lt below)) fun pushed =>
      next _ ⟨live, pushed⟩

theorem safe_setUpvalue (executing : Executing program live shape machine site) (valid : 0 ≤ index)
    (bound : index.toNat < site.prototype.captures.size) (inside : 0 < shape.height)
    (next : ∀ after, Leaves program shape after → done () after) :
    Safe program (setUpvalue site index) machine done := by
  have data := executing.data
  obtain ⟨top, rest, call, calls, frames, active, _, closure, _, body⟩ := executing.frame
  simp only [setUpvalue, safe_bind]
  refine safe_operand valid ?_
  refine safe_upvalueCell data frames active closure (by simp) (body ▸ bound) ?_
  intro id contents _ _ isLive found isClosure member
  refine safe_peek data inside fun value here => ?_
  exact safe_assignCell data frames executing.bottom isLive found isClosure member here
    fun live' after data' => next after ⟨live', data'⟩

end Upvalues

section Properties

theorem safe_getProperty (executing : Executing program live shape machine site)
    (names : site.prototype.Names program.heap index) (inside : 0 < shape.height)
    (next : ∀ after, Leaves program shape after → done () after) :
    Safe program (getProperty site index) machine done := by
  have data := executing.data
  simp only [getProperty, safe_bind]
  refine safe_nameOperand executing names fun _ name _ => ?_
  simp only [safe_get]
  refine safe_peek data inside fun value here => ?_
  cases isTarget : target? machine value with
  | none => exact safe_fail data (by simp)
  | some target =>
    simp only
    cases isField : target.type.findField name with
    | none => exact safe_fail data (by simp)
    | some slot =>
      obtain ⟨field, found, holds⟩ := (data.target here isTarget).1 slot (findField_lt isField)
      simp only [safe_bind, found, safe_given]
      exact safe_setTop data inside holds fun data' => next _ ⟨live, data'⟩

/-- A struct that a stack slot names has the slots of its type, also when a frame has been charged. -/
theorem Settled.slot_lt {live' : ObjectId → Prop} {before after : Machine} {target : Target}
    {node : NodeId} {slot place : Nat} {found : StackStruct}
    (settled : Settled live live' before after) (data : Data program live [] shape before)
    (objectHere : before.stack[place]? = some (.stack node))
    (isTarget : target? before (.stack node) = some target)
    (inside : slot < target.type.fields.length) (foundAfter : after.node? node = some found)
    (fits : found.Fits (Value.Kept live') program.registry.Sized) : slot < found.slots.length := by
  obtain ⟨old, foundBefore, _, _⟩ := data.struct objectHere
  obtain ⟨same, foundSame, sameType⟩ := settled.types (mem_referenced objectHere) foundBefore
  cases foundAfter.symm.trans foundSame
  obtain ⟨type, registered, count⟩ := fits.slotCount
  simp only [target?, foundBefore, Option.map_some] at isTarget
  cases isTarget
  simp only [view, View.structType, data.registry, ← sameType, registered, Option.getD_some] at inside
  rw [count]
  exact inside

/-- Storing in a slot of a struct on the stack gives a value that may stand where the struct does. -/
theorem safe_storeField {target : Target} {object value : Value} {slot place source : Nat}
    {done : Value → Machine → Prop} (executing : Executing program live shape machine site)
    (objectHere : machine.stack[place]? = some object)
    (valueHere : machine.stack[source]? = some value)
    (isTarget : target? machine object = some target) (inside : slot < target.type.fields.length)
    (next : ∀ live' after result, Data program live' [] shape after →
      Holds program live' after.frames place result → done result after) :
    Safe program (storeField object slot value) machine done := by
  have data := executing.data
  cases object with
  | nil | bool _ | number _ => cases isTarget
  | ref id =>
    have isLive := data.values objectHere
    obtain ⟨object, found, _⟩ := data.stored.sane isLive
    simp only [target?, found] at isTarget
    simp only [storeField, safe_bind, safe_modifyHeap, safe_pure]
    refine safe_heapValue data valueHere fun live' heap value' data' follows kept => ?_
    have isRoot : id ∈ machine.roots := mem_roots_of_value objectHere List.mem_cons_self
    obtain ⟨isLive', refilled⟩ := follows id isRoot isLive
    obtain ⟨object', found', same⟩ := refilled found
    cases object with
    | record type fields =>
      obtain ⟨fields', rfl⟩ := same.record
      exact next live' _ value' (data'.setField slot isLive' found' kept) (Kept.holds kept)
    | string _ | function _ | closure _ _ | cell _ | native _ => cases isTarget
  | stack node =>
    cases kind : value.node? with
    | none =>
      have kept : value.Kept live := by
        have holds := data.values valueHere
        cases value with
        | nil | bool _ | number _ | ref _ => exact holds
        | stack _ => cases kind
      have stored := data.store node slot (.plain value) kept
        (fun _ => by simp [Slot.ids, Slot.inner?]) (by simp [Slot.ids, Slot.inner?])
        (by simp [Slot.ids, Slot.inner?])
      cases value with
      | nil | bool _ | number _ | ref _ => exact next live _ _ stored (Kept.holds kept)
      | stack _ => cases kind
    | some sourceNode =>
      obtain rfl : value = .stack sourceNode := by
        cases value <;> cases kind
        rfl
      obtain ⟨top, rest, _, _, frames, _, _, _, _, _⟩ := executing.frame
      simp only [storeField, modifyStruct, safe_bind, safe_modify, safe_pure]
      refine safe_struct data valueHere fun struct _ fits rooted => ?_
      refine safe_fresh data fits rooted fun copy nextNode _ _ data' adoptable _ => ?_
      have position : machine.frames[0]? = some top := by rw [frames]; rfl
      refine safe_charge data' position fun live' after data'' settled => ?_
      obtain ⟨unique, numbered, apart, fitsCopy⟩ := adoptable.settle settled
      have ids : (Slot.nested copy).ids = copy.ids := by simp [Slot.ids, Slot.inner?]
      have stored := data''.store node slot (.nested copy) fitsCopy
        (ids ▸ unique) (ids ▸ numbered) (ids ▸ apart)
      refine next live' _ _ stored ⟨copy, ?_, fitsCopy⟩
      -- the copy is nested in the struct that the slot `place` names
      have targetHere : after.stack[place]? = some (.stack node) := by
        rw [settled.stack]
        exact objectHere
      obtain ⟨found, foundAfter, owned, fitsTarget⟩ := data''.struct targetHere
      have declared := settled.slot_lt data' objectHere isTarget inside foundAfter fitsTarget
      have outside : node ∉ (Slot.nested copy).ids :=
        fun member => apart node (ids ▸ member) owned.mem_nodeIds
      have named : found.id = node := by
        obtain ⟨_, _, _, inArena⟩ := owned
        exact (StackStruct.findAmong?_spec inArena).1
      have changed := owned.withSlot node slot data''.unique outside
      rw [StackStruct.update_target named] at changed
      have inSlot : (found.store slot (.nested copy)).slots[slot]? = some (.nested copy) := by
        rw [StackStruct.store_slots, List.getElem?_set_self declared]
      exact changed.nested stored.unique inSlot

theorem safe_setProperty (executing : Executing program live shape machine site)
    (names : site.prototype.Names program.heap index) (inside : 2 ≤ shape.height)
    (clear : ∀ slot ∈ shape.captured, slot < shape.height - 2)
    (next : ∀ after, Leaves program { shape with height := shape.height - 2 + 1 } after →
      done () after) :
    Safe program (setProperty site index) machine done := by
  have data := executing.data
  simp only [setProperty, safe_bind]
  refine safe_nameOperand executing names fun _ name _ => ?_
  simp only [safe_get]
  refine safe_peek data (by omega) fun object objectHere => ?_
  cases isTarget : target? machine object with
  | none => exact safe_fail data (by simp)
  | some target =>
    simp only
    cases isField : target.type.findField name with
    | none => exact safe_fail data (by simp)
    | some slot =>
      simp only [safe_bind]
      refine safe_peek data (by omega) fun value valueHere => ?_
      refine safe_storeField executing objectHere valueHere isTarget (findField_lt isField) ?_
      intro live' after result data' holds
      refine safe_pop data' (by omega) (fun slot member => ?_) fun _ _ popped => ?_
      · have := clear slot member
        omega
      · refine safe_pop popped ?_ (fun slot member => ?_) fun _ _ popped' => ?_
        · change 0 < shape.height - 1
          omega
        · have := clear slot member
          change slot < shape.height - 1 - 1
          omega
        · refine safe_push popped' ?_ fun pushed => next _ ⟨live', pushed⟩
          exact holds

end Properties

section Values

variable (data : Data program live [] shape machine)
include data

theorem safe_binary {result : Float → Float → Value} (inside : 2 ≤ shape.height)
    (clear : ∀ slot ∈ shape.captured, slot < shape.height - 1)
    (plain : ∀ a b, (result a b).Kept live)
    (next : ∀ after, Leaves program { shape with height := shape.height - 1 } after →
      done () after) :
    Safe program (binary result) machine done := by
  simp only [binary, safe_bind]
  refine safe_peek data (by omega) fun first _ => ?_
  refine safe_peek data (by omega) fun second _ => ?_
  split
  · simp only [safe_bind]
    refine safe_pop data (by omega) clear fun _ _ popped => ?_
    refine safe_setTop popped ?_ (Kept.holds (plain _ _)) fun data' => next _ ⟨live, data'⟩
    change 0 < shape.height - 1
    omega
  · exact safe_fail data (by simp)

theorem safe_negate (inside : 0 < shape.height)
    (next : ∀ after, Leaves program shape after → done () after) :
    Safe program negate machine done := by
  simp only [negate, safe_bind]
  refine safe_peek data inside fun value _ => ?_
  split
  · exact safe_setTop data inside trivial fun data' => next _ ⟨live, data'⟩
  · exact safe_fail data (by simp)

theorem safe_equal (inside : 2 ≤ shape.height)
    (clear : ∀ slot ∈ shape.captured, slot < shape.height - 2)
    (next : ∀ after, Leaves program { shape with height := shape.height - 2 + 1 } after →
      done () after) :
    Safe program equal machine done := by
  simp only [equal, safe_bind, safe_get]
  refine safe_pop data (by omega) (fun slot member => ?_) fun _ _ popped => ?_
  · have := clear slot member
    omega
  · refine safe_pop popped ?_ (fun slot member => ?_) fun _ _ popped' => ?_
    · change 0 < shape.height - 1
      omega
    · have := clear slot member
      change slot < shape.height - 1 - 1
      omega
    · exact safe_push popped' trivial fun pushed => next _ ⟨live, pushed⟩

theorem safe_print (inside : 0 < shape.height)
    (clear : ∀ slot ∈ shape.captured, slot < shape.height - 1)
    (next : ∀ after, Leaves program { shape with height := shape.height - 1 } after →
      done () after) :
    Safe program print machine done := by
  simp only [print, safe_bind, safe_get, write, safe_modify]
  refine safe_peek data inside fun value _ => ?_
  have written : Data program live [] shape
      { machine with output := machine.output ++ (machine.view.text value ++ [Text.newline]) } :=
    { data with }
  exact safe_pop written inside clear fun _ _ popped => next _ ⟨live, popped⟩

omit data in
theorem safe_copyTop (executing : Executing program live shape machine site)
    (inside : site.frame.base < shape.height)
    (next : ∀ after, Leaves program shape after → done () after) :
    Safe program copyTop machine done := by
  have data := executing.data
  simp only [copyTop, safe_bind]
  refine safe_peek data (by omega) fun value here => ?_
  split
  · simp only [safe_bind]
    obtain ⟨top, rest, _, _, frames, _, _, _, _, _⟩ := executing.frame
    have position : machine.frames[0]? = some top := by rw [frames]; rfl
    have base := executing.bases top (frames ▸ List.mem_cons_self)
    refine safe_struct data here fun struct _ fits rooted => ?_
    refine safe_copyInto data position fits rooted fun live' after copy data' _ _ held => ?_
    exact safe_setTop data' (by omega) (held.holds.mono (by omega)) fun data'' =>
      next _ ⟨live', data''⟩
  · exact next _ ⟨live, data⟩

end Values

section Return

variable {top : Frame} {rest : List Frame} {call : Call} {calls : List Call}

/-- The innermost frame goes away when no slot of it is left. -/
theorem Data.popFrame (data : Data program live [] shape machine)
    (frames : machine.frames = top :: rest) (active : shape.calls = call :: calls)
    (gone : shape.height ≤ call.base) (bytes arenaBytes : UInt64) :
    Data program live [] { shape with calls }
      { machine with heap := machine.heap.release bytes, arenaBytes, frames := rest } := by
  have runs := data.calls
  rw [frames, active] at runs
  obtain ⟨first, others⟩ := List.forall₂_cons.mp runs
  have unique := data.unique
  have numbered := data.numbered
  rw [frames, nodeIds_cons] at unique numbered
  have popped : Data program live [] { shape with calls }
      { machine with arenaBytes, frames := rest } :=
    { data with
      calls := others
      values := by
        intro index value here
        have holds := data.values here
        cases value with
        | nil | bool _ | number _ | ref _ => exact holds
        | stack node =>
          obtain ⟨struct, ⟨frame, member, below, found⟩, fits⟩ := holds
          refine ⟨struct, ⟨frame, ?_, below, found⟩, fits⟩
          rw [frames] at member
          rcases List.mem_cons.mp member with isTop | inRest
          · have inStack : index < machine.stack.size := (Array.getElem?_eq_some_iff.mp here).1
            rw [data.size] at inStack
            rw [isTop, first.base] at below
            omega
          · exact inRest
      fitting := fun struct member => by
        refine data.fitting struct ?_
        rw [frames]
        exact List.mem_append_right _ member
      unique := unique.of_le fun id => by
        rw [List.count_append]
        exact Nat.le_add_left _ _
      numbered := fun id member => numbered id (List.mem_append_right _ member) }
  exact popped.recount rfl rfl rfl

theorem safe_popFrame {done : Unit → Machine → Prop} (frames : machine.frames = top :: rest)
    (next : ∀ bytes arenaBytes, done ()
      { machine with heap := machine.heap.release bytes, arenaBytes, frames := rest }) :
    Safe program popFrame machine done := by
  simp only [popFrame, topFrame, safe_bind, safe_get, frames, List.head?_cons, safe_given,
    safe_modify, List.drop_succ_cons, List.drop_zero]
  exact next _ _

/-- A call that is not the outermost one leaves its result where it was called. -/
theorem safe_finishCall {done : Progress → Machine → Prop}
    (executing : Executing program live shape machine site)
    (inside : site.frame.base < shape.height)
    (finished : ∀ after, shape.calls.length = 1 →
      Leaves program { calls := [], captured := [], height := 0 } after → done .finished after)
    (returned : ∀ after call caller calls captured, shape.calls = call :: caller :: calls →
      Leaves program { calls := caller :: calls, captured, height := call.base + 1 } after →
      (∀ slot, slot ∈ captured ↔ slot ∈ shape.captured ∧ slot < call.base) →
      done .running after)
    (outermost : ∀ call, shape.calls = [call] → call.base = 0)
    (nested : ∀ call caller calls, shape.calls = call :: caller :: calls →
      caller.base ≤ call.base) :
    Safe program (finishCall site) machine done := by
  obtain ⟨top, rest, call, calls, frames, active, runs, _, base, _⟩ := executing.frame
  simp only [finishCall, safe_bind]
  refine safe_closeCells executing.data fun live' after captured data sameStack sameFrames members => ?_
  rw [← sameFrames] at frames
  have count : after.frames.length = shape.calls.length := data.calls.length_eq
  refine safe_peek data (by change 0 < shape.height; omega) fun result here => ?_
  simp only [safe_get]
  split
  · next single =>
    rw [count] at single
    have only : shape.calls = [call] := by
      rw [active] at single ⊢
      simpa using single
    have atBottom := outermost call only
    have nothing : captured = [] := by
      apply List.eq_nil_iff_forall_not_mem.mpr
      intro slot member
      have := ((members slot).mp member).2
      omega
    simp only [safe_bind, shrink, safe_modify, safe_pure]
    refine safe_popFrame frames fun bytes arenaBytes => ?_
    apply finished _ (by simpa using single)
    have empty : Data program live' [] { shape with captured := [], height := 0 }
        { after with stack := after.stack.shrink 0 } := by
      rw [nothing] at data
      exact data.cut (by simp) (fun {index value} here => by simp at here) (by simp)
    have calls' : calls = [] := by rw [active] at only; simpa using only
    have popped := empty.popFrame frames active (Nat.zero_le _) bytes arenaBytes
    exact ⟨live', by simpa only [calls'] using popped⟩
  · next several =>
    rw [count, active] at several
    obtain ⟨caller, others, rfl⟩ : ∃ caller others, calls = caller :: others := by
      cases calls with
      | nil => simp at several
      | cons caller others => exact ⟨caller, others, rfl⟩
    have callerBelow := nested call caller others active
    -- the result is a value for the slot that the callee stood in
    have leave : ∀ {live'' after' value other rest'},
        Data program live'' [] { shape with captured } after' →
        after'.frames = other :: rest' →
        Holds program live'' rest' call.base value →
        Safe program (do
          shrink site.frame.base
          popFrame
          push value
          return .running) after' done := by
      intro live'' after' value other rest' data' frames' holds
      simp only [safe_bind, safe_pure]
      refine safe_shrink data' (Nat.le_of_lt inside) (fun slot member => ?_) fun shrunk => ?_
      · exact ((members slot).mp member).2
      · refine safe_popFrame frames' fun bytes arenaBytes => ?_
        have popped := shrunk.popFrame frames' active (Nat.le_of_eq base) bytes arenaBytes
        refine safe_push popped ?_ fun pushed => ?_
        · change Holds program live'' rest' site.frame.base value
          rw [base]
          exact holds
        · refine returned _ call caller others captured active ⟨live'', ?_⟩ ?_
          · simpa only [base] using pushed
          · intro slot
            rw [members, base]
    cases kind : result.node? with
    | none =>
      have kept : result.Kept live' := by
        have holds := data.values here
        cases result with
        | nil | bool _ | number _ | ref _ => exact holds
        | stack _ => cases kind
      cases result with
      | nil | bool _ | number _ | ref _ => exact leave data frames (Kept.holds kept)
      | stack _ => cases kind
    | some node =>
      obtain rfl : result = .stack node := by
        cases result <;> cases kind
        rfl
      have runsAll := data.calls
      rw [frames, active] at runsAll
      obtain ⟨second, deeper, runsCaller, _, split⟩ :=
        List.forall₂_cons_right_iff.mp (List.forall₂_cons.mp runsAll).2
      have position : after.frames[1]? = some second := by rw [frames, split]; rfl
      simp only [safe_bind]
      refine safe_struct data here fun struct _ fits rooted => ?_
      refine safe_copyInto data position fits rooted fun live'' after' value data' _ same held => ?_
      obtain ⟨other, otherHere, _, holds⟩ := held
      rw [frames, split] at same
      obtain ⟨first', rest', _, _, split'⟩ := List.forall₂_cons_left_iff.mp same
      rw [split'] at otherHere
      have inRest : other ∈ rest' := by
        cases rest' with
        | nil => simp at otherHere
        | cons head tail =>
          simp only [List.getElem?_cons_succ, List.getElem?_cons_zero] at otherHere
          cases otherHere
          exact List.mem_cons_self
      have below : second.base ≤ call.base := by
        rw [runsCaller.base]
        exact callerBelow
      have atCall := (holds rest' inRest).mono below
      have left := leave data' split' atCall
      simpa only [safe_bind] using left

end Return

end ScriptMachine.Machine
