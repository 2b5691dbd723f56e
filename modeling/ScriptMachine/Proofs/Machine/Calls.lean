import ScriptMachine.Proofs.Machine.Cells

set_option autoImplicit false

/- Safety of calls: of closures, which get a frame of their own, of native functions, and of
methods. -/
namespace ScriptMachine.Machine

/-- Data in order and of a given shape are all that an instruction leaves. -/
def Leaves (program : Program) (shape : Shape) (machine : Machine) : Prop :=
  ∃ live, Data program live [] shape machine

variable {program : Program} {live live' : ObjectId → Prop} {shape : Shape} {machine : Machine}
  {call : Call} {calls : List Call}

theorem Holds.lower {frames : List Frame} {index lower : Nat} {value : Value}
    (holds : Holds program live frames index value) (bases : ∀ frame ∈ frames, frame.base ≤ lower) :
    Holds program live frames lower value := by
  cases value with
  | nil | bool _ | number _ | ref _ => exact holds
  | stack node =>
    obtain ⟨struct, ⟨frame, member, _, found⟩, fits⟩ := holds
    exact ⟨struct, ⟨frame, member, bases frame member, found⟩, fits⟩

section Top

/-- The prototype that a live closure was made from. -/
theorem Stored.prototype {pending : List ObjectId} {cells : List (Nat × ObjectId)} {heap : Heap}
    (stored : Stored program live pending cells heap) {closure : ObjectId} {body : Prototype}
    (isLive : live closure) (here : heap.closurePrototype? closure = some body) :
    ∃ id, live id ∧ heap.get? id = some (.function body) ∧
      program.heap.get? id = some (.function body) ∧
      body.WellFormed program.heap program.registry ∧ ∀ value ∈ body.constants, value.Kept live := by
  obtain ⟨object, found, sane⟩ := stored.sane isLive
  cases object with
  | closure prototype upvalues =>
    simp only [Heap.closurePrototype?, found] at here
    obtain ⟨function, present, saneFunction⟩ := stored.sane sane.1
    simp only [Heap.prototype?, present] at here
    cases function with
    | function code =>
      cases here
      obtain ⟨here, formed, _, constants⟩ := saneFunction
      exact ⟨prototype, sane.1, present, here, formed, constants⟩
    | string _ | closure _ _ | cell _ | record _ _ | native _ => cases here
  | string _ | function _ | cell _ | record _ _ | native _ =>
    simp [Heap.closurePrototype?, found] at here

end Top

section Targets

variable {index : Nat} {value : Value}

theorem findField_lt {type : StructType} {name : Text} {slot : Nat}
    (found : type.findField name = some slot) : slot < type.fields.length := by
  unfold StructType.findField at found
  exact (List.idxOf?_eq_some_iff.mp found).1

/-- What a property instruction sees of a value on the stack: a registered type, whose fields can
all be read and whose methods can all be called. -/
theorem Data.target {pending : List ObjectId} {target : Target}
    (data : Data program live pending shape machine) (here : machine.stack[index]? = some value)
    (isTarget : target? machine value = some target) :
    (∀ slot < target.type.fields.length, ∃ field, target.field? slot = some field ∧
      Holds program live machine.frames index field) ∧
    ∀ name method, target.type.findMethod name = some method →
      live method.closure ∧ ∃ body, machine.heap.closurePrototype? method.closure = some body := by
  have methods : ∀ type declared, program.registry.struct? type = some declared →
      ∀ name method, declared.findMethod name = some method →
      live method.closure ∧ ∃ body, machine.heap.closurePrototype? method.closure = some body := by
    intro type declared registered name method found
    apply data.methods
    obtain ⟨before, after, split, _⟩ := List.lookup_eq_some_iff.mp found
    refine List.mem_flatMap.mpr ⟨declared, ?_, List.mem_map.mpr ⟨(name, method), ?_, rfl⟩⟩
    · exact Array.mem_toList_iff.mpr (Array.mem_of_getElem? registered)
    · rw [split]
      exact List.mem_append_right _ List.mem_cons_self
  cases value with
  | nil | bool _ | number _ => cases isTarget
  | ref id =>
    obtain ⟨object, found, sane⟩ := data.stored.sane (data.values here)
    simp only [target?, found] at isTarget
    cases object with
    | record type fields =>
      obtain ⟨⟨declared, registered, count⟩, kept⟩ := sane
      cases isTarget
      simp only [view, View.structType, data.registry, registered, Option.getD_some]
      refine ⟨fun slot below => ?_, methods type declared registered⟩
      rw [← count] at below
      exact ⟨fields[slot], Array.getElem?_eq_getElem below,
        Kept.holds (kept _ (Array.getElem_mem below))⟩
    | string _ | function _ | closure _ _ | cell _ | native _ => cases isTarget
  | stack node =>
    obtain ⟨struct, found, owned, fits⟩ := data.struct here
    simp only [target?, found, Option.map_some] at isTarget
    cases isTarget
    obtain ⟨declared, registered, count⟩ := fits.slotCount
    simp only [view, View.structType, data.registry, registered, Option.getD_some]
    refine ⟨fun slot below => ?_, methods struct.type declared registered⟩
    rw [← count] at below
    have inSlots := List.getElem?_eq_getElem below
    have fitting := fits.slot inSlots
    refine ⟨struct.slots[slot].value, by simp [StackStruct.field?, inSlots], ?_⟩
    cases contents : struct.slots[slot] with
    | plain plain =>
      rw [contents] at fitting
      exact Kept.holds fitting
    | nested inner =>
      rw [contents] at fitting inSlots
      exact ⟨inner, owned.nested data.unique inSlots, fitting⟩

end Targets

section Closures

/-- A call that has just begun, with its arguments on top of a stack. -/
structure Entered (program : Program) (height argCount : Nat) (call : Call) : Prop where
  balanced : call.body.Balanced program.heap program.registry call.height
  nonempty : 0 < call.body.code.size
  arity : call.body.arity = argCount
  base : call.base + argCount + 1 = height
  ip : call.ip = 0

theorem safe_copyArguments {done : Unit → Machine → Prop} (count : Nat) :
    ∀ {index : Nat} {live : ObjectId → Prop} {machine : Machine},
    Data program live [] shape machine → (∃ frame rest, machine.frames = frame :: rest ∧
      frame.base ≤ index) → index + count ≤ shape.height →
    (∀ live' after, Data program live' [] shape after → done () after) →
    Safe program (copyArguments index count) machine done := by
  induction count with
  | zero =>
    intro index live machine data _ _ next
    exact next live machine data
  | succ count ih =>
    intro index live machine data first inside next
    obtain ⟨frame, rest, frames, below⟩ := first
    simp only [copyArguments, safe_bind]
    refine safe_slot data (by omega) fun value here => ?_
    cases value with
    | nil | bool _ | number _ | ref _ =>
      exact ih data ⟨frame, rest, frames, Nat.le_succ_of_le below⟩ (by omega) next
    | stack node =>
      simp only [safe_bind]
      refine safe_struct data here fun struct _ fits rooted => ?_
      have position : machine.frames[0]? = some frame := by rw [frames]; rfl
      refine safe_copyInto data position fits rooted fun live' after copy data' _ same held => ?_
      refine safe_setSlot data' (by omega) (held.holds.mono below) fun data'' => ?_
      rw [frames] at same
      obtain ⟨other, others, isSame, _, split⟩ := List.forall₂_cons_left_iff.mp same
      refine ih data'' ⟨other, others, split, ?_⟩ (by omega) next
      rw [isSame.2.1]
      exact Nat.le_succ_of_le below

theorem safe_callClosure {closure : ObjectId} {body : Prototype} {argCount : Nat}
    {done : Unit → Machine → Prop} (data : Data program live [] shape machine)
    (isLive : live closure) (here : machine.heap.closurePrototype? closure = some body)
    (inside : argCount < shape.height)
    (next : ∀ after call, Entered program shape.height argCount call →
      Leaves program { shape with calls := call :: shape.calls } after → done () after) :
    Safe program (callClosure closure argCount) machine done := by
  obtain ⟨_, _, _, _, formed, _⟩ := data.stored.prototype isLive here
  obtain ⟨height, balanced⟩ := formed.balanced
  simp only [callClosure, safe_bind, safe_get, here, safe_given]
  split
  · exact safe_fail data (by simp)
  · next sameArity =>
    simp only [safe_bind, safe_get]
    split
    · exact safe_fail data (by simp)
    · have enough : ¬ shape.height ≤ argCount := by omega
      simp only [data.size, enough, ↓reduceIte, safe_bind, safe_modify]
      let base := shape.height - argCount - 1
      let call : Call := { body, height, base, ip := 0 }
      have entered : Entered program shape.height argCount call :=
        ⟨balanced, formed.nonempty, by simpa using Eq.symm (by simpa using sameArity), by
          change shape.height - argCount - 1 + argCount + 1 = shape.height
          omega, rfl⟩
      have called : Data program live [] { shape with calls := call :: shape.calls }
          { machine with frames := { closure, base } :: machine.frames } :=
        { data with
          calls := .cons ⟨isLive, here, rfl, rfl⟩ data.calls
          values := by
            intro index value found
            have holds := data.values found
            cases value with
            | nil | bool _ | number _ | ref _ => exact holds
            | stack node =>
              obtain ⟨struct, ⟨frame, member, below, inArena⟩, fits⟩ := holds
              exact ⟨struct, ⟨frame, List.mem_cons_of_mem _ member, below, inArena⟩, fits⟩
          fitting := data.fitting
          unique := by
            rw [nodeIds_cons]
            exact data.unique
          numbered := by
            rw [nodeIds_cons]
            exact data.numbered }
      refine safe_copyArguments (argCount + 1) called
        ⟨_, _, rfl, Nat.le_refl _⟩ ?_ fun live' after data' => next after call entered ⟨live', data'⟩
      change shape.height - argCount - 1 + (argCount + 1) ≤ shape.height
      omega

end Closures

section Natives

/-- A string is there after it was interned. -/
theorem safe_intern {pinned : List ObjectId} {text : Text} {done : ObjectId → Machine → Prop}
    (data : Data program live [] shape machine)
    (next : ∀ live' heap id, Data program live' [] shape { machine with heap } → live' id →
      done id { machine with heap }) :
    Safe program (allocating pinned (Heap.intern · text)) machine done := by
  rw [safe_allocating]
  cases filed : machine.heap.interned[text]? with
  | some id =>
    have present := data.stored.tidy.filed.mp filed
    rw [Heap.intern_of_filed _ filed]
    exact next _ machine.heap id (data.enlist present trivial) (Or.inr rfl)
  | none =>
    obtain ⟨live', prepared, fewer, _⟩ := data.prepare pinned (Object.string text).size.toUInt64
    rw [Heap.intern_of_unfiled _ filed]
    have unfiled := Heap.prepared_unfiled (fun _ => pinned ++ machine.roots) filed
      (Object.string text).size.toUInt64
    dsimp only
    generalize machine.heap.prepared (fun _ => pinned ++ machine.roots)
      (Object.string text).size.toUInt64 = ready at prepared unfiled ⊢
    by_cases full : ready.overLimit (Object.string text).size.toUInt64 = true
    · simp only [full, ↓reduceIte]
      exact prepared.intact
    · simp only [full, Bool.false_eq_true, ↓reduceIte]
      have extended := prepared.extend (prepared.stored.tidy.intern unfiled) rfl
        fun {id} apart => by rw [Heap.get?_file, if_neg apart]
      have present : (ready.file text).get? ready.nextId = some (.string text) := by
        rw [Heap.get?_file, if_pos rfl]
      exact next _ _ ready.nextId (extended.enlist present (by trivial)) (Or.inr rfl)

/-- A value that a native function gets or returns. -/
def Passed (program : Program) (live : ObjectId → Prop) (machine : Machine) (value : Value) : Prop :=
  ∃ index, Holds program live machine.frames index value

theorem safe_runBuiltin {action : Builtin} {args : List Value} {done : Value → Machine → Prop}
    (data : Data program live [] shape machine)
    (passed : ∀ value ∈ args, Passed program live machine value)
    (next : ∀ live' heap output result,
      Data program live' [] shape { machine with heap, output } →
      Passed program live' machine result → done result { machine with heap, output }) :
    Safe program (runBuiltin action args) machine done := by
  have first : Passed program live machine (args.head?.getD .nil) := by
    cases args with
    | nil => exact ⟨0, trivial⟩
    | cons value _ => exact passed value List.mem_cons_self
  have number : ∀ value, done (.number value) machine :=
    fun value => next live machine.heap machine.output _ data ⟨0, trivial⟩
  cases action with
  | clock | argumentCount | heapObjects | heapInterned | heapBytes | gcCycles | arenaBytes
  | stackSize | frameCount =>
    exact number _
  | double =>
    simp only [runBuiltin]
    split
    · exact number _
    · exact safe_fail data (by simp)
  | same => exact next live machine.heap machine.output _ data first
  | text =>
    simp only [runBuiltin, safe_bind, safe_get, safe_pure]
    refine safe_intern data fun live' heap id data' isLive => ?_
    exact next live' heap machine.output _ data' ⟨0, isLive⟩
  | explode => exact safe_fail data (by simp)
  | fault => exact ⟨by simp, data.intact⟩
  | collect =>
    simp only [runBuiltin, safe_bind, safe_modify, safe_pure]
    obtain ⟨live', data', _, _⟩ := data.collect []
    exact next live' _ machine.output _ data' ⟨0, trivial⟩
  | emit =>
    simp only [runBuiltin, safe_bind, safe_get, write, safe_modify, safe_pure]
    exact next live machine.heap _ _ { data with } first

theorem safe_applyNative {host : Native} {argCount : Nat} {done : Unit → Machine → Prop}
    (data : Data program live [] shape machine) (inside : argCount < shape.height)
    (clear : ∀ slot ∈ shape.captured, slot < shape.height - argCount - 1)
    (bases : ∀ frame ∈ machine.frames, frame.base ≤ shape.height - argCount - 1)
    (next : ∀ after, Leaves program { shape with height := shape.height - argCount } after →
      done () after) :
    Safe program (applyNative host argCount) machine done := by
  have enough : ¬ shape.height ≤ argCount := by omega
  simp only [applyNative, safe_bind, safe_get, data.size, enough, ↓reduceIte]
  cases host.action with
  | none => exact safe_fail data (by simp)
  | some action =>
    simp only [safe_bind]
    refine safe_runBuiltin data ?_ fun live' heap output result data' passed => ?_
    · intro value member
      obtain ⟨index, here⟩ := List.mem_iff_getElem?.mp member
      rw [Array.getElem?_toList, Array.getElem?_extract] at here
      split at here
      · exact ⟨_, data.values here⟩
      · cases here
    · refine safe_shrink data' (by omega) clear fun data'' => ?_
      obtain ⟨index, holds⟩ := passed
      refine safe_push data'' (holds.lower bases) fun pushed => next _ ⟨live', ?_⟩
      have restored : shape.height - argCount - 1 + 1 = shape.height - argCount := by omega
      simpa only [restored] using pushed

theorem safe_callNative {host : Native} {argCount : Nat} {done : Unit → Machine → Prop}
    (data : Data program live [] shape machine) (inside : argCount < shape.height)
    (clear : ∀ slot ∈ shape.captured, slot < shape.height - argCount - 1)
    (bases : ∀ frame ∈ machine.frames, frame.base ≤ shape.height - argCount - 1)
    (next : ∀ after, Leaves program { shape with height := shape.height - argCount } after →
      done () after) :
    Safe program (callNative host argCount) machine done := by
  have rest : Safe program (applyNative host argCount) machine done :=
    safe_applyNative data inside clear bases next
  simp only [callNative]
  cases host.arity with
  | none => exact rest
  | some arity =>
    simp only
    split
    · exact safe_fail data (by simp)
    · exact rest

/-- What a call leaves: a frame for a closure, or the result of a native function. -/
def Called (program : Program) (shape : Shape) (argCount : Nat) (after : Machine) : Prop :=
  (∃ call, Entered program shape.height argCount call ∧
    Leaves program { shape with calls := call :: shape.calls } after) ∨
  Leaves program { shape with height := shape.height - argCount } after

theorem safe_callValue {callee : Value} {index argCount : Nat} {done : Unit → Machine → Prop}
    (data : Data program live [] shape machine)
    (holds : Holds program live machine.frames index callee) (inside : argCount < shape.height)
    (clear : ∀ slot ∈ shape.captured, slot < shape.height - argCount - 1)
    (bases : ∀ frame ∈ machine.frames, frame.base ≤ shape.height - argCount - 1)
    (next : ∀ after, Called program shape argCount after → done () after) :
    Safe program (callValue callee argCount) machine done := by
  cases callee with
  | nil | bool _ | number _ | stack _ => exact safe_fail data (by simp)
  | ref id =>
    obtain ⟨object, here, sane⟩ := data.stored.sane holds
    simp only [callValue, safe_bind, safe_get, here]
    cases object with
    | string _ | function _ | cell _ | record _ _ => exact safe_fail data (by simp)
    | native native =>
      exact safe_callNative data inside clear bases fun after left => next after (Or.inr left)
    | closure prototype upvalues =>
      obtain ⟨_, ⟨body, function, _⟩, _⟩ := sane
      have body : machine.heap.closurePrototype? id = some body := by
        simp only [Heap.closurePrototype?, here, function]
      exact safe_callClosure data holds body inside fun after call entered left =>
        next after (Or.inl ⟨call, entered, left⟩)

theorem safe_invoke {name : Text} {argCount : Nat} {done : Unit → Machine → Prop}
    (data : Data program live [] shape machine) (inside : argCount < shape.height)
    (clear : ∀ slot ∈ shape.captured, slot < shape.height - argCount - 1)
    (bases : ∀ frame ∈ machine.frames, frame.base ≤ shape.height - argCount - 1)
    (next : ∀ after, Called program shape argCount after → done () after) :
    Safe program (invoke name argCount) machine done := by
  simp only [invoke, safe_bind, safe_get]
  refine safe_peek data inside fun receiver here => ?_
  cases isTarget : target? machine receiver with
  | none => exact safe_fail data (by simp)
  | some target =>
    obtain ⟨fields, methods⟩ := data.target here isTarget
    simp only
    cases isField : target.type.findField name with
    | some slot =>
      obtain ⟨callee, field, holds⟩ := fields slot (findField_lt isField)
      simp only [safe_bind, field, safe_given, safe_get, data.size]
      have place : shape.height - argCount - 1 = shape.height - 1 - argCount := by omega
      rw [place]
      refine safe_setSlot data (by omega) holds fun data' => ?_
      exact safe_callValue data' holds inside clear bases next
    | none =>
      simp only
      cases isMethod : target.type.findMethod name with
      | none => exact safe_fail data (by simp)
      | some method =>
        obtain ⟨isLive, body, found⟩ := methods name method isMethod
        exact safe_callClosure data isLive found inside fun after call entered left =>
          next after (Or.inl ⟨call, entered, left⟩)

end Natives

end ScriptMachine.Machine
