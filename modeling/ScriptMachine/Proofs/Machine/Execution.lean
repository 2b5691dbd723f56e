import ScriptMachine.Proofs.Machine.Touches
import ScriptMachine.Proofs.Machine.Updates
import ScriptMachine.Proofs.Registry.Coherent

set_option autoImplicit false

/- What one instruction does. Most instructions only touch the machine; the others move control,
assign to a global or to a variable of a call that has ended, or begin or end a call, and this is the
last thing they do that can be told from outside. A fault strikes before that, or in a call that is
just beginning. -/
namespace ScriptMachine

/-- Instructions that open or close the cells of captured variables. -/
def Opcode.movesCells : Opcode → Bool
  | .closure | .closeUpvalue | .return => Bool.true
  | _ => Bool.false

/-- Instructions that make, copy or change structs. -/
def Opcode.movesStructs : Opcode → Bool
  | .setUpvalue | .setProperty | .call | .invoke | .return | .stackStruct | .copyStruct => Bool.true
  | _ => Bool.false

namespace Machine

def licence (op : Opcode) : Licence :=
  ⟨op.movesCells = true, op.movesStructs = true⟩

variable {free : Licence} {cells structs : Prop}

section Natives

instance (action : Builtin) (args : List Value) : Touching free (runBuiltin action args) := by
  have collects : Touching free (modify fun machine =>
      { machine with heap := machine.heap.collect machine.roots } : Exec Unit) :=
    touching_modify fun machine => .collect []
  have throws : Touching free (throw (.fault readyMade) : Exec Value) :=
    ⟨fun _ => ⟨.refl, Or.inl rfl⟩⟩
  have interns : ∀ text, Touching free (allocating [] (Heap.intern · text)) := fun _ => inferInstance
  unfold runBuiltin
  dsimp only
  cases action with
  | double =>
    dsimp only
    split <;> infer_instance
  | fault => exact throws
  | clock | argumentCount | same | text | explode | collect | heapObjects | heapInterned | heapBytes
  | gcCycles | arenaBytes | stackSize | frameCount | emit =>
    dsimp only
    infer_instance

instance (host : Native) (argCount : Nat) : Touching free (applyNative host argCount) := by
  unfold applyNative
  dsimp only
  refine Touching.andThen inferInstance fun machine => ?_
  split
  · infer_instance
  · refine Touching.andThen inferInstance fun current => ?_
    split <;> infer_instance

instance (host : Native) (argCount : Nat) : Touching free (callNative host argCount) := by
  unfold callNative
  split <;> dsimp only <;> infer_instance

end Natives

section Instructions

instance (value : Int) : Touching free (operand value) := by
  unfold operand
  infer_instance

instance (site : Site) (index : Int) : Touching free (nameOperand site index) := by
  unfold nameOperand
  split <;> infer_instance

instance (site : Site) (index : Int) : Touching free (getGlobal site index) := by
  unfold getGlobal
  refine Touching.andThen inferInstance fun named => ?_
  refine Touching.andThen inferInstance fun machine => ?_
  split <;> infer_instance

instance (site : Site) (index : Int) : Touching free (getUpvalue site index) := by
  unfold getUpvalue
  refine Touching.andThen inferInstance fun position => ?_
  refine Touching.andThen inferInstance fun found => ?_
  split <;> infer_instance

instance (site : Site) (index : Int) : Touching free (getProperty site index) := by
  unfold getProperty
  refine Touching.andThen inferInstance fun named => ?_
  refine Touching.andThen inferInstance fun machine => ?_
  refine Touching.andThen inferInstance fun value => ?_
  split
  · infer_instance
  · split <;> infer_instance

instance (target : Value) (slot : Nat) (value : Value) :
    Touching ⟨cells, True⟩ (storeField target slot value) := by
  unfold storeField
  split <;> infer_instance

instance (site : Site) (index : Int) : Touching ⟨cells, True⟩ (setProperty site index) := by
  unfold setProperty
  refine Touching.andThen inferInstance fun named => ?_
  refine Touching.andThen inferInstance fun object => ?_
  refine Touching.andThen inferInstance fun machine => ?_
  split
  · infer_instance
  · split <;> infer_instance

instance (result : Float → Float → Value) : Touching free (binary result) := by
  unfold binary
  refine Touching.andThen inferInstance fun first => ?_
  refine Touching.andThen inferInstance fun second => ?_
  split <;> infer_instance

instance : Touching free negate := by
  unfold negate
  refine Touching.andThen inferInstance fun value => ?_
  split <;> infer_instance

instance : Touching free equal := by
  unfold equal
  infer_instance

instance : Touching free print := by
  unfold print
  infer_instance

instance (frame : Frame) (closure : ObjectId) (index : Nat) (captures : List Capture) :
    Touching ⟨True, structs⟩ (captureAll frame closure index captures) := by
  induction captures generalizing index with
  | nil =>
    rw [captureAll]
    infer_instance
  | cons capture rest ih =>
    rw [captureAll]
    split
    · infer_instance
    · refine Touching.andThen inferInstance fun machine => ?_
      split <;> infer_instance

instance (site : Site) (index : Int) : Touching ⟨True, structs⟩ (makeClosure site index) := by
  unfold makeClosure
  split <;> infer_instance

instance (id : Int) : Touching free (structOperand id) := by
  unfold structOperand
  dsimp only
  refine Touching.andThen inferInstance fun machine => ?_
  split <;> infer_instance

instance (site : Site) (code : Instruction) : Touching free (literal site code) := by
  unfold literal
  dsimp only
  infer_instance

instance (struct : StackStruct) (entries : List (Nat × Value)) :
    Touching free (fillStruct struct entries) := by
  fun_induction fillStruct struct entries <;> infer_instance

instance (id : ObjectId) (entries : List (Nat × Value)) : Touching free (fillRecord id entries) := by
  fun_induction fillRecord id entries <;> infer_instance

instance (site : Site) (code : Instruction) : Touching ⟨cells, True⟩ (makeStackStruct site code) := by
  have numbers : Touching ⟨cells, True⟩ (modifyGet fun machine =>
      (machine.nextNode, { machine with nextNode := machine.nextNode + 1 }) : Exec NodeId) :=
    ⟨fun _ => .single (.aside ⟨rfl, rfl, rfl, rfl, rfl, rfl, rfl, rfl, Nat.le_max_left _ _⟩
      (Or.inr trivial))⟩
  unfold makeStackStruct
  dsimp only
  infer_instance

instance (site : Site) (code : Instruction) : Touching free (makeHeapStruct site code) := by
  unfold makeHeapStruct
  dsimp only
  infer_instance

instance : Touching ⟨cells, True⟩ copyTop := by
  unfold copyTop
  refine Touching.andThen inferInstance fun value => ?_
  split <;> infer_instance

end Instructions

section Looking

variable {machine : Machine} {struck : Machine → Prop}

/-- An action that looks at the machine and leaves it as it is, or goes wrong. -/
def Looks {α : Type} (action : Exec α) (machine : Machine) (seen : α → Prop) : Prop :=
  Leads action machine (fun value after => after = machine ∧ seen value) fun _ => False

theorem Looks.leads {α β : Type} {first : Exec β} {rest : β → Exec α} {seen : β → Prop}
    {done : α → Machine → Prop} (looks : Looks first machine seen)
    (goesOn : ∀ value, seen value → Leads (rest value) machine done struck) :
    Leads (first >>= rest) machine done struck := by
  refine leads_bind.mpr (looks.mono ?_ fun _ => False.elim)
  rintro value _ ⟨rfl, isSeen⟩
  exact goesOn value isSeen

theorem looks_given {α : Type} (value : Option α) :
    Looks (given value) machine fun found => value = some found :=
  leads_given fun _ isSome => ⟨rfl, isSome⟩

theorem looks_slot (index : Nat) :
    Looks (slot index) machine fun value => machine.stack[index]? = some value :=
  looks_given _

theorem looks_struct (node : NodeId) :
    Looks (Machine.struct node) machine fun struct => machine.node? node = some struct :=
  looks_given _

theorem looks_peek (distance : Nat) :
    Looks (peek distance) machine fun value => ∃ index : Nat, machine.stack[index]? = some value := by
  unfold Looks peek
  simp only [leads_bind, leads_get]
  split
  · exact (looks_given _).mono (fun _ _ found => ⟨found.1, _, found.2⟩) fun _ => id
  · exact leads_goWrong

theorem looks_operand (value : Int) :
    Looks (operand value) machine fun number => number = value.toNat := by
  unfold Looks operand
  split
  · exact leads_goWrong
  · exact ⟨rfl, rfl⟩

theorem looks_nameOperand (site : Site) (index : Int) :
    Looks (nameOperand site index) machine fun named =>
      machine.heap.string? named.1 = some named.2 := by
  unfold Looks nameOperand
  split
  · simp only [leads_bind, leads_get]
    refine (looks_given _).mono ?_ fun _ => id
    rintro text _ ⟨rfl, isText⟩
    exact ⟨rfl, isText⟩
  · exact leads_goWrong

theorem looks_upvalueCell (frame : Frame) (index : Nat) :
    Looks (upvalueCell frame index) machine fun found =>
      machine.heap.get? found.1 = some (.cell found.2) := by
  unfold Looks upvalueCell
  simp only [leads_bind, leads_get]
  split
  · refine leads_bind.mpr ((looks_given _).mono ?_ fun _ => id)
    rintro id _ ⟨rfl, _⟩
    simp only [leads_bind, leads_get]
    split
    · next present => exact ⟨rfl, present⟩
    · exact leads_goWrong
  · exact leads_goWrong

end Looking

section Calls

variable {machine middle after : Machine}

/-- A call of something in use has begun: its frame is on top, and its arguments are being copied or
have been. -/
inductive Begins (before : Machine) : Machine → Prop where
  | mk {middle after : Machine} {closure : ObjectId} {body : Prototype} (base : Nat) :
      Heap.Reaches before.heap.objects before.roots closure → Touches .none before middle →
      middle.heap = before.heap → before.heap.closurePrototype? closure = some body →
      Touches ⟨False, True⟩ { middle with frames := { closure, base } :: middle.frames } after →
      Begins before after

/-- Where a call can be when a fault strikes. -/
def Calling (before after : Machine) : Prop :=
  Touches .none before after ∨ Begins before after

theorem leads_callClosure {closure : ObjectId} (argCount : Nat)
    (reached : Heap.Reaches machine.heap.objects machine.roots closure)
    (touches : Touches .none machine middle) (same : middle.heap = machine.heap) :
    Leads (callClosure closure argCount) middle (fun _ => Begins machine) (Calling machine) := by
  simp only [callClosure, leads_bind, leads_get]
  refine leads_given fun body isBody => ?_
  rw [same] at isBody
  split
  · exact leads_bind.mpr (leads_fail.mpr (Or.inl touches))
  · simp only [leads_bind, leads_get]
    split
    · exact leads_bind.mpr (leads_fail.mpr (Or.inl touches))
    · split
      · exact leads_goWrong
      · simp only [leads_bind, leads_modify]
        have copies : Touching ⟨False, True⟩
            (copyArguments (middle.stack.size - argCount - 1) (argCount + 1)) := inferInstance
        refine (copies.leads _).mono (fun _ after copies => ?_) fun after copies => Or.inr ?_
        · exact .mk _ reached touches same isBody copies
        · exact .mk _ reached touches same isBody copies

theorem leads_callValue {callee : Value} (argCount : Nat)
    (reached : ∀ id, callee = .ref id → Heap.Reaches machine.heap.objects machine.roots id)
    (touches : Touches .none machine middle) (same : middle.heap = machine.heap) :
    Leads (callValue callee argCount) middle (fun _ => Calling machine) (Calling machine) := by
  have ends : ∀ {action : Exec Unit} [Touching .none action],
      Leads action middle (fun _ => Calling machine) (Calling machine) := fun {action} touching =>
    (touching.leads middle).mono (fun _ _ later => Or.inl (touches.trans later))
      fun _ later => Or.inl (touches.trans later)
  unfold callValue
  split
  · next id =>
    rw [leads_bind, leads_get]
    split
    · exact (leads_callClosure argCount (reached id rfl) touches same).mono (fun _ _ => Or.inr)
        fun _ calling => calling
    · exact ends
    · exact ends
  · exact ends

theorem mem_slotReferences {slots : List Slot} {slot : Nat} {id : ObjectId}
    (here : slots[slot]? = some (.plain (.ref id))) : id ∈ StackStruct.slotReferences slots := by
  induction slots generalizing slot with
  | nil => simp at here
  | cons first rest ih =>
    rw [StackStruct.slotReferences_cons, List.mem_append]
    cases slot with
    | zero =>
      rw [List.getElem?_cons_zero] at here
      cases here
      exact Or.inl List.mem_cons_self
    | succ slot => exact Or.inr (ih here)

/-- What the field of a struct in use refers to is in use. -/
theorem reaches_field {receiver : Value} {target : Target} {index slot : Nat} {id : ObjectId}
    (here : machine.stack[index]? = some receiver) (isTarget : target? machine receiver = some target)
    (field : target.field? slot = some (.ref id)) :
    Heap.Reaches machine.heap.objects machine.roots id := by
  cases receiver with
  | nil | bool _ | number _ => cases isTarget
  | ref object =>
    simp only [target?] at isTarget
    split at isTarget
    · next type fields present =>
      cases isTarget
      have root : object ∈ machine.roots := mem_roots_of_value here List.mem_cons_self
      refine Heap.Reaches.next (.root root) present (List.mem_filterMap.mpr ⟨.ref id, ?_, rfl⟩)
      exact Array.mem_toList_iff.mpr (Array.mem_of_getElem? field)
    · cases isTarget
  | stack node =>
    obtain ⟨struct, found, rfl⟩ := Option.map_eq_some_iff.mp isTarget
    obtain ⟨contents, inSlots, isRef⟩ := Option.map_eq_some_iff.mp field
    cases contents with
    | nested inner => cases isRef
    | plain value =>
      cases isRef
      refine .root (mem_roots_of_value here (mem_valueRoots_of_struct found ?_))
      cases struct with
      | node _ _ slots _ => exact mem_slotReferences inSlots

/-- The methods of registered types are in use. -/
theorem reaches_method {receiver : Value} {target : Target} {name : Text} {method : Method}
    (isTarget : target? machine receiver = some target)
    (found : target.type.findMethod name = some method) :
    Heap.Reaches machine.heap.objects machine.roots method.closure := by
  have registered : ∀ type, (machine.view.structType type).findMethod name = some method →
      method.closure ∈ machine.roots := by
    intro type found
    change (((machine.registry.struct? type).getD default).findMethod name) = _ at found
    cases known : machine.registry.struct? type with
    | none =>
      rw [known] at found
      cases found
    | some declared =>
      rw [known] at found
      exact mem_roots_of_registry (Registry.mem_roots (Array.mem_of_getElem? known)
        (StructType.mem_of_findMethod found))
  cases receiver with
  | nil | bool _ | number _ => cases isTarget
  | ref object =>
    simp only [target?] at isTarget
    split at isTarget
    · cases isTarget
      exact .root (registered _ found)
    · cases isTarget
  | stack node =>
    obtain ⟨struct, _, rfl⟩ := Option.map_eq_some_iff.mp isTarget
    exact .root (registered _ found)

theorem leads_setSlot {index : Nat} {value : Value} {done : Unit → Machine → Prop}
    {struck : Machine → Prop}
    (goesOn : done () { machine with stack := machine.stack.setIfInBounds index value }) :
    Leads (setSlot index value) machine done struck := by
  simp only [setSlot, leads_bind, leads_get]
  split
  · exact goesOn
  · exact leads_goWrong

theorem leads_invoke (name : Text) (argCount : Nat) :
    Leads (invoke name argCount) machine (fun _ => Calling machine) (Calling machine) := by
  unfold invoke
  refine (looks_peek argCount).leads fun receiver ⟨index, here⟩ => ?_
  rw [leads_bind, leads_get]
  split
  · exact leads_fail.mpr (Or.inl .refl)
  · next target isTarget =>
    split
    · next slot _ =>
      refine (looks_given _).leads fun callee field => ?_
      rw [leads_bind, leads_get]
      refine leads_bind.mpr (leads_setSlot ?_)
      refine leads_callValue argCount (fun id isRef => ?_) (.single (.aside ?_ (Or.inl ⟨rfl, rfl⟩))) rfl
      · exact reaches_field here isTarget (isRef ▸ field)
      · refine ⟨rfl, rfl, rfl, rfl, rfl, rfl, rfl, rfl, ?_⟩
        rw [Array.size_setIfInBounds]
        omega
    · split
      · next method found =>
        exact (leads_callClosure argCount (reaches_method isTarget found) .refl rfl).mono
          (fun _ _ => Or.inr) fun _ calling => calling
      · exact leads_fail.mpr (Or.inl .refl)

end Calls

section Assignments

variable {machine before after : Machine} {id : ObjectId}

/-- A cell that holds one of some values, or has been collected. -/
def Shut (id : ObjectId) (good : Value → Prop) (machine : Machine) : Prop :=
  id < machine.heap.nextId ∧ ∀ object, machine.heap.get? id = some object →
    ∃ value, object = .cell (.closed value) ∧ good value

/-- Nothing but an assignment changes a closed cell, and no identifier is used twice. -/
theorem Touch.shut {good : Value → Prop} (touch : Touch free before after) (shut : Shut id good before)
    (apart : (∀ value, good value) ∨ id ∉ before.openCells.map Prod.snd) : Shut id good after := by
  obtain ⟨below, closed⟩ := shut
  cases touch with
  | aside aside => exact ⟨by rw [aside.heap]; exact below, by rw [aside.heap]; exact closed⟩
  | collect pinned =>
    refine ⟨by rw [Heap.collect_nextId]; exact below, fun object present => ?_⟩
    exact closed object (Heap.get?_collect.mp present).1
  | recount objects next _ =>
    refine ⟨by rw [next]; exact below, fun object present => closed object ?_⟩
    rw [Heap.get?] at present ⊢
    rwa [objects] at present
  | link _ _ =>
    refine ⟨Nat.lt_succ_of_lt below, fun object present => closed object ?_⟩
    rwa [Heap.get?_link, if_neg (Nat.ne_of_gt below)] at present
  | file _ =>
    refine ⟨Nat.lt_succ_of_lt below, fun object present => closed object ?_⟩
    rwa [Heap.get?_file, if_neg (Nat.ne_of_gt below)] at present
  | @refill other old new present refills =>
    refine ⟨below, fun object found => ?_⟩
    by_cases same : other = id
    · subst same
      obtain ⟨value, rfl, _⟩ := closed old present
      cases refills
    · rw [Heap.get?_set_of_ne same] at found
      exact closed object found
  | capture _ =>
    refine ⟨Nat.lt_succ_of_lt below, fun object present => closed object ?_⟩
    rwa [Heap.get?_link, if_neg (Nat.ne_of_gt below)] at present
  | @close slot cell rest value opened =>
    refine ⟨below, fun object found => ?_⟩
    by_cases same : cell = id
    · subst same
      rw [Heap.get?_set, if_pos rfl] at found
      obtain ⟨_, _, rfl⟩ := Option.map_eq_some_iff.mp found
      refine ⟨value, rfl, apart.elim (· value) fun unlisted => absurd ?_ unlisted⟩
      rw [opened]
      exact List.mem_cons_self
    · rw [Heap.get?_set_of_ne same] at found
      exact closed object found

theorem Touches.shut (touches : Touches free before after) (shut : Shut id (fun _ => True) before) :
    Shut id (fun _ => True) after := by
  induction touches with
  | refl => exact shut
  | tail _ touch ih => exact touch.shut ih (Or.inl fun _ => trivial)

/-- What an instruction has done when it ends. -/
inductive Executes (code : Instruction) (before : Machine) : Machine → Prop where
  | stays {after : Machine} : code.op.leaves = false →
      Touches (licence code.op) before after → Executes code before after
  | jumps {middle : Machine} : code.op.isJump = true → Touches .none before middle →
      Executes code before { middle with
        frames := middle.frames.modify 0 fun frame => { frame with ip := code.a.toNat } }
  | assigns {middle : Machine} {id : ObjectId} (value : Value) : code.op = .setUpvalue →
      Touches .none before middle → Shut id (fun _ => True) middle →
      Executes code before { middle with heap := middle.heap.set id (.cell (.closed value)) }
  | stores {middle after : Machine} {key : ObjectId} {text : Text} (value : Value) :
      code.op = .defineGlobal ∨ code.op = .setGlobal →
      Touches .none before middle → middle.heap.string? key = some text →
      Touches .none { middle with globals := middle.globals.insert key value } after →
      Executes code before after
  | calls {after : Machine} : code.op = .call ∨ code.op = .invoke → Begins before after →
      Executes code before after
  | returns {middle after : Machine} : code.op = .return → Touches ⟨True, True⟩ before middle →
      Touches ⟨False, True⟩ { middle with frames := middle.frames.drop 1 } after →
      Executes code before after

/-- Where an instruction can be when a fault strikes. -/
inductive Struck (code : Instruction) (before : Machine) : Machine → Prop where
  | here {after : Machine} : Touches (licence code.op) before after → Struck code before after
  | calling {after : Machine} : code.op = .call ∨ code.op = .invoke → Begins before after →
      Struck code before after

variable {code : Instruction} {struck : Machine → Prop}

theorem Touch.mono {other : Licence} (touch : Touch free before after)
    (within : free.Within other) : Touch other before after := by
  cases touch with
  | aside aside level => exact .aside aside (level.imp_right within.structs)
  | collect pinned => exact .collect pinned
  | recount objects next interned bytes =>
    exact .recount objects next interned (bytes.imp_right within.structs)
  | link notString notCell => exact .link notString notCell
  | file unfiled => exact .file unfiled
  | refill present refills closures =>
    exact .refill present refills fun _ _ isClosure => within.cells (closures _ _ isClosure)
  | capture unlisted isFree => exact .capture unlisted (within.cells isFree)
  | close value opened isFree => exact .close value opened (within.cells isFree)

theorem Touches.mono {other : Licence} (touches : Touches free before after)
    (within : free.Within other) : Touches other before after :=
  Relation.ReflTransGen.mono (fun _ _ touch => Touch.mono touch within) _ _ touches

theorem Struck.soft (touches : Touches free before after) (within : free.Within (licence code.op)) :
    Struck code before after :=
  .here (Touches.mono touches within)

theorem leads_plain {α : Type} {action : Exec α} [touching : Touching free action]
    (stays : code.op.leaves = false) (within : free.Within (licence code.op)) :
    Leads action machine (fun _ => Executes code machine) (Struck code machine) :=
  (touching.leads machine).mono (fun _ _ touches => .stays stays (Touches.mono touches within))
    fun _ touches => .soft touches within

theorem leads_jumpTo (isJump : code.op.isJump = true) :
    Leads (jumpTo code.a) machine (fun _ => Executes code machine) (Struck code machine) := by
  refine (looks_operand code.a).leads fun target isTarget => ?_
  rw [isTarget]
  exact .jumps isJump .refl

theorem leads_calling {α : Type} {action : Exec α} (isCall : code.op = .call ∨ code.op = .invoke)
    (leads : Leads action machine (fun _ => Calling machine) (Calling machine)) :
    Leads action machine (fun _ => Executes code machine) (Struck code machine) := by
  have stays : code.op.leaves = false := by
    rcases isCall with isCall | isCall <;> rw [isCall] <;> rfl
  refine leads.mono (fun _ _ calling => ?_) fun _ calling =>
    calling.elim (fun touches => .soft touches Licence.none_within) (.calling isCall)
  exact calling.elim (fun touches => .stays stays (Touches.mono touches Licence.none_within)) (.calls isCall)

/-- Taking a value from the stack is no occasion for a fault. -/
theorem leads_pop : Leads pop machine (fun _ => Touches .none machine) struck := by
  refine (looks_peek 0).leads fun value _ => ?_
  simp only [leads_bind, leads_modify, leads_pure]
  refine .single (.aside ⟨rfl, rfl, rfl, rfl, rfl, rfl, rfl, rfl, ?_⟩ (Or.inl ⟨rfl, rfl⟩))
  rw [Array.size_pop]
  omega

theorem leads_storeGlobal {key : ObjectId} {name : Text} {done : Unit → Machine → Prop}
    (strikes : struck machine)
    (goesOn : ∀ value, done () { machine with globals := machine.globals.insert key value }) :
    Leads (storeGlobal key name) machine done struck := by
  refine (looks_peek 0).leads fun value _ => ?_
  split
  · exact leads_fail.mpr strikes
  · exact goesOn value

theorem leads_defineGlobal (site : Site) (index : Int) (isDefine : code.op = .defineGlobal) :
    Leads (defineGlobal site index) machine (fun _ => Executes code machine)
      (Struck code machine) := by
  refine (looks_nameOperand site index).leads fun named isName => ?_
  refine leads_bind.mpr (leads_storeGlobal (.here .refl) fun value => ?_)
  refine leads_bind.mpr (leads_pop.mono (fun _ _ touches => ?_) fun _ struck => struck)
  exact .stores value (Or.inl isDefine) .refl isName touches

theorem leads_setGlobal (site : Site) (index : Int) (isSet : code.op = .setGlobal) :
    Leads (setGlobal site index) machine (fun _ => Executes code machine) (Struck code machine) := by
  refine (looks_nameOperand site index).leads fun named isName => ?_
  simp only [leads_bind, leads_get]
  split
  · exact leads_bind.mpr (leads_fail.mpr (.here .refl))
  · exact leads_storeGlobal (.here .refl) fun value => .stores value (Or.inr isSet) .refl isName .refl

/-- A struct moves to the heap before it is assigned, and a collection may come in between. -/
theorem leads_setUpvalue (tidy : machine.heap.Tidy) (site : Site) (index : Int)
    (isSet : code.op = .setUpvalue) :
    Leads (setUpvalue site index) machine (fun _ => Executes code machine) (Struck code machine) := by
  refine (looks_operand index).leads fun position _ => ?_
  refine (looks_upvalueCell site.frame position).leads fun found present => ?_
  refine (looks_peek 0).leads fun value _ => ?_
  obtain ⟨id, cell⟩ := found
  cases cell with
  | onStack slot =>
    have assigns : Touching ⟨False, True⟩ (assignCell id (.onStack slot) value) := by
      unfold assignCell
      cases value <;> dsimp only <;> infer_instance
    exact @leads_plain ⟨False, True⟩ _ _ _ _ _ (by rw [isSet]; rfl)
      ⟨False.elim, fun _ => by rw [isSet]; rfl⟩
  | closed old =>
    have shut : Shut id (fun _ => True) machine := by
      refine ⟨tidy.bounded present, fun object found => ⟨old, ?_, trivial⟩⟩
      exact Option.some.inj (found.symm.trans present)
    refine Leads.after (fun _ touches => .soft touches Licence.none_within) fun moved middle
      (touches : Touches .none _ _) => ?_
    exact .assigns moved isSet touches (Touches.shut touches shut)

/-- A frame is dropped, and its bytes are given back. -/
theorem leads_popFrame {done : Unit → Machine → Prop}
    (goesOn : ∀ after, Touches ⟨False, True⟩ { machine with frames := machine.frames.drop 1 } after →
      after.config = machine.config → after.stack = machine.stack → done () after) :
    Leads popFrame machine done struck := by
  unfold popFrame topFrame
  simp only [leads_bind, leads_get]
  refine (looks_given _).mono ?_ fun _ => False.elim
  rintro frame after ⟨same, _⟩
  rw [same, leads_modify]
  refine goesOn _ ?_ rfl rfl
  have counted : Touch ⟨False, True⟩ { machine with frames := machine.frames.drop 1 }
      { machine with
        frames := machine.frames.drop 1
        heap := machine.heap.release (arenaSize frame.arena) } :=
    .recount rfl rfl rfl (Or.inr trivial)
  exact .tail (.single counted)
    (.aside ⟨rfl, rfl, rfl, rfl, rfl, rfl, rfl, rfl, Nat.le_max_left _ _⟩ (Or.inr trivial))

theorem touch_shrink (machine : Machine) (size : Nat) :
    Touch free machine { machine with stack := machine.stack.shrink size } := by
  refine .aside ⟨rfl, rfl, rfl, rfl, rfl, rfl, rfl, rfl, ?_⟩ (Or.inl ⟨rfl, rfl⟩)
  rw [Array.size_shrink]
  omega

/-- There is room for the result of a call where its frame began. -/
theorem leads_handBack {base : Nat} (result : Value) (isReturn : code.op = .return)
    (touches : Touches ⟨True, True⟩ before machine) (room : base < machine.config.stackSlots) :
    Leads (do shrink base; popFrame; push result; return Progress.running) machine
      (fun _ => Executes code before) (Struck code before) := by
  simp only [shrink, leads_bind, leads_modify]
  refine leads_popFrame fun after popped config stack => ?_
  have small : after.stack.size < after.config.stackSlots := by
    rw [config, stack, Array.size_shrink]
    exact Nat.lt_of_le_of_lt (Nat.min_le_left _ _) room
  simp only [push, leads_bind, leads_get, if_neg (Nat.not_le.mpr small), leads_modify, leads_pure]
  exact .returns isReturn (touches.tail (touch_shrink machine base))
    (popped.trans (touches_push result small))

theorem leads_finishCall {site : Site} (isReturn : code.op = .return)
    (room : site.frame.base < machine.config.stackSlots) :
    Leads (finishCall site) machine (fun _ => Executes code machine) (Struck code machine) := by
  unfold finishCall
  have strikes : ∀ after, Touches ⟨True, True⟩ machine after → Struck code machine after :=
    fun _ touches => .soft touches (by rw [isReturn]; exact ⟨fun _ => rfl, fun _ => rfl⟩)
  refine Leads.after strikes fun _ first closed => ?_
  refine (looks_peek 0).leads fun result _ => ?_
  rw [leads_bind, leads_get]
  have kept : first.config = machine.config := (Touches.still closed).config
  split
  · refine leads_bind.mpr (leads_popFrame fun second popped _ _ => ?_)
    simp only [shrink, leads_bind, leads_modify, leads_pure]
    exact .returns isReturn closed (popped.tail (touch_shrink second 0))
  · split
    · refine Leads.after (fun _ touches => strikes _ (closed.trans touches))
        fun struct second found => ?_
      refine Leads.after (fun _ touches => strikes _ ((closed.trans found).trans touches))
        fun copy third copied => ?_
      have whole := (closed.trans found).trans copied
      exact leads_handBack copy isReturn whole ((Touches.still whole).config ▸ room)
    · exact leads_handBack result isReturn closed (kept ▸ room)

/-- Every instruction, with whatever operands, does one of a few things. -/
theorem leads_execute (site : Site) (code : Instruction) (tidy : machine.heap.Tidy)
    (room : code.op = .return → site.frame.base < machine.config.stackSlots) :
    Leads (execute site code) machine (fun _ => Executes code machine) (Struck code machine) := by
  unfold execute
  cases isOp : code.op with
  | defineGlobal => exact leads_bind.mpr (leads_defineGlobal site code.a isOp)
  | setGlobal => exact leads_bind.mpr (leads_setGlobal site code.a isOp)
  | setUpvalue => exact leads_bind.mpr (leads_setUpvalue tidy site code.a isOp)
  | jump => exact leads_bind.mpr (leads_jumpTo (by rw [isOp]; rfl))
  | jumpIfFalse =>
    refine (looks_peek 0).leads fun value _ => ?_
    split
    · exact leads_bind.mpr (leads_jumpTo (by rw [isOp]; rfl))
    · exact @leads_plain .none _ _ _ _ _ (by rw [isOp]; rfl) Licence.none_within
  | jumpIfTrue =>
    refine (looks_peek 0).leads fun value _ => ?_
    split
    · exact leads_bind.mpr (leads_jumpTo (by rw [isOp]; rfl))
    · exact @leads_plain .none _ _ _ _ _ (by rw [isOp]; rfl) Licence.none_within
  | call =>
    refine (looks_operand code.a).leads fun argCount _ => ?_
    refine (looks_peek argCount).leads fun callee ⟨index, here⟩ => ?_
    refine leads_bind.mpr (leads_calling (Or.inl isOp)
      (leads_callValue argCount (fun id isRef => .root ?_) .refl rfl))
    rw [isRef] at here
    exact mem_roots_of_value here List.mem_cons_self
  | invoke =>
    refine (looks_nameOperand site code.a).leads fun named _ => ?_
    refine (looks_operand code.b).leads fun argCount _ => ?_
    exact leads_bind.mpr (leads_calling (Or.inr isOp) (leads_invoke named.2 argCount))
  | «return» => exact leads_finishCall isOp (room isOp)
  | closure | closeUpvalue =>
    dsimp only
    exact @leads_plain ⟨True, False⟩ _ _ _ _ _ (by rw [isOp]; rfl)
      ⟨fun _ => by rw [isOp]; rfl, False.elim⟩
  | setProperty | stackStruct | copyStruct =>
    dsimp only
    exact @leads_plain ⟨False, True⟩ _ _ _ _ _ (by rw [isOp]; rfl)
      ⟨False.elim, fun _ => by rw [isOp]; rfl⟩
  | constant | nil | true | false | pop | getLocal | setLocal | getGlobal | getUpvalue | getProperty
  | equal | greater | less | add | subtract | multiply | divide | not | negate | print | heapStruct
  | promote | unknown =>
    dsimp only
    exact @leads_plain .none _ _ _ _ _ (by rw [isOp]; rfl) Licence.none_within

end Assignments

end Machine

end ScriptMachine
