import ScriptMachine.Proofs.Twins.Cells

set_option autoImplicit false

/- Calls on both sides. A call may look into objects, so at the beginning of an instruction everything
that a value in use leads to has to be there. -/
namespace ScriptMachine

/-- A native function that tells what was collected, how many bytes are in use, or the time. -/
def Builtin.observes : Builtin → Bool
  | .clock | .heapObjects | .heapInterned | .heapBytes | .gcCycles | .arenaBytes => true
  | _ => false

namespace Machine

variable {said : Array UInt8} {pairs more : Pairing} {live live' : ObjectId → Prop}
  {left right : Machine} {value value' : Value}

/-- What a machine has in use is there, and the stack is within its limit. -/
structure Grounded (live : ObjectId → Prop) (machine : Machine) : Prop where
  backs : machine.heap.Backs live
  stack : ∀ {index : Nat} {value : Value}, machine.stack[index]? = some value →
    machine.view.Shows live value
  globals : ∀ {key : ObjectId} {value : Value}, machine.globals[key]? = some value →
    (machine.heap.get? key).isSome
  natives : ∀ {key native : ObjectId}, machine.natives[key]? = some native →
    (machine.heap.get? key).isSome
  room : machine.stack.size ≤ machine.config.stackSlots

/-- Two machines between instructions: they agree, they can look at all they have in use, and a fault
would tell the same calls. -/
structure Alongside (pairs : Pairing) (live live' : ObjectId → Prop) (left right : Machine) : Prop where
  twin : Twin pairs left right
  grounded : Grounded live left
  grounded' : Grounded live' right
  trace : right.trace = left.trace

section Targets

/-- Structs that properties are read from alike. -/
structure TwinTarget (pairs : Pairing) (target target' : Target) : Prop where
  type : target.type.Twin pairs target'.type
  field : ∀ {slot : Nat} {value value' : Value}, target.field? slot = some value →
    target'.field? slot = some value' → value.Twin pairs value'

theorem TwinTarget.findField {target target' : Target} (twin : TwinTarget pairs target target')
    (name : Text) : target'.type.findField name = target.type.findField name := by
  rw [StructType.findField, twin.type.fields]
  rfl

theorem Twin.structType (twin : Twin pairs left right) (id : StructId) :
    (left.view.structType id).Twin pairs (right.view.structType id) := by
  have same := twin.registry.struct? id
  simp only [View.structType, Machine.view]
  generalize left.registry.struct? id = one at same
  generalize right.registry.struct? id = other at same
  cases same with
  | none => exact ⟨rfl, rfl, rfl, .nil⟩
  | some same => exact same

theorem Twin.view (twin : Twin pairs left right) : View.Twin pairs left.view right.view :=
  ⟨twin.heap, fun id => (twin.structType id).name, fun id => (twin.structType id).fields, twin.nodes⟩

/-- A value that can be looked into has properties on both sides, or on neither. -/
theorem Alongside.target? (beside : Alongside pairs live live' left right) (same : value.Twin pairs value')
    (shows : left.view.Shows live value) (shows' : right.view.Shows live' value') :
    Option.Rel (TwinTarget pairs) (target? left value) (target? right value') := by
  have twin := beside.twin
  cases same with
  | stack node =>
    obtain ⟨struct, here, _⟩ := shows
    obtain ⟨struct', there, _⟩ := shows'
    have alike := twin.nodes here there
    simp only [Machine.target?, show left.node? node = some struct from here,
      show right.node? node = some struct' from there, Option.map_some]
    refine .some ⟨?_, alike.field?⟩
    rw [← alike.type_eq]
    exact twin.structType _
  | ref paired =>
    obtain ⟨object, here⟩ := beside.grounded.backs.present shows
    obtain ⟨other, there⟩ := beside.grounded'.backs.present shows'
    have alike := twin.heap.alike paired here there
    simp only [Machine.target?, here, there]
    cases alike with
    | record type fields => exact .some ⟨twin.structType type, fields.each⟩
    | string | function | closure | onStack | closed | native => exact .none
  | nil => exact .none
  | bool => exact .none
  | number => exact .none

end Targets

section Calling

theorem abreast_copyArguments (count : Nat) : ∀ {index : Nat} {left right : Machine}
    {done : Unit → Unit → Machine → Machine → Prop}, Twin pairs left right → left.output = said →
    (∀ left' right', Twin pairs left' right' → left'.output = left.output → done () () left' right') →
    Abreast said (copyArguments index count) (copyArguments index count) left right done := by
  induction count with
  | zero =>
    intro _ left right _ twin _ next
    exact abreast_pure.mpr (next left right twin rfl)
  | succ count ih =>
    intro index left right done twin output next
    simp only [copyArguments]
    refine abreast_bind (abreast_slot twin index fun value value' same _ _ => ?_)
    have skip : Abreast said (copyArguments (index + 1) count) (copyArguments (index + 1) count) left
        right done := ih twin output next
    cases same with
    | stack node =>
      refine abreast_bind (abreast_struct twin node fun struct struct' alike => ?_)
      refine abreast_bind (abreast_copyInto twin alike output fun copy left' right' goes => ?_)
      refine abreast_bind (abreast_setSlot goes.twin index (.stack copy) fun twin' => ?_)
      exact ih twin' (goes.said.trans output) fun left'' right'' twin'' same =>
        next left'' right'' twin'' (same.trans goes.said)
    | nil => exact skip
    | bool => exact skip
    | number => exact skip
    | ref => exact skip

/-- How an instruction ends on both sides: with twins, and perhaps with more output. -/
def Onward (said : Array UInt8) (done : Machine → Machine → Prop) : Prop :=
  ∀ {more : Pairing} {left right : Machine}, Twin more left right →
    (∃ text : Text, left.output = said ++ text) → done left right

theorem Onward.silently {done : Machine → Machine → Prop} (onward : Onward said done)
    (twin : Twin more left right) (output : left.output = said) : done left right :=
  onward twin ⟨[], by simp [output]⟩

theorem abreast_callClosure {a b : ObjectId} {argCount : Nat}
    {done : Unit → Unit → Machine → Machine → Prop} (twin : Twin pairs left right)
    (trace : right.trace = left.trace) (paired : pairs a b) (output : left.output = said)
    (next : Onward said (done () ())) :
    Abreast said (callClosure a argCount) (callClosure b argCount) left right done := by
  have output' := twin.output.trans output
  simp only [callClosure, abreast_get_bind]
  refine abreast_bind (abreast_given fun body body' isBody isBody' => ?_)
  have same := twin.heap.closurePrototype? paired isBody isBody'
  rw [same.arity]
  refine abreast_ite Iff.rfl (fun _ _ => abreast_fail_bind trace output output') fun _ _ => ?_
  rw [abreast_get_bind]
  refine abreast_unless_full output output' ?_
  rw [twin.stack.size]
  refine abreast_ite Iff.rfl (fun _ _ => abreast_goWrong_bind) fun _ _ => ?_
  rw [abreast_modify_bind]
  have called : ∀ base, Twin pairs { left with frames := { closure := a, base } :: left.frames }
      { right with frames := { closure := b, base } :: right.frames } := fun base =>
    twin.withFrames (.cons ⟨paired, rfl, rfl⟩ twin.frames) (.refl (arenas left.frames))
      (.refl (arenas right.frames))
  exact abreast_copyArguments _ (called _) output fun left' right' twin' same =>
    next.silently twin' (same.trans output)

end Calling

section Natives

variable {args args' : List Value}

/-- What a native function does on both sides, if it does not observe the heap or the time. -/
theorem abreast_runBuiltin {action : Builtin} {done : Value → Value → Machine → Machine → Prop}
    (beside : Alongside pairs live live' left right) (output : left.output = said)
    (quiet : action.observes = false) (same : List.Forall₂ (Value.Twin pairs) args args')
    (shows : ∀ value ∈ args, left.view.Shows live value)
    (shows' : ∀ value ∈ args', right.view.Shows live' value)
    (next : ∀ more value value' heap heap' output output',
      Twin more { left with heap, output } { right with heap := heap', output := output' } →
      (∃ text : Text, output = said ++ text) → value.Twin more value' →
      done value value' { left with heap, output } { right with heap := heap', output := output' }) :
    Abreast said (runBuiltin action args) (runBuiltin action args') left right done := by
  have twin := beside.twin
  have output' := twin.output.trans output
  have first : (args.head?.getD .nil).Twin pairs (args'.head?.getD .nil) ∧
      left.view.Shows live (args.head?.getD .nil) ∧
      right.view.Shows live' (args'.head?.getD .nil) := by
    cases same with
    | nil => exact ⟨.nil, trivial, trivial⟩
    | cons first _ =>
      exact ⟨first, shows _ List.mem_cons_self, shows' _ List.mem_cons_self⟩
  have texts := twin.view.text beside.grounded.backs beside.grounded'.backs first.1 first.2.1 first.2.2
  have gives : ∀ {value value' : Value}, value.Twin pairs value' → done value value' left right :=
    fun alike => next pairs _ _ left.heap right.heap left.output right.output twin
      ⟨[], by simp [output]⟩ alike
  cases action with
  | clock | heapObjects | heapInterned | heapBytes | gcCycles | arenaBytes => cases quiet
  | double =>
    simp only [runBuiltin]
    generalize args.head?.getD .nil = one at first
    generalize args'.head?.getD .nil = other at first
    cases first.1 with
    | number value => exact abreast_pure.mpr (gives (.number _))
    | nil => exact abreast_fail beside.trace output output'
    | bool => exact abreast_fail beside.trace output output'
    | ref => exact abreast_fail beside.trace output output'
    | stack => exact abreast_fail beside.trace output output'
  | argumentCount =>
    simp only [runBuiltin, same.length_eq, abreast_pure]
    exact gives (.number _)
  | same => exact abreast_pure.mpr (gives first.1)
  | text =>
    simp only [runBuiltin, abreast_get_bind]
    rw [texts]
    refine abreast_bind (abreast_intern twin output fun more a b heap heap' goes paired => ?_)
    exact abreast_pure.mpr (next more _ _ heap heap' left.output right.output goes.twin
      ⟨[], by simp [output]⟩ (.ref paired))
  | explode => exact abreast_fail beside.trace output output'
  | fault => exact .same output output'
  | collect =>
    simp only [runBuiltin, abreast_modify_bind, abreast_pure]
    refine next pairs _ _ _ _ left.output right.output ?_ ⟨[], by simp [output]⟩ .nil
    exact twin.recount (Heap.thins_collect _ _) (Heap.thins_collect _ _)
  | stackSize =>
    simp only [runBuiltin, abreast_get_bind, abreast_pure, twin.stack.size]
    exact gives (.number _)
  | frameCount =>
    simp only [runBuiltin, abreast_get_bind, abreast_pure, twin.frames.length_eq]
    exact gives (.number _)
  | emit =>
    simp only [runBuiltin, abreast_get_bind, write, abreast_modify_bind, abreast_pure]
    rw [texts]
    refine next pairs _ _ left.heap right.heap _ _ ?_ ⟨_, by rw [output]⟩ first.1
    exact { twin with output := by rw [twin.output] }

/-- Whether a native function takes a number of arguments. -/
def accepts (host : Native) (argCount : Nat) : Bool :=
  host.arity.all (· == argCount)

theorem mem_extract {machine : Machine} {start stop : Nat}
    (member : value ∈ (machine.stack.extract start stop).toList) :
    ∃ index : Nat, machine.stack[index]? = some value := by
  obtain ⟨index, here⟩ := Array.mem_iff_getElem?.mp (Array.mem_toList_iff.mp member)
  rw [Array.getElem?_extract] at here
  split at here
  · exact ⟨_, here⟩
  · cases here

theorem abreast_applyNative {host : Native} {argCount : Nat}
    {done : Unit → Unit → Machine → Machine → Prop} (beside : Alongside pairs live live' left right)
    (output : left.output = said) (quiet : host.action.any Builtin.observes = false)
    (next : Onward said (done () ())) :
    Abreast said (applyNative host argCount) (applyNative host argCount) left right done := by
  have twin := beside.twin
  simp only [applyNative, abreast_get_bind]
  rw [twin.stack.size]
  refine abreast_ite Iff.rfl (fun _ _ => abreast_goWrong_bind) fun enough _ => ?_
  rw [abreast_get_bind]
  cases isAction : host.action with
  | none => exact abreast_fail_bind beside.trace output (twin.output.trans output)
  | some action =>
    rw [isAction] at quiet
    refine abreast_bind (abreast_runBuiltin beside output quiet (twin.stack.extract _ _).toList
      (fun value member => ?_) (fun value member => ?_)
      fun more value value' heap heap' output output' ran grown same => ?_)
    · obtain ⟨_, here⟩ := mem_extract member
      exact beside.grounded.stack here
    · obtain ⟨_, here⟩ := mem_extract member
      exact beside.grounded'.stack here
    · refine abreast_bind (abreast_shrink ran _ fun cut => ?_)
      -- the result takes the place of the callee, so there is room for it
      have room := beside.grounded.room
      have room' := beside.grounded'.room
      have size := twin.stack.size
      refine abreast_push_room cut same ?_ ?_ fun pushed => next pushed grown
      · simp only [Array.size_shrink]
        omega
      · simp only [Array.size_shrink]
        omega

theorem abreast_callNative {host : Native} {argCount : Nat}
    {done : Unit → Unit → Machine → Machine → Prop} (beside : Alongside pairs live live' left right)
    (output : left.output = said)
    (quiet : accepts host argCount → host.action.any Builtin.observes = false)
    (next : Onward said (done () ())) :
    Abreast said (callNative host argCount) (callNative host argCount) left right done := by
  simp only [callNative]
  cases isArity : host.arity with
  | none => exact abreast_applyNative beside output (quiet (by simp [accepts, isArity])) next
  | some arity =>
    refine abreast_ite Iff.rfl
      (fun _ _ => abreast_fail_bind beside.trace output (beside.twin.output.trans output))
      fun same _ => abreast_applyNative beside output (quiet ?_) next
    simp only [bne_iff_ne, ne_eq, Decidable.not_not] at same
    simp [accepts, isArity, same]

/-- The native function that a value calls when it is called with a number of arguments. -/
def nativeCalled? (machine : Machine) (argCount : Nat) : Value → Option Native
  | .ref id =>
    match machine.heap.get? id with
    | some (.native host) => if accepts host argCount then some host else none
    | _ => none
  | _ => none

/-- Whether calling a value with a number of arguments runs a native function that observes the heap or
the time. -/
def observes (machine : Machine) (argCount : Nat) (callee : Value) : Bool :=
  (machine.nativeCalled? argCount callee).any fun host => host.action.any Builtin.observes

theorem abreast_callValue {callee callee' : Value} {argCount : Nat}
    {done : Unit → Unit → Machine → Machine → Prop} (beside : Alongside pairs live live' left right)
    (output : left.output = said) (same : callee.Twin pairs callee')
    (present : ∀ id, callee = .ref id → ∃ object, left.heap.get? id = some object)
    (present' : ∀ id, callee' = .ref id → ∃ object, right.heap.get? id = some object)
    (quiet : left.observes argCount callee = false) (next : Onward said (done () ())) :
    Abreast said (callValue callee argCount) (callValue callee' argCount) left right done := by
  have twin := beside.twin
  have output' := twin.output.trans output
  simp only [callValue]
  cases same with
  | @ref a b paired =>
    obtain ⟨object, here⟩ := present a rfl
    obtain ⟨other, there⟩ := present' b rfl
    have alike := twin.heap.alike paired here there
    simp only [abreast_get_bind, here, there]
    cases alike with
    | closure => exact abreast_callClosure twin beside.trace paired output next
    | native host =>
      refine abreast_callNative beside output (fun isAccepted => ?_) next
      simpa [observes, nativeCalled?, here, isAccepted] using quiet
    | string => exact abreast_fail beside.trace output output'
    | function => exact abreast_fail beside.trace output output'
    | onStack => exact abreast_fail beside.trace output output'
    | closed => exact abreast_fail beside.trace output output'
    | record => exact abreast_fail beside.trace output output'
  | nil => exact abreast_fail beside.trace output output'
  | bool => exact abreast_fail beside.trace output output'
  | number => exact abreast_fail beside.trace output output'
  | stack => exact abreast_fail beside.trace output output'

end Natives

section Methods

/-- What a property holds can be looked into as well. -/
theorem Grounded.field {machine : Machine} (grounded : Grounded live machine)
    (unique : StackStruct.Unique (nodeIds machine.frames)) {target : Target} {callee : Value}
    {slot : Nat} (shows : machine.view.Shows live value)
    (isTarget : target? machine value = some target) (here : target.field? slot = some callee) :
    machine.view.Shows live callee := by
  have kept : ∀ {inside : Value}, inside.Kept live → machine.view.Shows live inside := by
    intro inside isKept
    cases inside with
    | stack _ => exact isKept.elim
    | nil | bool _ | number _ | ref _ => exact isKept
  cases value with
  | stack node =>
    obtain ⟨struct, found, fits⟩ := shows
    rw [target?, show machine.node? node = some struct from found] at isTarget
    cases isTarget
    obtain ⟨contents, isSlot, rfl⟩ := Option.map_eq_some_iff.mp here
    have fitting := fits.slot isSlot
    cases contents with
    | plain value => exact kept fitting
    | nested inner =>
      obtain ⟨index, owned⟩ := owned_of_node? found
      exact ⟨inner, (owned.nested unique isSlot).node? unique, fitting⟩
  | ref id =>
    simp only [target?] at isTarget
    split at isTarget
    · next type fields isRecord =>
      cases isTarget
      refine kept ?_
      have member : callee ∈ fields := Array.mem_of_getElem? here
      have plain : callee.Plain := grounded.backs.plain shows isRecord callee member
      cases callee with
      | ref other =>
        exact grounded.backs.closed shows isRecord
          (List.mem_filterMap.mpr ⟨_, Array.mem_toList_iff.mpr member, rfl⟩)
      | stack _ => cases plain
      | nil | bool _ | number _ => trivial
    · cases isTarget
  | nil | bool _ | number _ => cases isTarget

theorem Grounded.setSlot {machine : Machine} (grounded : Grounded live machine) (index : Nat)
    (shows : machine.view.Shows live value) :
    Grounded live { machine with stack := machine.stack.setIfInBounds index value } where
  backs := grounded.backs
  stack here := by
    rw [Array.getElem?_setIfInBounds] at here
    split at here
    · split at here
      · cases here
        exact shows
      · cases here
    · exact grounded.stack here
  globals := grounded.globals
  natives := grounded.natives
  room := by
    rw [Array.size_setIfInBounds]
    exact grounded.room

theorem Grounded.present {machine : Machine} (grounded : Grounded live machine)
    (shows : machine.view.Shows live value) :
    ∀ id, value = .ref id → ∃ object, machine.heap.get? id = some object := by
  rintro id rfl
  exact grounded.backs.present shows

/-- What calling a method calls if there is a field of that name: the value of that field. -/
def fieldCalled? (machine : Machine) (receiver : Value) (name : Text) : Option Value := do
  let target ← target? machine receiver
  let slot ← target.type.findField name
  target.field? slot

theorem abreast_invoke {name : Text} {argCount : Nat}
    {done : Unit → Unit → Machine → Machine → Prop} (beside : Alongside pairs live live' left right)
    (output : left.output = said)
    (quiet : ∀ receiver callee, left.stack[left.stack.size - 1 - argCount]? = some receiver →
      left.fieldCalled? receiver name = some callee → left.observes argCount callee = false)
    (next : Onward said (done () ())) :
    Abreast said (invoke name argCount) (invoke name argCount) left right done := by
  have twin := beside.twin
  have output' := twin.output.trans output
  simp only [invoke]
  refine abreast_bind (abreast_peek twin argCount fun receiver receiver' same here there => ?_)
  rw [abreast_get_bind]
  have shows := beside.grounded.stack here
  have shows' := beside.grounded'.stack there
  have targets := beside.target? same shows shows'
  generalize isTarget : target? left receiver = one at targets
  generalize isTarget' : target? right receiver' = other at targets
  cases targets with
  | none => exact abreast_fail beside.trace output output'
  | @some target target' targets =>
    simp only [targets.findField]
    cases isField : target.type.findField name with
    | some slot =>
      refine abreast_bind (abreast_given fun callee callee' isCallee isCallee' => ?_)
      rw [abreast_get_bind, twin.stack.size]
      have alike := targets.field isCallee isCallee'
      have calls := beside.grounded.field twin.numbered.unique shows isTarget isCallee
      have calls' := beside.grounded'.field twin.numbered'.unique shows' isTarget' isCallee'
      refine abreast_bind (abreast_setSlot twin _ alike fun stored => ?_)
      refine abreast_callValue ⟨stored, beside.grounded.setSlot _ calls,
        beside.grounded'.setSlot _ calls', beside.trace⟩ output alike
        (beside.grounded.present calls) (beside.grounded'.present calls') ?_ next
      exact quiet receiver callee here (by simp [fieldCalled?, isTarget, isField, isCallee])
    | none =>
      have methods := targets.type.findMethod name
      generalize target.type.findMethod name = method at methods
      generalize target'.type.findMethod name = method' at methods
      cases methods with
      | some methods => exact abreast_callClosure twin beside.trace methods.closure output next
      | none =>
        rw [targets.type.name]
        exact abreast_fail beside.trace output output'

end Methods

end Machine

end ScriptMachine
