import ScriptMachine.Proofs.Twins.Calls

set_option autoImplicit false

/- The instructions on both sides. Each one leaves twins behind, and what it prints it prints on both
sides. -/
namespace ScriptMachine.Machine

variable {said : Array UInt8} {pairs more : Pairing} {live live' : ObjectId → Prop}
  {left right : Machine} {site site' : Site} {value value' : Value}

/-- The same instruction of the same code. -/
structure TwinSite (pairs : Pairing) (site site' : Site) : Prop where
  frame : TwinFrame pairs site.frame site'.frame
  prototype : site.prototype.Twin pairs site'.prototype

/-- Twins that have gone on, and may have printed. -/
def Landed (said : Array UInt8) (left right : Machine) : Prop :=
  (∃ more, Twin more left right) ∧ ∃ text : Text, left.output = said ++ text

/-- An instruction that both machines execute alike. -/
def Lands (said : Array UInt8) (first second : Exec Unit) (left right : Machine) : Prop :=
  Abreast said first second left right fun _ _ => Landed said

theorem onward_landed : Onward said (Landed said) :=
  fun twin grown => ⟨⟨_, twin⟩, grown⟩

theorem Goes.landed {left' right' : Machine} (goes : Goes pairs left right more left' right')
    (output : left.output = said) : Landed said left' right' :=
  onward_landed.silently goes.twin (goes.said.trans output)

section Operands

theorem abreast_operand {index : Int} {done : Nat → Nat → Machine → Machine → Prop}
    (next : done index.toNat index.toNat left right) :
    Abreast said (operand index) (operand index) left right done := by
  unfold operand
  exact abreast_ite Iff.rfl (fun _ _ => abreast_goWrong) fun _ _ => abreast_pure.mpr next

/-- A string constant on both sides. -/
theorem abreast_nameOperand {index : Int}
    {done : ObjectId × Text → ObjectId × Text → Machine → Machine → Prop}
    (twin : Twin pairs left right) (sites : TwinSite pairs site site')
    (next : ∀ a b text, site.prototype.constant? index = some (.ref a) → pairs a b →
      left.heap.string? a = some text → right.heap.string? b = some text →
      done (a, text) (b, text) left right) :
    Abreast said (nameOperand site index) (nameOperand site' index) left right done := by
  unfold nameOperand
  split
  · next a isConstant =>
    split
    · next b isConstant' =>
      have same := sites.prototype.constant? index isConstant isConstant'
      obtain _ | _ | _ | paired | _ := same
      rw [abreast_get_bind]
      refine abreast_bind (abreast_given fun text text' isText isText' => ?_)
      obtain rfl := twin.heap.string? paired isText isText'
      exact abreast_pure.mpr (next a b _ isConstant paired isText isText')
    · exact abreast_goWrong'
  · exact abreast_goWrong

theorem isSome_of_string? {heap : Heap} {id : ObjectId} {text : Text}
    (here : heap.string? id = some text) : (heap.get? id).isSome := by
  unfold Heap.string? at here
  split at here
  · next found =>
    rw [found]
    rfl
  · cases here

end Operands

section Variables

theorem lands_push (twin : Twin pairs left right) (same : value.Twin pairs value')
    (output : left.output = said) : Lands said (push value) (push value') left right :=
  abreast_push twin same output fun pushed => onward_landed.silently pushed output

theorem lands_setTop (twin : Twin pairs left right) (same : value.Twin pairs value')
    (output : left.output = said) : Lands said (setTop value) (setTop value') left right :=
  abreast_setTop twin same fun _ _ stored => onward_landed.silently stored output

theorem lands_jumpTo (target : Int) (twin : Twin pairs left right) (output : left.output = said) :
    Lands said (jumpTo target) (jumpTo target) left right := by
  refine abreast_bind (abreast_operand (abreast_modify.mpr ?_))
  refine onward_landed.silently (twin.modifyFrame (fun _ _ same => ?_) (fun _ => rfl) fun _ => rfl) output
  exact ⟨same.closure, same.base, rfl⟩

/-- A global has the same value on both sides. -/
theorem Alongside.global (beside : Alongside pairs live live' left right) {a b : ObjectId} {text : Text}
    (paired : pairs a b) (here : left.heap.string? a = some text)
    (there : right.heap.string? b = some text) :
    Option.Rel (Value.Twin pairs) left.globals[a]? right.globals[b]? :=
  beside.twin.globals.at beside.twin.heap paired (isSome_of_string? here) (isSome_of_string? there)
    beside.grounded.globals beside.grounded'.globals

theorem lands_getGlobal (index : Int) (beside : Alongside pairs live live' left right)
    (sites : TwinSite pairs site site') (output : left.output = said) :
    Lands said (getGlobal site index) (getGlobal site' index) left right := by
  have twin := beside.twin
  refine abreast_bind (abreast_nameOperand twin sites fun a b text _ paired here there => ?_)
  rw [abreast_get_bind]
  have globals := beside.global paired here there
  have natives := twin.natives.at twin.heap paired (isSome_of_string? here) (isSome_of_string? there)
    beside.grounded.natives beside.grounded'.natives
  generalize left.globals[a]? = one at globals
  generalize right.globals[b]? = other at globals
  cases globals with
  | some same => exact lands_push twin same output
  | none =>
    generalize left.natives[a]? = one at natives
    generalize right.natives[b]? = other at natives
    cases natives with
    | some joined => exact lands_push twin (.ref joined) output
    | none => exact abreast_fail beside.trace output (twin.output.trans output)

theorem abreast_storeGlobal {a b : ObjectId} {name : Text}
    {done : Unit → Unit → Machine → Machine → Prop} (beside : Alongside pairs live live' left right)
    (paired : pairs a b) (here : left.heap.string? a = some name)
    (there : right.heap.string? b = some name) (output : left.output = said)
    (next : ∀ globals globals', Twin pairs { left with globals } { right with globals := globals' } →
      done () () { left with globals } { right with globals := globals' }) :
    Abreast said (storeGlobal a name) (storeGlobal b name) left right done := by
  have twin := beside.twin
  refine abreast_bind (abreast_peek twin 0 fun value value' same _ _ => ?_)
  have stores : ∀ {value value' : Value}, value.Twin pairs value' →
      done () () { left with globals := left.globals.insert a value }
        { right with globals := right.globals.insert b value' } := fun same =>
    next _ _ { twin with
      globals := twin.globals.insert twin.heap paired (isSome_of_string? here)
        (isSome_of_string? there) beside.grounded.globals beside.grounded'.globals same }
  cases same with
  | stack => exact abreast_fail beside.trace output (twin.output.trans output)
  | nil => exact abreast_modify.mpr (stores .nil)
  | bool value => exact abreast_modify.mpr (stores (.bool value))
  | number value => exact abreast_modify.mpr (stores (.number value))
  | ref joined => exact abreast_modify.mpr (stores (.ref joined))

theorem lands_defineGlobal (index : Int) (beside : Alongside pairs live live' left right)
    (sites : TwinSite pairs site site') (output : left.output = said) :
    Lands said (defineGlobal site index) (defineGlobal site' index) left right := by
  refine abreast_bind (abreast_nameOperand beside.twin sites fun a b text _ paired here there => ?_)
  refine abreast_bind (abreast_storeGlobal beside paired here there output fun _ _ stored => ?_)
  refine abreast_bind (abreast_pop stored fun _ _ _ _ _ popped => ?_)
  exact abreast_pure.mpr (onward_landed.silently popped output)

theorem lands_setGlobal (index : Int) (beside : Alongside pairs live live' left right)
    (sites : TwinSite pairs site site') (output : left.output = said) :
    Lands said (setGlobal site index) (setGlobal site' index) left right := by
  refine abreast_bind (abreast_nameOperand beside.twin sites fun a b text _ paired here there => ?_)
  rw [abreast_get_bind]
  have globals := beside.global paired here there
  have known : left.globals[a]?.isNone = true ↔ right.globals[b]?.isNone = true := by
    generalize left.globals[a]? = one at globals
    generalize right.globals[b]? = other at globals
    cases globals <;> rfl
  refine abreast_ite known
    (fun _ _ => abreast_fail_bind beside.trace output (beside.twin.output.trans output)) fun _ _ => ?_
  exact abreast_storeGlobal beside paired here there output fun _ _ stored =>
    onward_landed.silently stored output

theorem lands_getUpvalue (index : Int) (twin : Twin pairs left right)
    (sites : TwinSite pairs site site') (output : left.output = said) :
    Lands said (getUpvalue site index) (getUpvalue site' index) left right := by
  refine abreast_bind (abreast_operand ?_)
  refine abreast_bind (abreast_upvalueCell twin sites.frame fun a b cell cell' _ same _ _ => ?_)
  cases same with
  | onStack slot =>
    exact abreast_bind (abreast_slot twin slot fun _ _ same _ _ => lands_push twin same output)
  | closed same => exact lands_push twin same output

theorem lands_setUpvalue (index : Int) (twin : Twin pairs left right)
    (sites : TwinSite pairs site site') (output : left.output = said) :
    Lands said (setUpvalue site index) (setUpvalue site' index) left right := by
  refine abreast_bind (abreast_operand ?_)
  refine abreast_bind (abreast_upvalueCell twin sites.frame
    fun a b cell cell' paired cells here there => ?_)
  refine abreast_bind (abreast_peek twin 0 fun value value' same _ _ => ?_)
  exact abreast_assignCell twin paired cells here there same output
    fun _ _ _ goes => goes.landed output

end Variables

section Properties

theorem lands_getProperty (index : Int) (beside : Alongside pairs live live' left right)
    (sites : TwinSite pairs site site') (output : left.output = said) :
    Lands said (getProperty site index) (getProperty site' index) left right := by
  have twin := beside.twin
  have output' := twin.output.trans output
  refine abreast_bind (abreast_nameOperand twin sites fun _ _ name _ _ _ _ => ?_)
  rw [abreast_get_bind]
  refine abreast_bind (abreast_peek twin 0 fun object object' same here there => ?_)
  have targets := beside.target? same (beside.grounded.stack here) (beside.grounded'.stack there)
  generalize target? left object = one at targets
  generalize target? right object' = other at targets
  cases targets with
  | none => exact abreast_fail beside.trace output output'
  | @some target target' targets =>
    simp only [targets.findField]
    cases target.type.findField name with
    | none =>
      rw [targets.type.name]
      exact abreast_fail beside.trace output output'
    | some slot =>
      refine abreast_bind (abreast_given fun _ _ isField isField' => ?_)
      exact lands_setTop twin (targets.field isField isField') output

/-- A value is stored in a field on both sides. -/
theorem abreast_storeField {target target' : Value} {slot : Nat}
    {done : Value → Value → Machine → Machine → Prop} (twin : Twin pairs left right)
    (targets : target.Twin pairs target') (same : value.Twin pairs value')
    (output : left.output = said)
    (next : ∀ more value value' left' right', Goes pairs left right more left' right' →
      value.Twin more value' → done value value' left' right') :
    Abreast said (storeField target slot value) (storeField target' slot value') left right done := by
  cases targets with
  | stack node =>
    have plainly : ∀ {value value' : Value}, value.Twin pairs value' →
        Abreast said (do modifyStruct node fun struct => struct.store slot (.plain value); return value)
          (do modifyStruct node fun struct => struct.store slot (.plain value'); return value')
          left right done := by
      intro value value' same
      simp only [modifyStruct, abreast_modify_bind, abreast_pure]
      have stored := twin.withSlot (spare_plain twin.numbered value)
        (twin.nextNode ▸ spare_plain twin.numbered' value') (.plain same) node slot
      exact next pairs value value' _ _ ⟨le_rfl, stored, .refl _, .refl _, rfl⟩ same
    cases same with
    | stack source =>
      simp only [storeField]
      refine abreast_bind (abreast_struct twin source fun struct struct' alike => ?_)
      refine abreast_bind (abreast_fresh twin alike
        fun copy copy' nextNode above copied spare spare' matched => ?_)
      refine abreast_bind (abreast_charge copied output fun left' right' thins thins' goes => ?_)
      rw [← Slot.ids_nested] at spare spare'
      have stored := goes.twin.withSlot (spare.thin thins) (spare'.thin thins') (.nested matched) node
        slot
      simp only [modifyStruct, abreast_modify_bind, abreast_pure]
      rw [← matched.twin.id_eq]
      exact next pairs _ _ _ _ ⟨le_rfl, stored, goes.older, goes.older', goes.said⟩ (.stack _)
    | nil => exact plainly .nil
    | bool value => exact plainly (.bool value)
    | number value => exact plainly (.number value)
    | ref joined => exact plainly (.ref joined)
  | ref paired =>
    simp only [storeField]
    refine abreast_bind (abreast_heapValue twin same output
      fun more value value' heap heap' goes alike => ?_)
    refine abreast_bind (abreast_modifyHeap goes.twin
      (goes.twin.heap.setField (goes.larger _ _ paired) slot alike) fun _ _ stored => ?_)
    exact abreast_pure.mpr (next more value value' _ _ (goes.trans stored) alike)
  | nil => exact abreast_goWrong
  | bool => exact abreast_goWrong
  | number => exact abreast_goWrong

theorem lands_setProperty (index : Int) (beside : Alongside pairs live live' left right)
    (sites : TwinSite pairs site site') (output : left.output = said) :
    Lands said (setProperty site index) (setProperty site' index) left right := by
  have twin := beside.twin
  have output' := twin.output.trans output
  refine abreast_bind (abreast_nameOperand twin sites fun _ _ name _ _ _ _ => ?_)
  refine abreast_bind (abreast_peek twin 1 fun object object' objects here there => ?_)
  rw [abreast_get_bind]
  have targets := beside.target? objects (beside.grounded.stack here) (beside.grounded'.stack there)
  generalize target? left object = one at targets
  generalize target? right object' = other at targets
  cases targets with
  | none => exact abreast_fail beside.trace output output'
  | @some target target' targets =>
    simp only [targets.findField]
    cases target.type.findField name with
    | none =>
      rw [targets.type.name]
      exact abreast_fail beside.trace output output'
    | some slot =>
      refine abreast_bind (abreast_peek twin 0 fun value value' same _ _ => ?_)
      refine abreast_bind (abreast_storeField twin objects same output
        fun more value value' left' right' goes alike => ?_)
      refine abreast_bind (abreast_pop goes.twin fun _ _ _ _ _ popped => ?_)
      refine abreast_bind (abreast_pop popped fun _ _ _ _ _ popped => ?_)
      exact lands_push popped alike (goes.said.trans output)

end Properties

section Operators

theorem lands_binary (result : Float → Float → Value) (beside : Alongside pairs live live' left right)
    (plain : ∀ a b, (result a b).Twin pairs (result a b)) (output : left.output = said) :
    Lands said (binary result) (binary result) left right := by
  have twin := beside.twin
  have output' := twin.output.trans output
  have fails : ∀ {left right : Machine}, left.output = said → right.output = said →
      right.trace = left.trace → Lands said (fail .operandsNotNumbers) (fail .operandsNotNumbers) left
        right := fun output output' trace => abreast_fail trace output output'
  refine abreast_bind (abreast_peek twin 1 fun _ _ one _ _ => ?_)
  refine abreast_bind (abreast_peek twin 0 fun _ _ two _ _ => ?_)
  cases one with
  | number a =>
    cases two with
    | number b =>
      refine abreast_bind (abreast_pop twin fun _ _ _ _ _ popped => ?_)
      exact lands_setTop popped (plain a b) output
    | nil => exact fails output output' beside.trace
    | bool => exact fails output output' beside.trace
    | ref => exact fails output output' beside.trace
    | stack => exact fails output output' beside.trace
  | nil => exact fails output output' beside.trace
  | bool => exact fails output output' beside.trace
  | ref => exact fails output output' beside.trace
  | stack => exact fails output output' beside.trace

theorem lands_negate (beside : Alongside pairs live live' left right) (output : left.output = said) :
    Lands said negate negate left right := by
  have twin := beside.twin
  have output' := twin.output.trans output
  refine abreast_bind (abreast_peek twin 0 fun _ _ same _ _ => ?_)
  cases same with
  | number value => exact lands_setTop twin (.number _) output
  | nil => exact abreast_fail beside.trace output output'
  | bool => exact abreast_fail beside.trace output output'
  | ref => exact abreast_fail beside.trace output output'
  | stack => exact abreast_fail beside.trace output output'

theorem lands_equal (beside : Alongside pairs live live' left right) (output : left.output = said) :
    Lands said equal equal left right := by
  have below : ∀ {stack : Array Value} {index : Nat} {value : Value}, stack.pop[index]? = some value →
      stack[index]? = some value := by
    intro stack index value here
    rw [Array.getElem?_pop] at here
    split at here
    · exact here
    · cases here
  refine abreast_bind (abreast_pop beside.twin fun b b' two here there popped => ?_)
  refine abreast_bind (abreast_pop popped fun a a' one here' there' popped' => ?_)
  rw [abreast_get_bind]
  have same : right.view.equal a' b' = left.view.equal a b :=
    beside.twin.view.equal beside.grounded.backs beside.grounded'.backs one two
      (beside.grounded.stack (below here')) (beside.grounded'.stack (below there'))
      (beside.grounded.stack here) (beside.grounded'.stack there)
  refine lands_push popped' ?_ output
  change (Value.bool (left.view.equal a b)).Twin pairs (.bool (right.view.equal a' b'))
  rw [same]
  exact .bool _

theorem lands_print (beside : Alongside pairs live live' left right) (output : left.output = said) :
    Lands said print print left right := by
  refine abreast_bind (abreast_peek beside.twin 0 fun value value' same here there => ?_)
  rw [abreast_get_bind, write, write, abreast_modify_bind]
  have text := beside.twin.view.text beside.grounded.backs beside.grounded'.backs same
    (beside.grounded.stack here) (beside.grounded'.stack there)
  rw [text]
  have printed : Twin pairs
      { left with output := left.output ++ (left.view.text value ++ [Text.newline]) }
      { right with output := right.output ++ (left.view.text value ++ [Text.newline]) } :=
    { beside.twin with output := by rw [beside.twin.output] }
  refine abreast_bind (abreast_pop printed fun _ _ _ _ _ popped => ?_)
  exact abreast_pure.mpr (onward_landed popped ⟨_, by rw [output]⟩)

end Operators

section Closures

theorem abreast_newClosure {pinned pinned' : List ObjectId} {a b : ObjectId}
    {body body' : Prototype} {done : ObjectId → ObjectId → Machine → Machine → Prop}
    (twin : Twin pairs left right) (paired : pairs a b) (here : left.heap.prototype? a = some body)
    (there : right.heap.prototype? b = some body') (output : left.output = said)
    (next : ∀ more closure closure' heap heap',
      Goes pairs left right more { left with heap } { right with heap := heap' } →
      more closure closure' → done closure closure' { left with heap } { right with heap := heap' }) :
    Abreast said (allocating pinned (Heap.newClosure · a)) (allocating pinned' (Heap.newClosure · b))
      left right done := by
  refine abreast_allocating twin output fun roots roots' closure closure' heap heap' made made' => ?_
  obtain ⟨more, heaps, joined⟩ := twin.heap.newClosure paired here there made made'
  exact next more closure closure' heap heap' (twin.withHeap heaps) joined

theorem lands_makeClosure (index : Int) (twin : Twin pairs left right)
    (sites : TwinSite pairs site site') (output : left.output = said) :
    Lands said (makeClosure site index) (makeClosure site' index) left right := by
  unfold Lands makeClosure
  split
  · next a isConstant =>
    split
    · next b isConstant' =>
      have same := sites.prototype.constant? index isConstant isConstant'
      obtain _ | _ | _ | paired | _ := same
      rw [abreast_get_bind]
      refine abreast_bind (abreast_given fun body body' isBody isBody' => ?_)
      refine abreast_bind (abreast_newClosure twin paired isBody isBody' output
        fun more closure closure' heap heap' goes joined => ?_)
      refine abreast_bind (abreast_push goes.twin (.ref joined) output fun pushed => ?_)
      rw [(twin.heap.prototype? paired isBody isBody').captures]
      exact abreast_captureAll _ pushed (sites.frame.mono goes.larger) joined output
        fun _ _ _ captured => captured.landed output
    · exact abreast_goWrong'
  · exact abreast_goWrong

end Closures

end ScriptMachine.Machine
