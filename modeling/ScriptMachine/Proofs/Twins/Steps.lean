import ScriptMachine.Proofs.Twins.Instructions

set_option autoImplicit false

/- Returns, struct literals and a whole step on both sides. -/
namespace ScriptMachine.Machine

variable {said : Array UInt8} {pairs more : Pairing} {live live' : ObjectId → Prop}
  {left right : Machine} {site site' : Site} {code : Instruction}

/-- A step that both machines take alike. -/
def Marches (said : Array UInt8) (first second : Exec Progress) (left right : Machine) : Prop :=
  Abreast said first second left right fun progress progress' left right =>
    progress' = progress ∧ Landed said left right

theorem marches_of_lands {first second : Exec Unit} (lands : Lands said first second left right) :
    Marches said (first >>= fun _ => pure .running) (second >>= fun _ => pure .running) left right :=
  abreast_bind (lands.mono fun _ _ _ _ landed => abreast_pure.mpr ⟨rfl, landed⟩)

section Returning

theorem marches_finishCall (twin : Twin pairs left right) (sites : TwinSite pairs site site')
    (output : left.output = said) :
    Marches said (finishCall site) (finishCall site') left right := by
  simp only [Marches, finishCall, sites.frame.base]
  refine abreast_bind (abreast_closeCells twin output fun more left' right' goes => ?_)
  have output' := goes.said.trans output
  refine abreast_bind (abreast_peek goes.twin 0 fun result result' same _ _ => ?_)
  rw [abreast_get_bind]
  refine abreast_ite (by rw [goes.twin.frames.length_eq]) (fun _ _ => ?_) fun _ _ => ?_
  · refine abreast_bind (abreast_popFrame goes.twin fun left' right' popped _ said' => ?_)
    refine abreast_bind (abreast_shrink popped 0 fun cut => ?_)
    exact abreast_pure.mpr ⟨rfl, onward_landed.silently cut (said'.trans output')⟩
  · have handBack : ∀ {left' right' : Machine} {result result' : Value}, Twin more left' right' →
        left'.output = said → result.Twin more result' → Marches said (do
          shrink site.frame.base
          popFrame
          push result
          return .running) (do
          shrink site.frame.base
          popFrame
          push result'
          return .running) left' right' := by
      intro left' right' result result' twin output same
      refine abreast_bind (abreast_shrink twin _ fun cut => ?_)
      refine abreast_bind (abreast_popFrame cut fun left'' right'' popped _ said' => ?_)
      exact marches_of_lands (lands_push popped same (said'.trans output))
    cases same with
    | stack node =>
      refine abreast_bind (abreast_struct goes.twin node fun struct struct' alike => ?_)
      refine abreast_bind (abreast_copyInto goes.twin alike output' fun copy _ _ goes' => ?_)
      exact handBack goes'.twin (goes'.said.trans output') (.stack copy)
    | nil => exact handBack goes.twin output' .nil
    | bool value => exact handBack goes.twin output' (.bool value)
    | number value => exact handBack goes.twin output' (.number value)
    | ref paired => exact handBack goes.twin output' (.ref paired)

end Returning

section Literals

/-- The initialisers of a literal: slots, and twins to fill them with. -/
abbrev TwinEntries (pairs : Pairing) : List (Nat × Value) → List (Nat × Value) → Prop :=
  List.Forall₂ fun entry entry' => entry'.1 = entry.1 ∧ entry.2.Twin pairs entry'.2

theorem TwinEntries.zip (slots : List Nat) : ∀ {values values' : List Value},
    List.Forall₂ (Value.Twin pairs) values values' →
    TwinEntries pairs (slots.zip values) (slots.zip values') := by
  induction slots with
  | nil => exact fun _ => .nil
  | cons slot rest ih =>
    intro values values' twins
    cases twins with
    | nil => exact .nil
    | cons first others => exact .cons ⟨rfl, first⟩ (ih others)

/-- The type and the initialisers of a struct literal on both sides. -/
theorem abreast_literal
    {done : StructId × StructType × List (Nat × Value) → StructId × StructType × List (Nat × Value) →
      Machine → Machine → Prop}
    (twin : Twin pairs left right) (trace : right.trace = left.trace)
    (sites : TwinSite pairs site site') (output : left.output = said)
    (next : ∀ id type type' entries entries', type.Twin pairs type' →
      TwinEntries pairs entries entries' → done (id, type, entries) (id, type', entries') left right) :
    Abreast said (literal site code) (literal site' code) left right done := by
  simp only [literal, structOperand]
  refine abreast_bind ?_
  rw [abreast_get_bind]
  have types : Option.Rel (StructType.Twin pairs)
      ((if code.a < 0 then none else some code.a.toNat).bind left.registry.struct?)
      ((if code.a < 0 then none else some code.a.toNat).bind right.registry.struct?) := by
    split
    · exact .none
    · exact twin.registry.struct? _
  generalize (if code.a < 0 then none else some code.a.toNat).bind left.registry.struct? = one at types
  generalize (if code.a < 0 then none else some code.a.toNat).bind right.registry.struct? = other
    at types
  cases types with
  | none => exact abreast_fail trace output (twin.output.trans output)
  | some same =>
    refine abreast_pure.mpr (abreast_bind (abreast_operand (abreast_bind ?_)))
    rw [sites.prototype.layouts]
    refine abreast_given fun layout layout' isLayout isLayout' => ?_
    cases isLayout.symm.trans isLayout'
    rw [abreast_get_bind, twin.stack.size]
    refine abreast_ite Iff.rfl (fun _ _ => abreast_goWrong_bind) fun _ _ => abreast_pure.mpr ?_
    exact next _ _ _ _ _ same (.zip layout (twin.stack.extract _ _).toList)

theorem lands_makeStackStruct (twin : Twin pairs left right) (trace : right.trace = left.trace)
    (sites : TwinSite pairs site site') (output : left.output = said) :
    Lands said (makeStackStruct site code) (makeStackStruct site' code) left right := by
  refine abreast_bind (abreast_literal twin trace sites output
    fun id type type' entries entries' types same => ?_)
  have blank : ∀ {machine : Machine} (type : StructType), Numbered machine.frames machine.nextNode →
      Spare machine.nextNode { machine with nextNode := machine.nextNode + 1 }
        (StackStruct.blank machine.nextNode id type.fields.length).ids := by
    intro machine type numbered
    rw [StackStruct.blank_ids]
    exact ⟨fun _ => List.count_le_length, by simp, by simp, numbered.below⟩
  have spare := blank type twin.numbered
  have spare' := blank type' twin.numbered'
  rw [twin.nextNode] at spare'
  have started : Twin pairs { left with nextNode := left.nextNode + 1 }
      { right with nextNode := left.nextNode + 1 } :=
    { twin with
      nextNode := rfl
      numbered := ⟨twin.numbered.unique, fun id member =>
        Nat.lt_succ_of_lt (twin.numbered.below id member)⟩
      numbered' := ⟨twin.numbered'.unique, fun id member =>
        Nat.lt_succ_of_lt (twin.nextNode ▸ twin.numbered'.below id member)⟩ }
  dsimp only
  rw [abreast_modifyGet_bind]
  dsimp only
  rw [twin.nextNode]
  rw [types.fields] at spare' ⊢
  refine abreast_bind (abreast_fillStruct same started spare spare' (matched_blank _ _ _)
    fun struct struct' left' right' goes spare spare' matched => ?_)
  refine abreast_bind (abreast_adopt goes.twin spare spare' matched (goes.said.trans output)
    fun left'' right'' goes' => ?_)
  rw [abreast_get_bind, goes'.twin.stack.size, same.length_eq, ← matched.twin.id_eq]
  refine abreast_bind (abreast_shrink goes'.twin _ fun cut => ?_)
  exact lands_push cut (.stack _) (goes'.said.trans (goes.said.trans output))

/-- The fields of a new instance are filled on both sides. -/
theorem abreast_fillRecord {entries entries' : List (Nat × Value)}
    {done : Unit → Unit → Machine → Machine → Prop} :
    ∀ {pairs : Pairing} {left right : Machine} {a b : ObjectId}, Twin pairs left right →
      TwinEntries pairs entries entries' → pairs a b → left.output = said →
      (∀ more left' right', Goes pairs left right more left' right' → more a b →
        done () () left' right') →
      Abreast said (fillRecord a entries) (fillRecord b entries') left right done := by
  induction entries generalizing entries' with
  | nil =>
    intro pairs left right a b twin same paired output next
    cases same
    exact abreast_pure.mpr (next pairs left right twin.goes paired)
  | cons entry rest ih =>
    intro pairs left right a b twin same paired output next
    obtain _ | ⟨first, others⟩ := same
    simp only [fillRecord, first.1]
    refine abreast_bind (abreast_heapValue twin first.2 output
      fun more value value' heap heap' goes alike => ?_)
    refine abreast_bind (abreast_modifyHeap goes.twin
      (goes.twin.heap.setField (goes.larger _ _ paired) _ alike) fun _ _ stored => ?_)
    have filled := goes.trans stored
    refine ih filled.twin (others.imp fun _ _ same => ⟨same.1, same.2.mono filled.larger⟩)
      (filled.larger _ _ paired) output fun most left' right' goes' => ?_
    exact next most left' right' (filled.trans goes')

theorem lands_makeHeapStruct (twin : Twin pairs left right) (trace : right.trace = left.trace)
    (sites : TwinSite pairs site site') (output : left.output = said) :
    Lands said (makeHeapStruct site code) (makeHeapStruct site' code) left right := by
  refine abreast_bind (abreast_literal twin trace sites output
    fun id type type' entries entries' types same => ?_)
  simp only [Heap.newRecord, types.fields]
  refine abreast_bind (abreast_allocate twin (by simp) (by simp) (.record id (.replicate .nil _)) output
    fun more a b heap heap' goes paired _ _ => ?_)
  refine abreast_bind (abreast_fillRecord goes.twin
    (same.imp fun _ _ same => ⟨same.1, same.2.mono goes.larger⟩) paired output
    fun most left' right' filled joined => ?_)
  rw [abreast_get_bind, filled.twin.stack.size, same.length_eq]
  refine abreast_bind (abreast_shrink filled.twin _ fun cut => ?_)
  exact lands_push cut (.ref joined) (filled.said.trans output)

theorem lands_copyTop (twin : Twin pairs left right) (output : left.output = said) :
    Lands said copyTop copyTop left right := by
  refine abreast_bind (abreast_peek twin 0 fun value value' same _ _ => ?_)
  have skip : Lands said (pure ()) (pure ()) left right :=
    abreast_pure.mpr (onward_landed.silently twin output)
  cases same with
  | stack node =>
    refine abreast_bind (abreast_struct twin node fun struct struct' alike => ?_)
    refine abreast_bind (abreast_copyInto twin alike output fun copy _ _ goes => ?_)
    exact lands_setTop goes.twin (.stack copy) (goes.said.trans output)
  | nil => exact skip
  | bool => exact skip
  | number => exact skip
  | ref => exact skip

end Literals

section Executing

/-- What an instruction calls and with how many arguments, if it calls the value of a slot or of a
field. -/
def called? (machine : Machine) (site : Site) (code : Instruction) : Option (Nat × Value) :=
  match code.op with
  | .call => (machine.stack[machine.stack.size - 1 - code.a.toNat]?).map (code.a.toNat, ·)
  | .invoke => do
    let key ← (← site.prototype.constant? code.a).object?
    let name ← machine.heap.string? key
    let receiver ← machine.stack[machine.stack.size - 1 - code.b.toNat]?
    return (code.b.toNat, ← machine.fieldCalled? receiver name)
  | _ => none

/-- Whether an instruction calls a native function that observes the heap or the time. -/
def observing (machine : Machine) (site : Site) (code : Instruction) : Bool :=
  (machine.called? site code).any fun (argCount, callee) => machine.observes argCount callee

theorem marches_execute (beside : Alongside pairs live live' left right) (sites : TwinSite pairs site site')
    (output : left.output = said) (quiet : left.observing site code = false) :
    Marches said (execute site code) (execute site' code) left right := by
  have twin := beside.twin
  have trace := beside.trace
  have output' := twin.output.trans output
  unfold Marches execute
  cases isOp : code.op with
  | constant =>
    refine abreast_bind (abreast_given fun _ _ here there => ?_)
    exact marches_of_lands (lands_push twin (sites.prototype.constant? _ here there) output)
  | nil => exact marches_of_lands (lands_push twin .nil output)
  | true => exact marches_of_lands (lands_push twin (.bool _) output)
  | false => exact marches_of_lands (lands_push twin (.bool _) output)
  | pop =>
    refine abreast_bind (abreast_pop twin fun _ _ _ _ _ popped => ?_)
    exact abreast_pure.mpr ⟨rfl, onward_landed.silently popped output⟩
  | getLocal =>
    refine abreast_bind (abreast_operand ?_)
    rw [sites.frame.base]
    refine abreast_bind (abreast_slot twin _ fun _ _ same _ _ => ?_)
    exact marches_of_lands (lands_push twin same output)
  | setLocal =>
    refine abreast_bind (abreast_operand ?_)
    rw [sites.frame.base]
    refine abreast_bind (abreast_peek twin 0 fun _ _ same _ _ => ?_)
    refine abreast_bind (abreast_setSlot twin _ same fun stored => ?_)
    exact abreast_pure.mpr ⟨rfl, onward_landed.silently stored output⟩
  | getGlobal => exact marches_of_lands (lands_getGlobal _ beside sites output)
  | defineGlobal => exact marches_of_lands (lands_defineGlobal _ beside sites output)
  | setGlobal => exact marches_of_lands (lands_setGlobal _ beside sites output)
  | getUpvalue => exact marches_of_lands (lands_getUpvalue _ twin sites output)
  | setUpvalue => exact marches_of_lands (lands_setUpvalue _ twin sites output)
  | getProperty => exact marches_of_lands (lands_getProperty _ beside sites output)
  | setProperty => exact marches_of_lands (lands_setProperty _ beside sites output)
  | equal => exact marches_of_lands (lands_equal beside output)
  | greater => exact marches_of_lands (lands_binary _ beside (fun _ _ => .bool _) output)
  | less => exact marches_of_lands (lands_binary _ beside (fun _ _ => .bool _) output)
  | add => exact marches_of_lands (lands_binary _ beside (fun _ _ => .number _) output)
  | subtract => exact marches_of_lands (lands_binary _ beside (fun _ _ => .number _) output)
  | multiply => exact marches_of_lands (lands_binary _ beside (fun _ _ => .number _) output)
  | divide => exact marches_of_lands (lands_binary _ beside (fun _ _ => .number _) output)
  | not =>
    refine abreast_bind (abreast_peek twin 0 fun _ _ same _ _ => ?_)
    rw [same.isFalsey]
    exact marches_of_lands (lands_setTop twin (.bool _) output)
  | negate => exact marches_of_lands (lands_negate beside output)
  | print => exact marches_of_lands (lands_print beside output)
  | jump => exact marches_of_lands (lands_jumpTo _ twin output)
  | jumpIfFalse =>
    refine abreast_bind (abreast_peek twin 0 fun _ _ same _ _ => ?_)
    refine abreast_ite (by rw [same.isFalsey]) (fun _ _ => ?_) fun _ _ => ?_
    · exact marches_of_lands (lands_jumpTo _ twin output)
    · exact abreast_pure.mpr ⟨rfl, onward_landed.silently twin output⟩
  | jumpIfTrue =>
    refine abreast_bind (abreast_peek twin 0 fun _ _ same _ _ => ?_)
    refine abreast_ite (by rw [same.isFalsey]) (fun _ _ => ?_) fun _ _ => ?_
    · exact marches_of_lands (lands_jumpTo _ twin output)
    · exact abreast_pure.mpr ⟨rfl, onward_landed.silently twin output⟩
  | call =>
    refine abreast_bind (abreast_operand ?_)
    refine abreast_bind (abreast_peek twin _ fun callee callee' same here there => ?_)
    refine marches_of_lands (abreast_callValue beside output same
      (beside.grounded.present (beside.grounded.stack here))
      (beside.grounded'.present (beside.grounded'.stack there)) ?_ onward_landed)
    simpa [observing, called?, isOp, here] using quiet
  | invoke =>
    refine abreast_bind (abreast_nameOperand twin sites fun a b name isConstant _ isName _ => ?_)
    refine abreast_bind (abreast_operand ?_)
    refine marches_of_lands (abreast_invoke beside output (fun receiver callee here isField => ?_)
      onward_landed)
    simpa [observing, called?, isOp, isConstant, Value.object?, isName, here, isField] using quiet
  | closure => exact marches_of_lands (lands_makeClosure _ twin sites output)
  | closeUpvalue =>
    rw [abreast_get_bind, twin.stack.size]
    refine abreast_bind (abreast_closeCells twin output fun _ _ _ goes => ?_)
    refine abreast_bind (abreast_pop goes.twin fun _ _ _ _ _ popped => ?_)
    exact abreast_pure.mpr ⟨rfl, onward_landed.silently popped (goes.said.trans output)⟩
  | «return» => exact marches_finishCall twin sites output
  | stackStruct => exact marches_of_lands (lands_makeStackStruct twin trace sites output)
  | heapStruct => exact marches_of_lands (lands_makeHeapStruct twin trace sites output)
  | promote =>
    refine abreast_bind (abreast_peek twin 0 fun _ _ same _ _ => ?_)
    refine abreast_bind (abreast_heapValue twin same output fun _ _ _ _ _ goes alike => ?_)
    exact marches_of_lands (lands_setTop goes.twin alike output)
  | copyStruct => exact marches_of_lands (lands_copyTop twin output)
  | unknown => exact abreast_pure.mpr ⟨rfl, onward_landed.silently twin output⟩

end Executing

end ScriptMachine.Machine
