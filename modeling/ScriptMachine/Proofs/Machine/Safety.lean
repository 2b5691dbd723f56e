import ScriptMachine.Machine
import ScriptMachine.Proofs.Machine.Literals

set_option autoImplicit false

/- Well-formed code never goes wrong. The state of a running machine is sound when its data are in
order and every frame stands at an instruction of its code, at the height that the code has there;
an instruction takes a sound state to a sound state, ends the script, or stops with a fault. -/
namespace ScriptMachine.Machine

/-- A call that is about to execute an instruction, with `top` slots on the stack when it is its
turn. The captured slots that belong to it, which are below `ceiling`, are captured on every path
to that instruction. -/
structure Stands (program : Program) (captured : List Nat) (ceiling top : Nat) (call : Call) :
    Prop where
  balanced : call.body.Balanced program.heap program.registry call.height
  inside : call.ip < call.body.code.size
  level : call.base + call.height call.ip = top
  below : call.base ≤ ceiling
  captured : ∀ slot ∈ captured, call.base ≤ slot → slot < ceiling →
    call.body.CapturedAt program.heap call.height (slot - call.base) call.ip

/-- The active calls, innermost first. A call that waits for another one goes on with one value in
place of the callee and its arguments. -/
inductive Stacked (program : Program) (captured : List Nat) : List Call → Nat → Nat → Prop where
  | script {call : Call} {ceiling top : Nat} : call.base = 0 →
      Stands program captured ceiling top call → Stacked program captured [call] ceiling top
  | nested {call caller : Call} {calls : List Call} {ceiling top : Nat} :
      Stands program captured ceiling top call →
      Stacked program captured (caller :: calls) call.base (call.base + 1) →
      Stacked program captured (call :: caller :: calls) ceiling top

/-- A machine between two instructions. -/
def Sound (program : Program) (machine : Machine) : Prop :=
  ∃ live shape, Data program live [] shape machine ∧
    Stacked program shape.captured shape.calls shape.height shape.height

/-- A machine that executes nothing. -/
def Rested (program : Program) (machine : Machine) : Prop :=
  Leaves program { calls := [], captured := [], height := 0 } machine

section Stack

variable {program : Program} {captured captured' : List Nat} {call : Call} {calls : List Call}
  {ceiling top : Nat}

theorem Stacked.stands (stacked : Stacked program captured (call :: calls) ceiling top) :
    Stands program captured ceiling top call := by
  cases stacked with
  | script _ stands => exact stands
  | nested stands _ => exact stands

theorem Stacked.bases (stacked : Stacked program captured (call :: calls) ceiling top) :
    ∀ other ∈ call :: calls, other.base ≤ call.base := by
  generalize isCalls : call :: calls = all at stacked
  induction stacked generalizing call calls with
  | script _ _ =>
    cases isCalls
    simp
  | nested _ waiting ih =>
    cases isCalls
    intro other member
    rcases List.mem_cons.mp member with same | later
    · exact Nat.le_of_eq (by rw [same])
    · exact Nat.le_trans (ih rfl other later) waiting.stands.below

theorem Stacked.bottom {all : List Call} (stacked : Stacked program captured all ceiling top) :
    ∃ call ∈ all, call.base = 0 := by
  induction stacked with
  | script isZero _ => exact ⟨_, List.mem_cons_self, isZero⟩
  | nested _ _ ih =>
    obtain ⟨call, member, isZero⟩ := ih
    exact ⟨call, List.mem_cons_of_mem _ member, isZero⟩

/-- Only the captured slots below the ceiling matter. -/
theorem Stacked.transfer {all : List Call} (stacked : Stacked program captured all ceiling top)
    {ceiling' : Nat} (higher : ceiling ≤ ceiling')
    (fewer : ∀ slot ∈ captured', slot < ceiling' → slot ∈ captured ∧ slot < ceiling) :
    Stacked program captured' all ceiling' top := by
  induction stacked generalizing ceiling' with
  | script isZero stands =>
    exact .script isZero { stands with
      below := Nat.le_trans stands.below higher
      captured := fun slot member above below =>
        stands.captured slot (fewer slot member below).1 above (fewer slot member below).2 }
  | @nested call _ _ ceiling _ stands _ ih =>
    refine .nested { stands with
      below := Nat.le_trans stands.below higher
      captured := fun slot member above below =>
        stands.captured slot (fewer slot member below).1 above (fewer slot member below).2 } ?_
    refine ih (Nat.le_refl _) fun slot member below => ?_
    exact ⟨(fewer slot member (Nat.lt_of_lt_of_le below (Nat.le_trans stands.below higher))).1, below⟩

end Stack

section Arrival

variable {program : Program} {captured : List Nat} {call : Call} {calls : List Call}
  {code : Instruction} {height : Nat}

/-- Where the code of a call says that control goes on, and what is on the stack then. -/
structure Arrives (call : Call) (code : Instruction) (height next height' : Nat) : Prop where
  here : call.body.code[call.ip]? = some code
  edge : call.body.Edge call.ip next
  drops : (call.body.effect code).drops ≤ height
  level : height' = height - (call.body.effect code).drops + (call.body.effect code).adds

theorem Stacked.needs (stacked : Stacked program captured (call :: calls) height height)
    (here : call.body.code[call.ip]? = some code) :
    call.base + (call.body.effect code).needs ≤ height := by
  have stands := stacked.stands
  have enough := stands.balanced.enough here
  have level := stands.level
  omega

/-- The slots that an instruction drops are not captured, unless it closes their cells. -/
theorem Stacked.clear (stacked : Stacked program captured (call :: calls) height height)
    (here : call.body.code[call.ip]? = some code) (below : ∀ slot ∈ captured, slot < height)
    (notClose : code.op ≠ .closeUpvalue) (notReturn : code.op ≠ .return) :
    ∀ slot ∈ captured, slot < height - (call.body.effect code).drops := by
  intro slot member
  have stands := stacked.stands
  have needs := stacked.needs here
  have fewer := Prototype.effect_drops_le call.body code
  by_cases above : call.base ≤ slot
  · have captured := stands.captured slot member above (below slot member)
    have kept := stands.balanced.closed captured here notClose notReturn
    have level := stands.level
    omega
  · omega

/-- An instruction leads to the next one with the captured slots that it leaves or makes. -/
theorem Stacked.arrive (stacked : Stacked program captured (call :: calls) height height)
    {captured' : List Nat} {next height' ceiling : Nat} (arrives : Arrives call code height next height')
    (ceilingAbove : call.base ≤ ceiling)
    (origin : ∀ slot ∈ captured',
      (slot ∈ captured ∧ slot < height - (call.body.effect code).drops ∧ slot < height) ∨
      (call.base ≤ slot ∧
        call.body.CapturedAt program.heap call.height (slot - call.base) next)) :
    Stacked program captured' ({ call with ip := next } :: calls) ceiling height' := by
  have stands := stacked.stands
  have needs := stacked.needs arrives.here
  have fewer := Prototype.effect_drops_le call.body code
  have agrees := stands.balanced.agrees arrives.here arrives.edge
  have level := stands.level
  have arrived : Stands program captured' ceiling height' { call with ip := next } := by
    refine ⟨stands.balanced, stands.balanced.inside arrives.edge, ?_, ceilingAbove, ?_⟩
    · change call.base + call.height next = height'
      rw [arrives.level]
      omega
    · intro slot member above _
      rcases origin slot member with ⟨old, kept, inside⟩ | ⟨_, made⟩
      · have before := stands.captured slot old above inside
        refine .kept before arrives.here ?_ arrives.edge
        change call.base ≤ slot at above
        change slot - call.base < call.height call.ip - (call.body.effect code).drops
        omega
      · exact made
  cases stacked with
  | script isZero _ => exact .script isZero arrived
  | nested _ waiting =>
    refine .nested arrived (waiting.transfer (Nat.le_refl _) fun slot member below => ⟨?_, below⟩)
    rcases origin slot member with ⟨old, _, _⟩ | ⟨above, _⟩
    · exact old
    · change slot < call.base at below
      omega

end Arrival

section Execution

variable {program : Program} {live : ObjectId → Prop} {captured : List Nat} {height : Nat}
  {call : Call} {calls : List Call} {site : Site} {op : Opcode} {a b : Int} {machine : Machine}

/-- What a machine is like after an instruction. -/
def Steps (program : Program) : Progress → Machine → Prop
  | .running => Sound program
  | .finished => Rested program

/-- An instruction that has its announced effect and goes on along an edge of the code. -/
theorem Stacked.follow {after : Machine} {next : Nat}
    (stacked : Stacked program captured (call :: calls) height height)
    (here : call.body.code[call.ip]? = some ⟨op, a, b⟩) (below : ∀ slot ∈ captured, slot < height)
    (edge : call.body.Edge call.ip next) (notClose : op ≠ .closeUpvalue) (notReturn : op ≠ .return)
    (leaves : Leaves program
      { calls := { call with ip := next } :: calls
        captured
        height := height - (call.body.effect ⟨op, a, b⟩).drops + (call.body.effect ⟨op, a, b⟩).adds }
      after) :
    Steps program .running after := by
  obtain ⟨live, data⟩ := leaves
  have needs := stacked.needs here
  have fewer := Prototype.effect_drops_le call.body ⟨op, a, b⟩
  refine ⟨live, _, data, stacked.arrive ⟨here, edge, by omega, rfl⟩ (by dsimp only; omega) ?_⟩
  intro slot member
  exact Or.inl ⟨member, stacked.clear here below notClose notReturn slot member, below slot member⟩

theorem Stacked.proceed
    (stacked : Stacked program captured (call :: calls) height height)
    (here : call.body.code[call.ip]? = some ⟨op, a, b⟩) (below : ∀ slot ∈ captured, slot < height)
    (stays : op.leaves = false) (notClose : op ≠ .closeUpvalue) (after : Machine)
    (leaves : Leaves program
      { calls := { call with ip := call.ip + 1 } :: calls
        captured
        height := height - (call.body.effect ⟨op, a, b⟩).drops + (call.body.effect ⟨op, a, b⟩).adds }
      after) :
    Steps program .running after := by
  refine stacked.follow here below (.next here stays) notClose ?_ leaves
  intro isReturn
  rw [isReturn] at stays
  cases stays

/-- A call leaves the caller waiting, or its result in place of the callee and its arguments. -/
theorem Stacked.called {argCount : Nat} {after : Machine}
    (stacked : Stacked program captured (call :: calls) height height)
    (here : call.body.code[call.ip]? = some ⟨op, a, b⟩) (below : ∀ slot ∈ captured, slot < height)
    (stays : op.leaves = false) (notClose : op ≠ .closeUpvalue)
    (effect : call.body.effect ⟨op, a, b⟩ = ⟨argCount + 1, argCount + 1, 1⟩)
    (isCalled : Called program
      { calls := { call with ip := call.ip + 1 } :: calls, captured, height } argCount after) :
    Steps program .running after := by
  have needs := stacked.needs here
  have notReturn : op ≠ .return := by
    intro isReturn
    rw [isReturn] at stays
    cases stays
  have clear := stacked.clear here below notClose notReturn
  rw [effect] at needs clear
  rcases isCalled with ⟨callee, entered, left⟩ | left
  · obtain ⟨live, data⟩ := left
    have base := entered.base
    dsimp only at base needs
    refine ⟨live, _, data, .nested ⟨entered.balanced, ?_, ?_, ?_, ?_⟩ ?_⟩
    · rw [entered.ip]
      exact entered.nonempty
    · rw [entered.ip, entered.balanced.start, entered.arity]
      dsimp only
      omega
    · dsimp only
      omega
    · intro slot member above
      have := clear slot member
      dsimp only at this
      omega
    · refine stacked.arrive ⟨here, .next here stays, by rw [effect]; dsimp only; omega, ?_⟩
        (by omega) fun slot member => Or.inl ⟨member, ?_, below slot member⟩
      · rw [effect]
        dsimp only
        omega
      · rw [effect]
        exact clear slot member
  · refine stacked.proceed here below stays notClose after ?_
    rw [effect]
    have total : height - (argCount + 1) + 1 = height - argCount := by
      dsimp only at needs
      omega
    simpa only [total] using left

/-- The innermost frame goes on at another instruction. -/
theorem Data.goTo (data : Data program live [] { calls := call :: calls, captured, height } machine)
    (position : Nat) :
    Data program live [] { calls := { call with ip := position } :: calls, captured, height }
      { machine with frames := machine.frames.modify 0 fun frame => { frame with ip := position } } := by
  obtain ⟨frame, rest, first, others, split⟩ := List.forall₂_cons_right_iff.mp data.calls
  have ids : nodeIds (machine.frames.modify 0 fun frame => { frame with ip := position })
      = nodeIds machine.frames := nodeIds_modify fun _ => rfl
  have structs : arenas (machine.frames.modify 0 fun frame => { frame with ip := position })
      = arenas machine.frames := arenas_modify fun _ => rfl
  refine { data with
    calls := ?_
    values := ?_
    fitting := by rw [structs]; exact data.fitting
    unique := by rw [ids]; exact data.unique
    numbered := by rw [ids]; exact data.numbered }
  · simp only [split, List.modify_zero_cons]
    exact .cons ⟨first.live, first.body, first.base, rfl⟩ others
  · intro index value here
    have before := data.values here
    cases value with
    | nil | bool _ | number _ | ref _ => exact before
    | stack node =>
      obtain ⟨struct, owned, fits⟩ := before
      exact ⟨struct, owned.modify fun _ => ⟨rfl, rfl⟩, fits⟩

theorem safe_jumpTo {target : Int} {done : Unit → Machine → Prop}
    (data : Data program live []
      { calls := { call with ip := call.ip + 1 } :: calls, captured, height } machine)
    (valid : 0 ≤ target)
    (next : ∀ after, Leaves program
        { calls := { call with ip := target.toNat } :: calls, captured, height } after →
      done () after) :
    Safe program (jumpTo target) machine done := by
  simp only [jumpTo, safe_bind, safe_modifyFrame]
  exact safe_operand valid (next _ ⟨live, data.goTo target.toNat⟩)

theorem call_of_frame {heap : Heap} {frames : List Frame} {all : List Call}
    (runs : List.Forall₂ (Runs live heap) frames all) :
    ∀ frame ∈ frames, ∃ call ∈ all, Runs live heap frame call := by
  induction runs with
  | nil => simp
  | cons first _ ih =>
    intro frame member
    rcases List.mem_cons.mp member with isFirst | later
    · exact ⟨_, List.mem_cons_self, isFirst ▸ first⟩
    · obtain ⟨call, inRest, same⟩ := ih frame later
      exact ⟨call, List.mem_cons_of_mem _ inRest, same⟩

theorem frame_of_call {heap : Heap} {frames : List Frame} {all : List Call}
    (runs : List.Forall₂ (Runs live heap) frames all) :
    ∀ call ∈ all, ∃ frame ∈ frames, Runs live heap frame call := by
  induction runs with
  | nil => simp
  | cons first _ ih =>
    intro call member
    rcases List.mem_cons.mp member with isFirst | later
    · exact ⟨_, List.mem_cons_self, isFirst ▸ first⟩
    · obtain ⟨frame, inRest, same⟩ := ih call later
      exact ⟨frame, List.mem_cons_of_mem _ inRest, same⟩

/-- One instruction of well-formed code. -/
theorem safe_execute
    (executing : Executing program live
      { calls := { call with ip := call.ip + 1 } :: calls, captured, height } machine site)
    (base : site.frame.base = call.base) (body : site.prototype = call.body)
    (stacked : Stacked program captured (call :: calls) height height)
    (here : call.body.code[call.ip]? = some ⟨op, a, b⟩) :
    Safe program (execute site ⟨op, a, b⟩) machine (Steps program) := by
  have data := executing.data
  have below : ∀ slot ∈ captured, slot < height := by
    intro slot member
    have isOpen : slot ∈ machine.openCells.map Prod.fst := by rw [data.captured]; exact member
    obtain ⟨entry, inCells, rfl⟩ := List.mem_map.mp isOpen
    exact (data.cells inCells).1
  have needs := stacked.needs here
  have operands := stacked.stands.balanced.operands here
  have level : call.height call.ip = height - call.base := by
    have := stacked.stands.level
    omega
  rw [level] at operands
  have clear := stacked.clear here below
  -- what an instruction with no jump, call or closing of cells comes to
  have proceed := stacked.proceed here below
  cases op with
  | constant =>
    obtain ⟨value, isConstant⟩ := Option.isSome_iff_exists.mp operands
    rw [← body] at isConstant
    simp only [execute, safe_bind, isConstant, safe_given, safe_pure]
    exact safe_push data (Kept.holds (executing.constant isConstant)) fun pushed =>
      proceed rfl (by decide) _ ⟨live, pushed⟩
  | nil | true | false =>
    simp only [execute, safe_bind, safe_pure]
    exact safe_push data trivial fun pushed => proceed rfl (by decide) _ ⟨live, pushed⟩
  | pop =>
    simp only [execute, safe_bind, safe_pure]
    exact safe_pop data (by simp only [Prototype.effect] at needs; dsimp only; omega)
      (clear (by simp) (by simp)) fun _ _ popped => proceed rfl (by decide) _ ⟨live, popped⟩
  | getLocal =>
    obtain ⟨valid, inside⟩ := operands
    dsimp only at valid inside
    simp only [execute, safe_bind, safe_pure]
    refine safe_operand valid ?_
    have bound : site.frame.base + a.toNat < height := by omega
    refine safe_slot data bound fun value found => ?_
    exact safe_push data ((data.values found).mono (Nat.le_of_lt bound)) fun pushed =>
      proceed rfl (by decide) _ ⟨live, pushed⟩
  | setLocal =>
    obtain ⟨valid, inside⟩ := operands
    dsimp only at valid inside
    simp only [Prototype.effect] at needs
    simp only [execute, safe_bind, safe_pure]
    refine safe_operand valid ?_
    refine safe_peek data (by dsimp only; omega) fun value found => ?_
    have holds : Holds program live machine.frames (site.frame.base + a.toNat) value :=
      (data.values found).lower fun frame member => Nat.le_trans (executing.bases frame member) (Nat.le_add_right _ _)
    exact safe_setSlot data (by dsimp only; omega) holds fun data' =>
      proceed rfl (by decide) _ ⟨live, data'⟩
  | getGlobal =>
    simp only [execute, safe_bind, safe_pure]
    exact safe_getGlobal executing (body ▸ operands) (proceed rfl (by decide))
  | defineGlobal =>
    simp only [Prototype.effect] at needs
    simp only [execute, safe_bind, safe_pure]
    exact safe_defineGlobal executing (body ▸ operands) (by dsimp only; omega) (clear (by simp) (by simp))
      (proceed rfl (by decide))
  | setGlobal =>
    simp only [Prototype.effect] at needs
    simp only [execute, safe_bind, safe_pure]
    exact safe_setGlobal executing (body ▸ operands) (by dsimp only; omega) (proceed rfl (by decide))
  | getUpvalue =>
    simp only [execute, safe_bind, safe_pure]
    exact safe_getUpvalue executing operands.1 (body ▸ operands.2) (proceed rfl (by decide))
  | setUpvalue =>
    simp only [Prototype.effect] at needs
    simp only [execute, safe_bind, safe_pure]
    exact safe_setUpvalue executing operands.1 (body ▸ operands.2) (by dsimp only; omega)
      (proceed rfl (by decide))
  | getProperty =>
    simp only [Prototype.effect] at needs
    simp only [execute, safe_bind, safe_pure]
    exact safe_getProperty executing (body ▸ operands) (by dsimp only; omega) (proceed rfl (by decide))
  | setProperty =>
    simp only [Prototype.effect] at needs
    simp only [execute, safe_bind, safe_pure]
    exact safe_setProperty executing (body ▸ operands) (by dsimp only; omega) (clear (by simp) (by simp))
      (proceed rfl (by decide))
  | equal =>
    simp only [Prototype.effect] at needs
    simp only [execute, safe_bind, safe_pure]
    exact safe_equal data (by dsimp only; omega) (clear (by simp) (by simp)) (proceed rfl (by decide))
  | greater | less | add | subtract | multiply | divide =>
    simp only [Prototype.effect] at needs
    simp only [execute, safe_bind, safe_pure]
    exact safe_binary data (by dsimp only; omega) (clear (by simp) (by simp)) (fun _ _ => trivial)
      (proceed rfl (by decide))
  | not =>
    simp only [Prototype.effect] at needs
    simp only [execute, safe_bind, safe_pure]
    refine safe_peek data (by dsimp only; omega) fun value _ => ?_
    exact safe_setTop data (by dsimp only; omega) trivial fun data' =>
      proceed rfl (by decide) _ ⟨live, data'⟩
  | negate =>
    simp only [Prototype.effect] at needs
    simp only [execute, safe_bind, safe_pure]
    exact safe_negate data (by dsimp only; omega) (proceed rfl (by decide))
  | print =>
    simp only [Prototype.effect] at needs
    simp only [execute, safe_bind, safe_pure]
    exact safe_print data (by dsimp only; omega) (clear (by simp) (by simp)) (proceed rfl (by decide))
  | jump =>
    simp only [execute, safe_bind, safe_pure]
    exact safe_jumpTo data operands fun after left =>
      stacked.follow here below (.jump here rfl) (by simp) (by simp) left
  | jumpIfFalse | jumpIfTrue =>
    simp only [Prototype.effect] at needs
    simp only [execute, safe_bind]
    refine safe_peek data (by dsimp only; omega) fun value _ => ?_
    split
    · simp only [safe_bind, safe_pure]
      exact safe_jumpTo data operands fun after left =>
        stacked.follow here below (.jump here rfl) (by simp) (by simp) left
    · exact proceed rfl (by decide) _ ⟨live, data⟩
  | call =>
    simp only [Prototype.effect] at needs
    simp only [execute, safe_bind, safe_pure]
    refine safe_operand operands ?_
    refine safe_peek data (by dsimp only; omega) fun callee found => ?_
    refine safe_callValue data (data.values found) (by dsimp only; omega) ?_ ?_ fun after called =>
      stacked.called here below rfl (by decide) rfl called
    · exact clear (by simp) (by simp)
    · intro frame member
      have := executing.bases frame member
      dsimp only
      omega
  | invoke =>
    simp only [Prototype.effect] at needs
    simp only [execute, safe_bind, safe_pure]
    refine safe_nameOperand executing (body ▸ operands.1) fun _ name _ => ?_
    refine safe_operand operands.2 ?_
    refine safe_invoke data (by dsimp only; omega) ?_ ?_ fun after called =>
      stacked.called here below rfl (by decide) rfl called
    · exact clear (by simp) (by simp)
    · intro frame member
      have := executing.bases frame member
      dsimp only
      omega
  | closure =>
    obtain ⟨made, makes, captures⟩ := operands
    rw [← base, ← body] at captures
    simp only [execute, safe_bind, safe_pure]
    refine safe_makeClosure executing (body ▸ makes) captures ?_
    rintro after captured' ⟨live', data'⟩ members
    refine ⟨live', _, data', stacked.arrive ⟨here, .next here rfl, Nat.zero_le _, rfl⟩
      (by dsimp only; omega) fun slot member => ?_⟩
    rcases (members slot).mp member with old | ⟨capture, inCaptures, isLocal, isSlot⟩
    · exact Or.inl ⟨old, clear (by simp) (by simp) slot old, below slot old⟩
    · rw [base] at isSlot
      refine Or.inr ⟨by omega, ?_⟩
      have isIndex : slot - call.base = capture.index := by omega
      rw [isIndex]
      exact .made here rfl makes (by simpa using inCaptures) isLocal (.next here rfl)
  | closeUpvalue =>
    simp only [Prototype.effect] at needs
    simp only [execute, safe_bind, safe_pure, safe_get, data.size]
    refine safe_closeCells data fun live' after captured' data' _ _ members => ?_
    refine safe_pop data' (by dsimp only; omega) (fun slot member => ((members slot).mp member).2) ?_
    intro _ _ popped
    refine ⟨live', _, popped, stacked.arrive ⟨here, .next here rfl, ?_, rfl⟩
      (by dsimp only; omega) fun slot member => ?_⟩
    · simp only [Prototype.effect]
      omega
    · obtain ⟨old, kept⟩ := (members slot).mp member
      exact Or.inl ⟨old, kept, below slot old⟩
  | «return» =>
    simp only [Prototype.effect] at needs
    simp only [execute]
    refine safe_finishCall executing (by dsimp only; omega) (fun after _ left => left) ?_ ?_ ?_
    · rintro after ended caller others captured' isCalls ⟨live', data'⟩ members
      cases isCalls
      cases stacked with
      | nested _ waiting =>
        refine ⟨live', _, data', waiting.transfer (Nat.le_succ _) fun slot member _ => ?_⟩
        exact (members slot).mp member
    · intro only isCalls
      cases isCalls
      cases stacked with
      | script isZero _ => exact isZero
    · intro ended caller others isCalls
      cases isCalls
      cases stacked with
      | nested _ waiting => exact waiting.stands.below
  | stackStruct =>
    obtain ⟨_, _, layout, _, isLayout, _⟩ := operands
    have size : call.body.effect ⟨.stackStruct, a, b⟩ = ⟨layout.length, layout.length, 1⟩ := by
      simp only [Prototype.effect, isLayout, Option.map_some, Option.getD_some]
    simp only [execute, safe_bind, safe_pure]
    refine safe_makeStackStruct executing (body ▸ stacked.stands.balanced.operands here)
      (body ▸ isLayout) ?_ ?_ fun after left => proceed rfl (by decide) after ?_
    · rw [size] at needs
      dsimp only at needs ⊢
      omega
    · rw [size] at clear
      exact clear (by simp) (by simp)
    · rw [size]
      exact left
  | heapStruct =>
    obtain ⟨_, _, layout, _, isLayout, _⟩ := operands
    have size : call.body.effect ⟨.heapStruct, a, b⟩ = ⟨layout.length, layout.length, 1⟩ := by
      simp only [Prototype.effect, isLayout, Option.map_some, Option.getD_some]
    simp only [execute, safe_bind, safe_pure]
    refine safe_makeHeapStruct data (body ▸ stacked.stands.balanced.operands here)
      (body ▸ isLayout) ?_ ?_ fun after left => proceed rfl (by decide) after ?_
    · rw [size] at needs
      dsimp only at needs ⊢
      omega
    · rw [size] at clear
      exact clear (by simp) (by simp)
    · rw [size]
      exact left
  | promote =>
    simp only [Prototype.effect] at needs
    simp only [execute, safe_bind, safe_pure]
    refine safe_peek data (by dsimp only; omega) fun value found => ?_
    refine safe_heapValue data found fun live' heap value data' _ kept => ?_
    exact safe_setTop data' (by dsimp only; omega) (Kept.holds kept) fun data'' =>
      proceed rfl (by decide) _ ⟨live', data''⟩
  | copyStruct =>
    simp only [Prototype.effect] at needs
    simp only [execute, safe_bind, safe_pure]
    exact safe_copyTop executing (by dsimp only; omega) (proceed rfl (by decide))
  | unknown => exact proceed rfl (by decide) _ ⟨live, data⟩

/-- An instruction is fetched from the code of the innermost frame, which then stands behind it. -/
theorem fetch_eq (data : Data program live [] { calls := call :: calls, captured, height } machine)
    (stacked : Stacked program captured (call :: calls) height height) :
    ∃ site code after, fetch machine = .ok (site, code) after ∧
      call.body.code[call.ip]? = some code ∧ site.frame.base = call.base ∧
      site.prototype = call.body ∧
      Executing program live
        { calls := { call with ip := call.ip + 1 } :: calls, captured, height } after site := by
  obtain ⟨frame, rest, runs, others, frames⟩ := List.forall₂_cons_right_iff.mp data.calls
  have inside : call.ip < call.body.code.size := stacked.stands.inside
  have here := Array.getElem?_eq_getElem inside
  have advanced := data.goTo (call.ip + 1)
  simp only [frames, List.modify_zero_cons] at advanced
  refine ⟨⟨frame, call.body⟩, call.body.code[call.ip],
    { machine with frames := { frame with ip := call.ip + 1 } :: rest }, ?_, here, runs.base, rfl, ?_⟩
  · simp only [fetch, frames, runs.body, runs.ip, here]
  · refine ⟨advanced, ⟨_, rest, _, calls, rfl, rfl, ?_, rfl, runs.base, rfl⟩, ?_, ?_, ?_⟩
    · exact (List.forall₂_cons.mp advanced.calls).1
    · intro other member
      obtain ⟨otherCall, inCalls, same⟩ := call_of_frame advanced.calls other member
      change other.base ≤ frame.base
      rw [same.base, runs.base]
      rcases List.mem_cons.mp inCalls with isFirst | later
      · exact Nat.le_of_eq (by rw [isFirst])
      · exact stacked.bases otherCall (List.mem_cons_of_mem _ later)
    · obtain ⟨lowest, inCalls, isZero⟩ := stacked.bottom
      rcases List.mem_cons.mp inCalls with isFirst | later
      · exact ⟨_, List.mem_cons_self, by change frame.base = 0; rw [runs.base, ← isFirst, isZero]⟩
      · obtain ⟨other, inFrames, same⟩ := frame_of_call others lowest later
        exact ⟨other, List.mem_cons_of_mem _ inFrames, by rw [same.base, isZero]⟩
    · change frame.base ≤ height
      rw [runs.base]
      exact stacked.stands.below

theorem safe_step (sound : Sound program machine) :
    Safe program step machine (Steps program) := by
  obtain ⟨live, ⟨calls, captured, height⟩, data, stacked⟩ := sound
  cases calls with
  | nil => cases stacked
  | cons call calls =>
    obtain ⟨site, code, after, fetched, here, base, body, executing⟩ := fetch_eq data stacked
    have executed := safe_execute executing base body stacked here
    rw [step, safe_bind]
    simp only [Safe, fetched] at executed ⊢
    exact executed

end Execution

section Runs

variable {program : Program} {machine : Machine}

/-- What a run can come to: it has not ended yet and can go on, or the script has ended, or it has
stopped with a fault, which is not that of an unknown struct type. -/
structure Outcome.Sound (program : Program) (result : Outcome × Machine) : Prop where
  right : result.1 ≠ .wrong
  known : ∀ error, result.1 = .faulted error → ∀ id, error.fault ≠ .unknownStruct id
  rested : result.1 = .finished → Rested program result.2
  running : result.1 = .paused → Machine.Sound program result.2

theorem Outcome.Sound.faulted {error : RuntimeError}
    (known : ∀ id, error.fault ≠ .unknownStruct id) :
    Outcome.Sound program (.faulted error, machine) :=
  ⟨by simp, fun _ same => by cases same; exact known, by simp, by simp⟩

end Runs

section Start

/-- An object as the compiler and earlier scripts leave it. -/
def Loaded (heap : Heap) (registry : Registry) : Object → Prop
  | .string _ | .native _ => True
  | .function body =>
    body.WellFormed heap registry ∧ ∀ value ∈ body.constants, value.node? = none
  | .closure prototype upvalues =>
    (∃ body, heap.prototype? prototype = some body ∧ upvalues.size = body.captures.size) ∧
      ∀ upvalue ∈ upvalues, ∃ cell contents, upvalue = some cell ∧
        heap.get? cell = some (.cell contents)
  | .cell (.onStack _) => False
  | .cell (.closed value) => value.node? = none
  | .record type fields =>
    registry.Sized type fields.size ∧ ∀ value ∈ fields, value.node? = none

/-- A machine that can run a script: every object that the script or the machine can reach is there
and well formed. -/
structure Ready (machine : Machine) (script : ObjectId) : Prop where
  tidy : machine.heap.Tidy
  objects : ∀ {id : ObjectId}, Heap.Reaches machine.heap.objects (script :: machine.roots) id →
    ∃ object, machine.heap.get? id = some object ∧ Loaded machine.heap machine.registry object
  script : ∃ body, machine.heap.prototype? script = some body ∧ body.captures.size = 0
  methods : ∀ id ∈ machine.registry.roots, ∃ body, machine.heap.closurePrototype? id = some body
  globals : ∀ {name : ObjectId} {value : Value}, machine.globals[name]? = some value →
    value.node? = none

variable {machine : Machine} {script : ObjectId}

/-- The code of a machine that is ready. -/
def Ready.program (ready : Ready machine script) : Program :=
  ⟨machine.heap, machine.registry, ready.tidy⟩

theorem kept_of_node? {live : ObjectId → Prop} {value : Value} (plain : value.node? = none)
    (named : ∀ id, value = .ref id → live id) : value.Kept live := by
  cases value with
  | nil | bool _ | number _ => trivial
  | ref id => exact named id rfl
  | stack _ => cases plain

/-- An object that is reached is well formed as a live one, when all that is reached is live. -/
theorem Ready.sane (ready : Ready machine script) {id : ObjectId} {object : Object}
    (reached : Heap.Reaches machine.heap.objects (script :: machine.roots) id)
    (here : machine.heap.get? id = some object)
    (loaded : Loaded machine.heap machine.registry object) :
    Sane ready.program (Heap.Reaches machine.heap.objects (script :: machine.roots)) [] []
      machine.heap id object := by
  have next : ∀ other ∈ object.references,
      Heap.Reaches machine.heap.objects (script :: machine.roots) other :=
    fun other member => .next reached here member
  cases object with
  | string _ | native _ => trivial
  | function body =>
    refine ⟨here, loaded.1, fun name isName => next name ?_,
      fun value member => kept_of_node? (loaded.2 value member) fun other isRef => next other ?_⟩
    · exact List.mem_append_left _ (by simp [isName])
    · apply List.mem_append_right
      exact List.mem_filterMap.mpr ⟨value, by simpa using member, by simp [isRef, Value.object?]⟩
  | closure prototype upvalues =>
    refine ⟨next prototype List.mem_cons_self, loaded.1, fun upvalue member => ?_⟩
    obtain ⟨cell, contents, rfl, found⟩ := loaded.2 upvalue member
    exact ⟨next cell (List.mem_cons_of_mem _ (List.mem_filterMap.mpr
      ⟨some cell, by simpa using member, rfl⟩)), contents, found⟩
  | cell contents =>
    cases contents with
    | onStack slot => exact loaded.elim
    | closed value =>
      refine kept_of_node? loaded fun other isRef => next other ?_
      simp [Object.references, isRef, Value.object?]
  | record type fields =>
    refine ⟨loaded.1, fun value member => kept_of_node? (loaded.2 value member) ?_⟩
    intro other isRef
    apply next
    exact List.mem_filterMap.mpr ⟨value, by simpa using member, by simp [isRef, Value.object?]⟩

theorem Ready.data (ready : Ready machine.reset script) :
    Data ready.program (Heap.Reaches machine.reset.heap.objects (script :: machine.reset.roots)) []
      { calls := [], captured := [], height := 0 } machine.reset where
  stored :=
    { tidy := ready.tidy
      grown := Nat.le_refl _
      sane := fun reached => by
        obtain ⟨object, here, loaded⟩ := ready.objects reached
        exact ⟨object, here, ready.sane reached here loaded⟩
      fixed := fun here _ found => by
        change machine.reset.heap.get? _ = _ at here
        rw [here] at found
        exact (Option.some.inj found).symm }
  registry := rfl
  methods := by
    intro id member
    exact ⟨.root (List.mem_cons_of_mem _ (mem_roots_of_registry member)), ready.methods id member⟩
  held id member := .root (List.mem_cons_of_mem _ (mem_roots_of_held member))
  globals := by
    intro name value here
    refine ⟨.root (List.mem_cons_of_mem _ (mem_roots_of_globalName here)),
      kept_of_node? (ready.globals here) fun id isRef => .root (List.mem_cons_of_mem _ ?_)⟩
    exact mem_roots_of_global (isRef ▸ here)
  natives here :=
    ⟨.root (List.mem_cons_of_mem _ (mem_roots_of_nativeName here)),
      .root (List.mem_cons_of_mem _ (mem_roots_of_native here))⟩
  calls := .nil
  captured := rfl
  descending := .nil
  cells := by simp [reset]
  size := rfl
  values := by
    intro index value here
    simp [reset] at here
  fitting := by simp [arenas, reset]
  unique := fun id => by simp [nodeIds, arenas, reset, StackStruct.idsAmong]
  numbered := by simp [nodeIds, arenas, reset, StackStruct.idsAmong]

/-- The call of a live script that captures nothing. -/
theorem safe_enter {program : Program} {live : ObjectId → Prop} {body : Prototype}
    (data : Data program live [] { calls := [], captured := [], height := 0 } machine.reset)
    (isLive : live script) (present : machine.reset.heap.prototype? script = some body)
    (complete : body.captures.size = 0) :
    Safe program (enter script) machine fun _ after => Sound program after := by
  simp only [enter, safe_bind, safe_modify]
  refine safe_newClosure data present fun live heap data rooted same isNew => ?_
  have isLive : live script := rooted script List.mem_cons_self isLive
  have function : heap.prototype? script = some body := by
    unfold Heap.prototype? at present ⊢
    rw [(same script isLive).2]
    exact present
  have enlisted := data.enlist isNew ⟨isLive, ⟨body, function, Array.size_replicate⟩, by
    intro upvalue member
    rw [complete] at member
    simp at member⟩
  have isClosure : heap.closurePrototype? machine.reset.heap.nextId = some body := by
    simp only [Heap.closurePrototype?, isNew, function]
  refine safe_push enlisted (Or.inr rfl) fun pushed => ?_
  refine safe_callClosure pushed (Or.inr rfl) isClosure Nat.zero_lt_one ?_
  rintro after call entered ⟨live', data'⟩
  refine ⟨live', _, data', .script ?_ ⟨entered.balanced, ?_, ?_, ?_, by simp⟩⟩
  · have := entered.base
    dsimp only at this
    omega
  · rw [entered.ip]
    exact entered.nonempty
  · rw [entered.ip, entered.balanced.start, entered.arity]
    exact entered.base
  · have := entered.base
    dsimp only at this ⊢
    omega

end Start

end ScriptMachine.Machine
