import ScriptMachine.Proofs.Code.Settled

set_option autoImplicit false

/- Pieces of code that settle, from single instructions to loops. -/
namespace ScriptMachine.Prototype

section Steps

variable {setting : Setting} {known : List (Nat × Note)} {start height higher : Nat}
  {flags : List Bool} {instruction : Instruction}

/-- An instruction that neither jumps nor makes a closure, above all locals. -/
theorem settles_plain (plain : instruction.op.isJump = false) (other : instruction.op ≠ .closure)
    (called : instruction.op = .call ∨ instruction.op = .invoke → 0 < flags.length)
    (enough : (setting.body.effect instruction).needs ≤ height)
    (above : flags.length ≤ height - (setting.body.effect instruction).drops)
    (operands : setting.body.OperandsFit setting.heap setting.registry height instruction)
    (after : higher = height - (setting.body.effect instruction).drops
      + (setting.body.effect instruction).adds) :
    Settles setting known start [instruction] ⟨height, flags⟩ ⟨higher, flags⟩ := by
  apply settles_step plain
  · refine ⟨enough, operands, fun _ _ slot marked => Nat.lt_of_lt_of_le marked.lt above,
      fun isClosure => absurd isClosure other, fun isCall => ?_⟩
    have below := called isCall
    have same : (setting.body.effect instruction).needs
        = (setting.body.effect instruction).drops := by
      rcases isCall with isCall | isCall <;> simp [effect, isCall]
    dsimp only
    omega
  · exact ⟨after, fun slot marked _ => marked, fun isClosure => absurd isClosure other⟩

theorem flows_jump {target : Int} {op : Opcode} (isJump : op.isJump = true) :
    Flows setting ⟨op, target, 0⟩ ⟨height, flags⟩ ⟨height, flags⟩ := by
  refine ⟨?_, fun slot marked _ => marked, fun isClosure => ?_⟩
  · cases op <;> simp_all [Opcode.isJump, effect]
  · cases op <;> simp_all [Opcode.isJump]

/-- A jump leaves the stack as it is. A conditional one looks at the value on top. -/
theorem settles_jump {target : Nat} {op : Opcode} {exit : Note} (isJump : op.isJump = true)
    (enough : op = .jump ∨ 1 ≤ height) (above : flags.length ≤ height)
    (behind : op = .jump ∨ exit = ⟨height, flags⟩)
    (member : (target, (⟨height, flags⟩ : Note)) ∈ known) :
    Settles setting known start [⟨op, target, 0⟩] ⟨height, flags⟩ exit := by
  apply settles_one
  · refine ⟨?_, ?_, fun _ _ slot marked => ?_, fun isClosure => ?_, fun isCall => ?_⟩
    · cases op <;> simp_all [Opcode.isJump, effect]
    · cases op <;> simp_all [Opcode.isJump, OperandsFit]
    · have := marked.lt
      cases op <;> simp_all [Opcode.isJump, effect] <;> omega
    · cases op <;> simp_all [Opcode.isJump]
    · cases op <;> simp_all [Opcode.isJump]
  · intro stays
    rcases behind with isGoto | same
    · simp [isGoto, Opcode.leaves] at stays
    · rw [same]
      exact flows_jump isJump
  · intro _
    exact ⟨_, by simpa using member, flows_jump isJump⟩

end Steps

section Locals

variable {setting : Setting} {known : List (Nat × Note)} {start height : Nat} {flags : List Bool}

theorem makes_unique {heap : Heap} {body first second : Prototype} {index : Int}
    (one : body.Makes heap index first) (other : body.Makes heap index second) : first = second := by
  obtain ⟨id, here, found⟩ := one
  obtain ⟨id', here', found'⟩ := other
  cases here.symm.trans here'
  exact Option.some.inj (found.symm.trans found')

/-- A closure. The locals behind it may include the one that it becomes. -/
theorem settles_closure {constant : Int} (added : List Bool) {inner : Prototype}
    (makes : setting.body.Makes setting.heap constant inner)
    (captured : ∀ capture ∈ inner.captures,
      if capture.isLocal then Marked (added ++ flags) capture.index
      else capture.index < setting.body.captures.size)
    (sound : Sound setting.heap setting.registry inner)
    (above : flags.length ≤ height) (room : added.length ≤ 1)
    (fresh : added = [] ∨ height = flags.length) :
    Settles setting known start [⟨.closure, constant, 0⟩]
      ⟨height, flags⟩ ⟨height + 1, added ++ flags⟩ := by
  have captures : setting.body.Captures height inner := by
    intro capture member
    have captured := captured capture member
    split
    · next isLocal =>
      rw [if_pos isLocal] at captured
      have inside := captured.lt
      simp only [List.length_append] at inside
      rcases fresh with rfl | same
      · simp only [List.length_nil] at inside
        omega
      · omega
    · next isLocal =>
      rw [if_neg isLocal] at captured
      exact captured
  apply settles_step rfl
  · exact ⟨Nat.zero_le _, ⟨inner, makes, captures⟩,
      fun _ _ slot marked => Nat.lt_of_lt_of_le marked.lt above,
      fun _ other makes' => makes_unique makes makes' ▸ sound, by simp⟩
  · refine ⟨rfl, fun slot marked _ => ?_, fun _ other makes' capture member isLocal => ?_⟩
    · clear captured fresh room
      induction added with
      | nil => exact marked
      | cons newest added ih => exact ih.older
    · cases makes_unique makes makes'
      have captured := captured capture member
      rwa [if_pos isLocal] at captured

/-- The newest local is dropped. Unless it is known not to be captured, its cell is closed. -/
theorem settles_drop {setting : Setting} {op : Opcode} {newest : Bool} {older : List Bool}
    (kind : op = .closeUpvalue ∨ (op = .pop ∧ newest = false)) :
    Settles setting known start [⟨op, 0, 0⟩] ⟨older.length + 1, newest :: older⟩
      ⟨older.length, older⟩ := by
  have effects : setting.body.effect ⟨op, 0, 0⟩ = ⟨1, 1, 0⟩ := by
    rcases kind with rfl | ⟨rfl, _⟩ <;> rfl
  have other : op ≠ .closure := by
    rcases kind with rfl | ⟨rfl, _⟩ <;> simp
  apply settles_step
  · rcases kind with rfl | ⟨rfl, _⟩ <;> rfl
  · refine ⟨by rw [effects]; simp, ?_, fun notClose _ slot marked => ?_,
      fun isClosure => absurd isClosure other, fun isCall => ?_⟩
    · rcases kind with rfl | ⟨rfl, _⟩ <;> trivial
    · rcases kind with isClose | ⟨_, uncaptured⟩
      · exact absurd isClose notClose
      · have inside := marked.lt
        have apart : slot ≠ older.length := by
          rintro rfl
          rw [Marked, List.reverse_cons, List.getElem?_append_right (by simp)] at marked
          simp [uncaptured] at marked
        rw [effects]
        simp only [List.length_cons] at inside ⊢
        omega
    · rcases kind with rfl | ⟨rfl, _⟩ <;> simp at isCall
  · refine ⟨by rw [effects]; simp, fun slot marked below => ?_,
      fun isClosure => absurd isClosure other⟩
    apply Marked.of_older marked
    simpa [effects] using below

/-- What is emitted where a block ends: its locals are dropped, the newest first. -/
def leave (flags : List Bool) : List Instruction :=
  flags.map fun captured => ⟨if captured then .closeUpvalue else .pop, 0, 0⟩

/-- The end of a block drops its locals and nothing else. -/
theorem settles_leave {setting : Setting} (added flags : List Bool) :
    Settles setting known start (leave added) ⟨(added ++ flags).length, added ++ flags⟩
      ⟨flags.length, flags⟩ := by
  induction added generalizing start with
  | nil => exact settles_nil
  | cons newest added ih =>
    refine settles_cons (settles_drop ?_) ih
    cases newest <;> simp

end Locals

section Constructs

variable {setting : Setting} {start height : Nat} {flags : List Bool}

theorem settles_pop {known : List (Nat × Note)} (above : flags.length ≤ height) :
    Settles setting known start [⟨.pop, 0, 0⟩] ⟨height + 1, flags⟩ ⟨height, flags⟩ :=
  settles_plain rfl (by simp) (by simp) (by simp [effect]) (by simpa [effect] using above) trivial rfl

/-- `and` and `or`: the right operand is skipped when the left one decides. -/
theorem settles_skip {op : Opcode} (conditional : op = .jumpIfFalse ∨ op = .jumpIfTrue)
    (above : flags.length ≤ height) {second : List Instruction}
    (right : ∀ known, Settles setting known (start + 2) second ⟨height, flags⟩
      ⟨height + 1, flags⟩) (known : List (Nat × Note)) :
    Settles setting known start
      (⟨op, ↑(start + 2 + second.length), 0⟩ :: ⟨.pop, 0, 0⟩ :: second)
      ⟨height + 1, flags⟩ ⟨height + 1, flags⟩ := by
  have isJump : op.isJump = true := by
    rcases conditional with rfl | rfl <;> rfl
  refine settles_exit (?_ : start + 2 + second.length = _) ?_
  · simp only [List.length_cons]
    omega
  apply settles_cons
  · exact settles_jump isJump (Or.inr (by omega)) (by omega) (Or.inr rfl) List.mem_cons_self
  · exact settles_cons (settles_pop above) (right _)

/-- A conditional behind its condition, which is dropped on both ways. -/
theorem settles_choice (above : flags.length ≤ height) {yes no : List Instruction}
    (first : ∀ known, Settles setting known (start + 2) yes ⟨height, flags⟩ ⟨height, flags⟩)
    (second : ∀ known, Settles setting known (start + 2 + yes.length + 2) no
      ⟨height, flags⟩ ⟨height, flags⟩) (known : List (Nat × Note)) :
    Settles setting known start
      (⟨.jumpIfFalse, ↑(start + 2 + yes.length + 1), 0⟩ :: ⟨.pop, 0, 0⟩ ::
        (yes ++ ⟨.jump, ↑(start + 2 + yes.length + 2 + no.length), 0⟩ :: ⟨.pop, 0, 0⟩ :: no))
      ⟨height + 1, flags⟩ ⟨height, flags⟩ := by
  let skip : Instruction := ⟨.jumpIfFalse, ↑(start + 2 + yes.length + 1), 0⟩
  let leave : Instruction := ⟨.jump, ↑(start + 2 + yes.length + 2 + no.length), 0⟩
  have split : skip :: ⟨.pop, 0, 0⟩ :: (yes ++ leave :: ⟨.pop, 0, 0⟩ :: no)
      = (skip :: ⟨.pop, 0, 0⟩ :: (yes ++ [leave])) ++ ⟨.pop, 0, 0⟩ :: no := by simp
  rw [split]
  refine settles_exit (?_ : start + 2 + yes.length + 2 + no.length = _) ?_
  · simp only [List.length_append, List.length_cons, List.length_nil]
    omega
  -- the seam is where the second branch begins
  refine settles_seam ⟨height + 1, flags⟩ (?_ : start + 2 + yes.length + 1 = _) ?_ ?_
  · simp only [List.length_append, List.length_cons, List.length_nil]
    omega
  · apply settles_cons
    · exact settles_jump rfl (Or.inr (by omega)) (by omega) (Or.inr rfl) List.mem_cons_self
    · apply settles_cons (settles_pop above)
      apply (first _).append
      exact settles_jump rfl (Or.inl rfl) above (Or.inl rfl)
        (List.mem_cons_of_mem _ List.mem_cons_self)
  · exact settles_cons (settles_pop above) (second _)

theorem settles_while (above : flags.length ≤ height) {test inner : List Instruction}
    (condition : ∀ known, Settles setting known start test ⟨height, flags⟩ ⟨height + 1, flags⟩)
    (body : ∀ known, Settles setting known (start + test.length + 2) inner ⟨height, flags⟩
      ⟨height, flags⟩) (known : List (Nat × Note)) :
    Settles setting known start
      (test ++ ⟨.jumpIfFalse, ↑(start + test.length + 2 + inner.length + 1), 0⟩ :: ⟨.pop, 0, 0⟩ ::
        (inner ++ [⟨.jump, start, 0⟩, ⟨.pop, 0, 0⟩])) ⟨height, flags⟩ ⟨height, flags⟩ := by
  let skip : Instruction := ⟨.jumpIfFalse, ↑(start + test.length + 2 + inner.length + 1), 0⟩
  have split : test ++ skip :: ⟨.pop, 0, 0⟩ :: (inner ++ [⟨.jump, start, 0⟩, ⟨.pop, 0, 0⟩])
      = (test ++ skip :: ⟨.pop, 0, 0⟩ :: (inner ++ [⟨.jump, start, 0⟩])) ++ [⟨.pop, 0, 0⟩] := by simp
  rw [split]
  apply settles_loop
  -- the seam is where the loop has ended
  refine settles_seam ⟨height + 1, flags⟩ (?_ : start + test.length + 2 + inner.length + 1 = _) ?_ ?_
  · simp only [List.length_append, List.length_cons, List.length_nil]
    omega
  · apply (condition _).append
    apply settles_cons
    · exact settles_jump rfl (Or.inr (by omega)) (by omega) (Or.inr rfl) List.mem_cons_self
    · apply settles_cons (settles_pop above)
      apply (body _).append
      exact settles_jump rfl (Or.inl rfl) above (Or.inl rfl)
        (List.mem_cons_of_mem _ List.mem_cons_self)
  · exact settles_pop above

/-- The part of a `for` loop that is repeated, without an increment. -/
theorem settles_repeat {exit : Note} {position : Nat} (above : flags.length ≤ height)
    {test inner : List Instruction}
    (condition : ∀ known, (position, exit) ∈ known →
      Settles setting known start test ⟨height, flags⟩ ⟨height, flags⟩)
    (body : ∀ known, Settles setting known (start + test.length) inner ⟨height, flags⟩
      ⟨height, flags⟩) (place : position = start + test.length + inner.length + 1)
    (known : List (Nat × Note)) :
    Settles setting known start (test ++ inner ++ [⟨.jump, start, 0⟩]) ⟨height, flags⟩ exit := by
  apply settles_loop
  refine settles_exit (?_ : position = _) ?_
  · simp only [List.length_append, List.length_cons, List.length_nil]
    omega
  apply Settles.append
  · exact (condition _ List.mem_cons_self).append (body _)
  · exact settles_jump rfl (Or.inl rfl) above (Or.inl rfl) (List.mem_cons_of_mem _ List.mem_cons_self)

/-- The part of a `for` loop that is repeated. The increment stands before the body; the condition
jumps over it, and the body goes back to it. -/
theorem settles_increment {exit : Note} {position : Nat} (above : flags.length ≤ height)
    {test last inner : List Instruction}
    (condition : ∀ known, (position, exit) ∈ known →
      Settles setting known start test ⟨height, flags⟩ ⟨height, flags⟩)
    (increment : ∀ known, Settles setting known (start + test.length + 1) last ⟨height, flags⟩
      ⟨height + 1, flags⟩)
    (body : ∀ known, Settles setting known (start + test.length + 1 + last.length + 2) inner
      ⟨height, flags⟩ ⟨height, flags⟩)
    (place : position = start + test.length + 1 + last.length + 2 + inner.length + 1)
    (known : List (Nat × Note)) :
    Settles setting known start
      (test ++ ⟨.jump, ↑(start + test.length + 1 + last.length + 2), 0⟩
        :: (last ++ [⟨.pop, 0, 0⟩, ⟨.jump, start, 0⟩])
        ++ inner ++ [⟨.jump, ↑(start + test.length + 1), 0⟩]) ⟨height, flags⟩ exit := by
  have split : test ++ ⟨.jump, ↑(start + test.length + 1 + last.length + 2), 0⟩
        :: (last ++ [⟨.pop, 0, 0⟩, ⟨.jump, start, 0⟩])
        ++ inner ++ [⟨.jump, ↑(start + test.length + 1), 0⟩]
      = (test ++ [⟨.jump, ↑(start + test.length + 1 + last.length + 2), 0⟩])
        ++ (last ++ [⟨.pop, 0, 0⟩, ⟨.jump, start, 0⟩])
        ++ (inner ++ [⟨.jump, ↑(start + test.length + 1), 0⟩]) := by simp
  rw [split]
  apply settles_loop
  refine settles_exit (?_ : position = _) ?_
  · simp only [List.length_append, List.length_cons, List.length_nil]
    omega
  refine settles_seams ⟨height, flags⟩ ⟨height, flags⟩
    (?_ : start + test.length + 1 = _) (?_ : start + test.length + 1 + last.length + 2 = _) ?_ ?_ ?_
  · simp only [List.length_append, List.length_cons, List.length_nil]
    omega
  · simp only [List.length_append, List.length_cons, List.length_nil]
    omega
  · apply (condition _ (by simp)).append
    exact settles_jump rfl (Or.inl rfl) above (Or.inl rfl) (by simp)
  · apply (increment _).append
    apply settles_cons (settles_pop above)
    exact settles_jump rfl (Or.inl rfl) above (Or.inl rfl) (by simp)
  · apply (body _).append
    exact settles_jump rfl (Or.inl rfl) above (Or.inl rfl) (by simp)

/-- The part of a `for` loop that is repeated, with or without an increment. -/
theorem settles_for {exit : Note} {position again : Nat} (above : flags.length ≤ height)
    {test steps inner : List Instruction}
    (condition : ∀ known, (position, exit) ∈ known →
      Settles setting known start test ⟨height, flags⟩ ⟨height, flags⟩)
    (increment : (steps = [] ∧ again = start) ∨ ∃ last : List Instruction,
      steps = ⟨.jump, ↑(start + test.length + 1 + last.length + 2), 0⟩
        :: (last ++ [⟨.pop, 0, 0⟩, ⟨.jump, start, 0⟩]) ∧
      again = start + test.length + 1 ∧
      ∀ known, Settles setting known (start + test.length + 1) last ⟨height, flags⟩
        ⟨height + 1, flags⟩)
    (body : ∀ known, Settles setting known (start + test.length + steps.length) inner
      ⟨height, flags⟩ ⟨height, flags⟩)
    (place : position = start + (test ++ steps ++ inner).length + 1) (known : List (Nat × Note)) :
    Settles setting known start (test ++ steps ++ inner ++ [⟨.jump, again, 0⟩])
      ⟨height, flags⟩ exit := by
  simp only [List.length_append] at place
  rcases increment with ⟨rfl, rfl⟩ | ⟨last, rfl, rfl, increment⟩
  · rw [List.append_nil]
    refine settles_repeat above condition body ?_ known
    rw [place, List.length_nil]
    omega
  · refine settles_increment above condition increment (fun known => ?_) ?_ known
    · have settles := body known
      simp only [List.length_cons, List.length_append, List.length_nil] at settles
      have same : start + test.length + (last.length + (0 + 1 + 1) + 1)
          = start + test.length + 1 + last.length + 2 := by omega
      rwa [same] at settles
    · simp only [List.length_cons, List.length_append, List.length_nil] at place
      omega

end Constructs

end ScriptMachine.Prototype
