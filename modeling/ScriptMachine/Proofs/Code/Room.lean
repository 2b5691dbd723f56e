import ScriptMachine.Proofs.Code.Settled

set_option autoImplicit false

/- Room below calls. The heights of well-formed code are settled wherever control can come to, so a
call that leaves something below its callee with some heights does so with all of them. -/
namespace ScriptMachine.Prototype

/-- The positions that control can come to. -/
inductive Visits (body : Prototype) : Nat → Prop where
  | start : Visits body 0
  | edge {position next : Nat} : Visits body position → body.Edge position next → Visits body next

/-- Heights that agree along the code, from the one it is entered with. -/
structure Agrees (body : Prototype) (height : Nat → Nat) : Prop where
  start : height 0 = body.arity + 1
  edge : ∀ {position next : Nat} {code : Instruction}, body.code[position]? = some code →
    body.Edge position next →
    height next = height position - (body.effect code).drops + (body.effect code).adds

/-- Code in which every call leaves something below its callee and arguments. -/
def Spacious (body : Prototype) : Prop :=
  ∃ height : Nat → Nat, body.Agrees height ∧ body.Roomy height

section Heights

variable {heap : Heap} {registry : Registry} {body : Prototype} {height other : Nat → Nat}
  {position : Nat} {code : Instruction}

theorem Balanced.settled (balanced : body.Balanced heap registry height) : body.Agrees height :=
  ⟨balanced.start, balanced.agrees⟩

theorem Sound.spacious (sound : Sound heap registry body) : body.Spacious := by
  obtain ⟨_, ⟨height, balanced, roomy⟩, _, _⟩ := sound
  exact ⟨height, balanced.settled, roomy⟩

theorem Edge.origin {next : Nat} (edge : body.Edge position next) :
    ∃ code, body.code[position]? = some code := by
  cases edge with
  | next here _ => exact ⟨_, here⟩
  | jump here _ => exact ⟨_, here⟩

/-- Control comes to a position at one height only. -/
theorem Visits.height_eq (visits : body.Visits position) (one : body.Agrees height)
    (two : body.Agrees other) : height position = other position := by
  induction visits with
  | start => rw [one.start, two.start]
  | edge _ edge ih =>
    obtain ⟨code, here⟩ := edge.origin
    rw [one.edge here edge, two.edge here edge, ih]

/-- Behind a call there are its result and something below that. -/
theorem Spacious.two_le (spacious : body.Spacious) (agrees : body.Agrees height)
    (here : body.code[position]? = some code) (isCall : code.op = .call ∨ code.op = .invoke)
    (visits : body.Visits (position + 1)) : 2 ≤ height (position + 1) := by
  obtain ⟨other, settled, roomy⟩ := spacious
  have room := roomy here isCall
  have onward : code.op.leaves = false := by
    rcases isCall with isCall | isCall <;> rw [isCall] <;> rfl
  have effects : (body.effect code).drops = (body.effect code).needs ∧
      (body.effect code).adds = 1 := by
    rcases isCall with isCall | isCall <;> simp [effect, isCall]
  rw [visits.height_eq agrees settled, settled.edge here (.next here onward), effects.1, effects.2]
  omega

end Heights

end ScriptMachine.Prototype
