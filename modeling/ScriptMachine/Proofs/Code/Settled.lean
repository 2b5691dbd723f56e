import ScriptMachine.Proofs.Code.Flow

set_option autoImplicit false

/- Pieces of code with their stack heights. A piece settles when notes can be put at its positions
that fit the code, whatever stands around it: only the note behind the piece, and those at some
known positions outside, have to be right. Pieces are then put together like the code they hold. -/
namespace ScriptMachine.Prototype

/-- What holds when control comes to a position: the height of the operand stack, and for every
local in scope, the newest first, whether some closure captures it before its scope ends. -/
structure Note where
  height : Nat
  flags : List Bool

/-- A slot whose local is captured. Slots count from the oldest local. -/
def Marked (flags : List Bool) (slot : Nat) : Prop :=
  flags.reverse[slot]? = some true

theorem Marked.lt {flags : List Bool} {slot : Nat} (marked : Marked flags slot) :
    slot < flags.length := by
  simpa using (List.getElem?_eq_some_iff.mp marked).1

theorem Marked.older {newest : Bool} {older : List Bool} {slot : Nat}
    (marked : Marked older slot) : Marked (newest :: older) slot := by
  have inside := marked.lt
  rw [Marked, List.reverse_cons, List.getElem?_append_left (by simpa using inside)]
  exact marked

theorem Marked.of_older {newest : Bool} {older : List Bool} {slot : Nat}
    (marked : Marked (newest :: older) slot) (inside : slot < older.length) :
    Marked older slot := by
  rwa [Marked, List.reverse_cons, List.getElem?_append_left (by simpa using inside)] at marked

/-- Where code is checked. -/
structure Setting where
  heap : Heap
  registry : Registry
  body : Prototype

/-- Heights at which every call leaves something below the callee and its arguments. -/
def Roomy (body : Prototype) (height : Nat → Nat) : Prop :=
  ∀ {position : Nat} {code : Instruction}, body.code[position]? = some code →
    code.op = .call ∨ code.op = .invoke → (body.effect code).needs < height position

/-- A prototype is sound when its code is well formed, with room below every call, and it refers to
nothing but strings and functions that are sound themselves. -/
inductive Sound (heap : Heap) (registry : Registry) : Prototype → Prop where
  | mk {body : Prototype} : body.WellFormed heap registry →
      (∃ height, body.Balanced heap registry height ∧ body.Roomy height) →
      (∀ id ∈ body.references, (∃ text, heap.get? id = some (.string text)) ∨
        ∃ inner, heap.get? id = some (.function inner)) →
      (∀ {id : ObjectId} {inner : Prototype}, id ∈ body.references →
        heap.get? id = some (.function inner) → Sound heap registry inner) →
      Sound heap registry body

/-- An instruction can be executed where a note stands. -/
structure Fits (setting : Setting) (code : Instruction) (note : Note) : Prop where
  enough : (setting.body.effect code).needs ≤ note.height
  operands : setting.body.OperandsFit setting.heap setting.registry note.height code
  closed : code.op ≠ .closeUpvalue → code.op ≠ .return → ∀ slot, Marked note.flags slot →
    slot < note.height - (setting.body.effect code).drops
  nested : code.op = .closure → ∀ inner, setting.body.Makes setting.heap code.a inner →
    Sound setting.heap setting.registry inner
  called : code.op = .call ∨ code.op = .invoke → (setting.body.effect code).needs < note.height

/-- An instruction leads from one note to another. -/
structure Flows (setting : Setting) (code : Instruction) (before after : Note) : Prop where
  height : after.height
    = before.height - (setting.body.effect code).drops + (setting.body.effect code).adds
  kept : ∀ slot, Marked before.flags slot →
    slot < before.height - (setting.body.effect code).drops → Marked after.flags slot
  made : code.op = .closure → ∀ inner, setting.body.Makes setting.heap code.a inner →
    ∀ capture ∈ inner.captures, capture.isLocal = true → Marked after.flags capture.index

/-- The notes at the positions of some code fit it, and so do those that control can go on to. -/
def Checks (setting : Setting) (notes : Nat → Option Note) (start : Nat)
    (code : List Instruction) : Prop :=
  ∀ (index : Nat) (here : Instruction), code[index]? = some here →
    ∃ note, notes (start + index) = some note ∧ Fits setting here note ∧
      (here.op.leaves = false →
        ∃ next, notes (start + index + 1) = some next ∧ Flows setting here note next) ∧
      (here.op.isJump = true →
        ∃ next, notes here.a.toNat = some next ∧ Flows setting here note next)

/-- Notes for some code: from the one behind it follow the one at its start and, when the notes at
the known positions are right as well, that all of them fit. -/
def Settles (setting : Setting) (known : List (Nat × Note)) (start : Nat) (code : List Instruction)
    (entry exit : Note) : Prop :=
  ∃ notes : List Note, notes.length = code.length ∧ ∀ all : Nat → Option Note,
    (∀ index < notes.length, all (start + index) = notes[index]?) →
    all (start + code.length) = some exit →
    all start = some entry ∧
      ((∀ place ∈ known, all place.1 = some place.2) → Checks setting all start code)

section Pieces

variable {setting : Setting} {known : List (Nat × Note)} {start : Nat} {entry middle exit : Note}
  {code rest : List Instruction} {instruction : Instruction}

theorem checks_append {notes : Nat → Option Note} (first : Checks setting notes start code)
    (second : Checks setting notes (start + code.length) rest) :
    Checks setting notes start (code ++ rest) := by
  intro index here found
  by_cases inside : index < code.length
  · rw [List.getElem?_append_left inside] at found
    exact first index here found
  · rw [List.getElem?_append_right (by omega)] at found
    have place : start + code.length + (index - code.length) = start + index := by omega
    have checked := second _ here found
    rw [place] at checked
    exact checked

theorem settles_nil : Settles setting known start [] entry entry :=
  ⟨[], rfl, fun _ _ behind => ⟨behind, fun _ => by
    intro index here found
    simp at found⟩⟩

theorem Settles.weaken {more : List (Nat × Note)} (settles : Settles setting known start code entry exit)
    (subset : ∀ place ∈ known, place ∈ more) : Settles setting more start code entry exit := by
  obtain ⟨notes, length, proof⟩ := settles
  refine ⟨notes, length, fun all within behind => ?_⟩
  obtain ⟨front, checks⟩ := proof all within behind
  exact ⟨front, fun others => checks fun place member => others place (subset place member)⟩

/-- Notes of two pieces, one behind the other. -/
theorem within_append {all : Nat → Option Note} {before after : List Note}
    (within : ∀ index < (before ++ after).length, all (start + index) = (before ++ after)[index]?) :
    (∀ index < before.length, all (start + index) = before[index]?) ∧
      ∀ index < after.length, all (start + before.length + index) = after[index]? := by
  constructor
  · intro index inside
    have found := within index (by simp only [List.length_append]; omega)
    rwa [List.getElem?_append_left inside] at found
  · intro index inside
    have found := within (before.length + index) (by simp only [List.length_append]; omega)
    rwa [List.getElem?_append_right (by omega), Nat.add_sub_cancel_left, ← Nat.add_assoc] at found

/-- Three pieces, one behind the other. Each may know the notes at both seams. -/
theorem settles_seams (middle later : Note) {last : List Instruction} {position after : Nat}
    (place : position = start + code.length) (behind : after = position + rest.length)
    (first : Settles setting ((position, middle) :: (after, later) :: known) start code entry middle)
    (second : Settles setting ((position, middle) :: (after, later) :: known) position rest middle
      later)
    (third : Settles setting ((position, middle) :: (after, later) :: known) after last later exit) :
    Settles setting known start (code ++ rest ++ last) entry exit := by
  subst behind
  subst place
  obtain ⟨one, oneLength, oneProof⟩ := first
  obtain ⟨two, twoLength, twoProof⟩ := second
  obtain ⟨three, threeLength, threeProof⟩ := third
  refine ⟨one ++ two ++ three, by simp [oneLength, twoLength, threeLength], fun all within ends => ?_⟩
  obtain ⟨withinFront, withinThree⟩ := within_append within
  obtain ⟨withinOne, withinTwo⟩ := within_append withinFront
  rw [oneLength] at withinTwo
  rw [List.length_append, oneLength, twoLength, ← Nat.add_assoc] at withinThree
  rw [List.length_append, List.length_append, ← Nat.add_assoc, ← Nat.add_assoc] at ends
  obtain ⟨lower, threeChecks⟩ := threeProof all withinThree ends
  obtain ⟨upper, twoChecks⟩ := twoProof all withinTwo lower
  obtain ⟨front, oneChecks⟩ := oneProof all withinOne upper
  refine ⟨front, fun others => ?_⟩
  have everywhere : ∀ place ∈ (start + code.length, middle)
      :: (start + code.length + rest.length, later) :: known, all place.1 = some place.2 := by
    intro place member
    rcases List.mem_cons.mp member with isUpper | inRest
    · rw [isUpper]
      exact upper
    · rcases List.mem_cons.mp inRest with isLower | inKnown
      · rw [isLower]
        exact lower
      · exact others place inKnown
  apply checks_append (checks_append (oneChecks everywhere) (twoChecks everywhere))
  rw [List.length_append, ← Nat.add_assoc]
  exact threeChecks everywhere

/-- Two pieces, one behind the other. Each may know the note at the seam. -/
theorem settles_seam (middle : Note) {position : Nat} (place : position = start + code.length)
    (first : Settles setting ((position, middle) :: known) start code entry middle)
    (second : Settles setting ((position, middle) :: known) position rest middle exit) :
    Settles setting known start (code ++ rest) entry exit := by
  have more : ∀ seam ∈ (position, middle) :: known,
      seam ∈ (position, middle) :: (position + rest.length, exit) :: known := by
    simp +contextual
  have whole := settles_seams middle exit place rfl (first.weaken more) (second.weaken more)
    settles_nil
  rwa [List.append_nil] at whole

theorem Settles.append (first : Settles setting known start code entry middle)
    (second : Settles setting known (start + code.length) rest middle exit) :
    Settles setting known start (code ++ rest) entry exit :=
  settles_seam middle rfl (first.weaken fun _ member => List.mem_cons_of_mem _ member)
    (second.weaken fun _ member => List.mem_cons_of_mem _ member)

/-- A piece may know the note at its own start, as a loop does. -/
theorem settles_loop (settles : Settles setting ((start, entry) :: known) start code entry exit) :
    Settles setting known start code entry exit := by
  obtain ⟨notes, length, proof⟩ := settles
  refine ⟨notes, length, fun all within behind => ?_⟩
  obtain ⟨front, checks⟩ := proof all within behind
  refine ⟨front, fun others => checks fun place member => ?_⟩
  rcases List.mem_cons.mp member with isStart | inKnown
  · rw [isStart]
    exact front
  · exact others place inKnown

/-- A piece may know the note behind it. -/
theorem settles_exit {position : Nat} (place : position = start + code.length)
    (settles : Settles setting ((position, exit) :: known) start code entry exit) :
    Settles setting known start code entry exit := by
  subst place
  obtain ⟨notes, length, proof⟩ := settles
  refine ⟨notes, length, fun all within behind => ?_⟩
  obtain ⟨front, checks⟩ := proof all within behind
  refine ⟨front, fun others => checks fun place member => ?_⟩
  rcases List.mem_cons.mp member with isEnd | inKnown
  · rw [isEnd]
    exact behind
  · exact others place inKnown

/-- One instruction, when control goes on behind it or at a known position. -/
theorem settles_one (fits : Fits setting instruction entry)
    (next : instruction.op.leaves = false → Flows setting instruction entry exit)
    (jump : instruction.op.isJump = true →
      ∃ target, (instruction.a.toNat, target) ∈ known ∧ Flows setting instruction entry target) :
    Settles setting known start [instruction] entry exit := by
  refine ⟨[entry], rfl, fun all within behind => ?_⟩
  have front : all start = some entry := within 0 (by simp)
  refine ⟨front, fun others => ?_⟩
  intro index here found
  obtain ⟨rfl, same⟩ : index = 0 ∧ instruction = here := by
    cases index with
    | zero => exact ⟨rfl, by simpa using found⟩
    | succ index => simp at found
  subst same
  refine ⟨entry, front, fits, fun stays => ⟨exit, behind, next stays⟩, fun jumps => ?_⟩
  obtain ⟨target, member, flows⟩ := jump jumps
  exact ⟨target, others _ member, flows⟩

theorem settles_step (plain : instruction.op.isJump = false) (fits : Fits setting instruction entry)
    (flows : Flows setting instruction entry exit) :
    Settles setting known start [instruction] entry exit :=
  settles_one fits (fun _ => flows) fun jumps => by rw [plain] at jumps; cases jumps

/-- Code whose first instruction fits settles when the rest does. -/
theorem settles_cons (first : Settles setting known start [instruction] entry middle)
    (second : Settles setting known (start + 1) rest middle exit) :
    Settles setting known start (instruction :: rest) entry exit :=
  first.append second

/-- Every instruction of a piece that settles fits somewhere. -/
theorem Settles.fits (settles : Settles setting [] start code entry exit)
    (member : instruction ∈ code) : ∃ note, Fits setting instruction note := by
  obtain ⟨notes, length, proof⟩ := settles
  obtain ⟨index, here⟩ := List.mem_iff_getElem?.mp member
  obtain ⟨_, checks⟩ := proof
    (fun position => if position < start + notes.length then notes[position - start]? else some exit)
    (fun place inside => by rw [if_pos (by omega), Nat.add_sub_cancel_left])
    (by rw [if_neg (by omega)])
  obtain ⟨note, _, fits, _⟩ := checks (by simp) index instruction here
  exact ⟨note, fits⟩

theorem Flows.widen {wider : Note} (flows : Flows setting instruction entry exit)
    (height : wider.height = exit.height)
    (more : ∀ slot, Marked exit.flags slot → Marked wider.flags slot) :
    Flows setting instruction entry wider where
  height := height.trans flows.height
  kept slot marked below := more slot (flows.kept slot marked below)
  made isClosure inner makes capture member isLocal :=
    more _ (flows.made isClosure inner makes capture member isLocal)

/-- More locals may come into scope behind a piece of code than its own instructions need. -/
theorem Settles.widen {wider : Note} (settles : Settles setting [] start code entry exit)
    (apart : entry ≠ exit) (height : wider.height = exit.height)
    (more : ∀ slot, Marked exit.flags slot → Marked wider.flags slot) :
    Settles setting known start code entry wider := by
  obtain ⟨notes, length, proof⟩ := settles
  have nonempty : code.length ≠ 0 := by
    intro zero
    have same := (proof (fun _ => some exit) (by omega) rfl).1
    exact apart (Option.some.inj same).symm
  refine ⟨notes, length, fun all within behind => ?_⟩
  -- the same notes, but with the narrower one behind the code
  let narrow : Nat → Option Note := fun position =>
    if position = start + code.length then some exit else all position
  obtain ⟨front, checks⟩ := proof narrow
    (fun index inside => by
      simp only [narrow]
      rw [if_neg (by omega), within index inside])
    (by simp [narrow])
  have widened : ∀ {position : Nat} {note next : Note} {here : Instruction},
      narrow position = some next → Flows setting here note next →
      ∃ next, all position = some next ∧ Flows setting here note next := by
    intro position note next here found flows
    simp only [narrow] at found
    split at found
    · next isEnd =>
      cases found
      exact ⟨wider, isEnd ▸ behind, flows.widen height more⟩
    · exact ⟨next, found, flows⟩
  refine ⟨?_, fun _ index here found => ?_⟩
  · simp only [narrow] at front
    rwa [if_neg (by omega)] at front
  · have inside := (List.getElem?_eq_some_iff.mp found).1
    obtain ⟨note, isNote, fits, falls, jumps⟩ := checks (by simp) index here found
    simp only [narrow] at isNote
    rw [if_neg (by omega)] at isNote
    refine ⟨note, isNote, fits, fun stays => ?_, fun isJump => ?_⟩
    · obtain ⟨next, isNext, flows⟩ := falls stays
      exact widened isNext flows
    · obtain ⟨next, isNext, flows⟩ := jumps isJump
      exact widened isNext flows

end Pieces

/-- Notes that fit all of a prototype's code, and are nowhere else, are heights for it. -/
theorem balanced_of_checks {setting : Setting} {notes : List Note}
    (checks : Checks setting (fun position => notes[position]?) 0 setting.body.code.toList)
    (length : notes.length = setting.body.code.size)
    (start : ∃ note, notes[0]? = some note ∧ note.height = setting.body.arity + 1) :
    setting.body.Balanced setting.heap setting.registry
      fun position => (notes[position]?.map Note.height).getD 0 := by
  have check : ∀ {position : Nat} {code : Instruction}, setting.body.code[position]? = some code →
      ∃ note, notes[position]? = some note ∧ Fits setting code note ∧
        ∀ next, setting.body.Edge position next →
          ∃ after, notes[next]? = some after ∧ Flows setting code note after := by
    intro position code here
    obtain ⟨note, found, fits, falls, jumps⟩ := checks position code (by simpa using here)
    rw [Nat.zero_add] at found falls
    refine ⟨note, found, fits, fun next edge => ?_⟩
    cases edge with
    | next same stays =>
      cases same.symm.trans here
      exact falls stays
    | jump same isJump =>
      cases same.symm.trans here
      exact jumps isJump
  -- every captured slot is marked where it is captured
  have marked : ∀ {slot position : Nat}, setting.body.CapturedAt setting.heap
      (fun position => (notes[position]?.map Note.height).getD 0) slot position →
      ∃ note, notes[position]? = some note ∧ Marked note.flags slot := by
    intro slot position captured
    induction captured with
    | made here isClosure makes member isLocal edge =>
      obtain ⟨note, _, _, flow⟩ := check here
      obtain ⟨after, found, flows⟩ := flow _ edge
      exact ⟨after, found, flows.made isClosure _ makes _ member isLocal⟩
    | kept _ here below edge ih =>
      obtain ⟨before, isBefore, isMarked⟩ := ih
      obtain ⟨note, found, _, flow⟩ := check here
      cases isBefore.symm.trans found
      obtain ⟨after, isAfter, flows⟩ := flow _ edge
      simp only [found, Option.map_some, Option.getD_some] at below
      exact ⟨after, isAfter, flows.kept _ isMarked below⟩
  constructor
  · obtain ⟨note, found, height⟩ := start
    simpa [found] using height
  · intro position code here
    obtain ⟨note, found, fits, _⟩ := check here
    simpa [found] using fits.enough
  · intro position code here
    obtain ⟨note, found, fits, _⟩ := check here
    simpa [found] using fits.operands
  · intro position next edge
    have present : ∃ code, setting.body.code[position]? = some code := by
      cases edge with
      | next here _ => exact ⟨_, here⟩
      | jump here _ => exact ⟨_, here⟩
    obtain ⟨code, here⟩ := present
    obtain ⟨_, _, _, flow⟩ := check here
    obtain ⟨after, found, _⟩ := flow next edge
    rw [← length]
    exact (List.getElem?_eq_some_iff.mp found).1
  · intro position next code here edge
    obtain ⟨note, found, _, flow⟩ := check here
    obtain ⟨after, isAfter, flows⟩ := flow next edge
    simpa [found, isAfter] using flows.height
  · intro slot position code captured here notClose notReturn
    obtain ⟨before, isBefore, isMarked⟩ := marked captured
    obtain ⟨note, found, fits, _⟩ := check here
    cases isBefore.symm.trans found
    simpa [found] using fits.closed notClose notReturn slot isMarked

theorem roomy_of_checks {setting : Setting} {notes : List Note}
    (checks : Checks setting (fun position => notes[position]?) 0 setting.body.code.toList) :
    setting.body.Roomy fun position => (notes[position]?.map Note.height).getD 0 := by
  intro position code here isCall
  obtain ⟨note, found, fits, _⟩ := checks position code (by simpa using here)
  rw [Nat.zero_add] at found
  simpa [found] using fits.called isCall

/-- Code that settles from the height it is entered with, and behind which nil is returned, is
well formed, and there is room below its calls. -/
theorem wellFormed_of_settles {setting : Setting} {code : List Instruction} {entry exit : Note}
    (settles : Settles setting [] 0 code entry exit)
    (same : setting.body.code.toList = code ++ [⟨.nil, 0, 0⟩, ⟨.return, 0, 0⟩])
    (lined : setting.body.lines.size = setting.body.code.size)
    (height : entry.height = setting.body.arity + 1)
    (bare : ∀ slot, Marked exit.flags slot → slot < exit.height) :
    setting.body.WellFormed setting.heap setting.registry ∧
      ∃ height, setting.body.Balanced setting.heap setting.registry height ∧
        setting.body.Roomy height := by
  obtain ⟨notes, length, proof⟩ := settles
  have size : setting.body.code.size = code.length + 2 := by
    rw [← Array.length_toList, same]
    simp
  let all := notes ++ [exit, ⟨exit.height + 1, exit.flags⟩]
  have behind : all[code.length]? = some exit := by
    simp [all, ← length]
  have last : all[code.length + 1]? = some ⟨exit.height + 1, exit.flags⟩ := by
    simp [all, ← length]
  obtain ⟨front, checks⟩ := proof (fun position => all[position]?)
    (fun index inside => by
      simp only [all, Nat.zero_add]
      rw [List.getElem?_append_left inside])
    (by rw [Nat.zero_add]; exact behind)
  have ending : Checks setting (fun position => all[position]?) (0 + code.length)
      [⟨.nil, 0, 0⟩, ⟨.return, 0, 0⟩] := by
    intro index here found
    have split : (index = 0 ∧ here = ⟨.nil, 0, 0⟩) ∨ (index = 1 ∧ here = ⟨.return, 0, 0⟩) := by
      rcases index with _ | _ | index
      · exact Or.inl ⟨rfl, by simpa using found.symm⟩
      · exact Or.inr ⟨rfl, by simpa using found.symm⟩
      · simp at found
    rcases split with ⟨rfl, rfl⟩ | ⟨rfl, rfl⟩
    · have flows : Flows setting ⟨.nil, 0, 0⟩ exit ⟨exit.height + 1, exit.flags⟩ :=
        ⟨rfl, fun slot isMarked _ => isMarked, by simp⟩
      have fits : Fits setting ⟨.nil, 0, 0⟩ exit :=
        ⟨Nat.zero_le _, trivial, fun _ _ slot isMarked => bare slot isMarked, by simp, by simp⟩
      exact ⟨exit, by simpa using behind, fits, fun _ => ⟨_, by simpa using last, flows⟩,
        by simp [Opcode.isJump]⟩
    · exact ⟨_, by simpa using last, ⟨by simp [effect], trivial, by simp, by simp, by simp⟩,
        by simp [Opcode.leaves], by simp [Opcode.isJump]⟩
  have whole : Checks setting (fun position => all[position]?) 0 setting.body.code.toList := by
    rw [same]
    exact checks_append (checks (by simp)) ending
  have balanced := balanced_of_checks whole (by simp [all, length, size]) ⟨entry, front, height⟩
  refine ⟨⟨lined, ⟨⟨.return, 0, 0⟩, ?_, rfl⟩, _, balanced⟩, _, balanced, roomy_of_checks whole⟩
  rw [Array.back?_eq_getElem?, ← Array.getElem?_toList, same, size]
  simp

end ScriptMachine.Prototype
