import ScriptMachine.Proofs.Syntax.Parsing

set_option autoImplicit false
set_option synthInstance.maxSize 20000

/- Coming to an end on any tokens. Nothing is assumed about their order: a production may complain,
recover and go on, and malformed tokens are left out on the way. What counts is how many words are
still to be read. No action goes back, and what is repeated passes a word each time. -/
namespace ScriptMachine.Compiler

/-- The well-formed tokens in front of the first one of kind `finish`. -/
def wordsOf (tokens : List Token) : List Token :=
  (tokens.takeWhile fun token => token.kind != .finish).filter fun token => token.kind != .malformed

/-- The first token of kind `finish`. -/
def finishOf? (tokens : List Token) : Option Token :=
  tokens.find? fun token => token.kind == .finish

section Words

variable {token : Token} {tokens : List Token}

theorem wordsOf_finish (isFinish : token.kind = .finish) : wordsOf (token :: tokens) = [] := by
  simp [wordsOf, isFinish]

theorem wordsOf_word (inside : token.kind ≠ .finish) (legible : token.kind ≠ .malformed) :
    wordsOf (token :: tokens) = token :: wordsOf tokens := by
  simp [wordsOf, inside, legible]

theorem finishOf?_word (inside : token.kind ≠ .finish) :
    finishOf? (token :: tokens) = finishOf? tokens := by
  simp [finishOf?, inside]

theorem settled_words (tokens : List Token) :
    wordsOf (tokens.dropWhile fun token => token.kind == .malformed) = wordsOf tokens ∧
      finishOf? (tokens.dropWhile fun token => token.kind == .malformed) = finishOf? tokens := by
  induction tokens with
  | nil => exact ⟨rfl, rfl⟩
  | cons token rest ih =>
    by_cases isMalformed : token.kind = .malformed
    · have outside : token.kind ≠ .finish := by
        rw [isMalformed]
        decide
      rw [List.dropWhile_cons_of_pos (by simpa using isMalformed), ih.1, ih.2,
        finishOf?_word outside]
      simp [wordsOf, isMalformed]
    · rw [List.dropWhile_cons_of_neg (by simpa using isMalformed)]
      exact ⟨rfl, rfl⟩

end Words

namespace Cursor

/-- The words still to be passed. -/
def unread (cursor : Cursor) : List Token :=
  wordsOf (cursor.here :: cursor.ahead)

/-- The token at which the unit ends. -/
def finish? (cursor : Cursor) : Option Token :=
  finishOf? (cursor.here :: cursor.ahead)

/-- Leaving out malformed tokens leaves the words as they are. -/
theorem settled_spec (cursor : Cursor) (ends : cursor.finish?.isSome) :
    cursor.settled.passed = cursor.passed ∧ cursor.settled.unread = cursor.unread ∧
      cursor.settled.finish? = cursor.finish? ∧ cursor.settled.here.kind ≠ .malformed := by
  obtain ⟨words, finish⟩ := settled_words (cursor.here :: cursor.ahead)
  unfold settled
  split
  · next empty =>
    rw [empty] at finish
    rw [finish?, ← finish] at ends
    cases ends
  · next here ahead left =>
    rw [left] at words finish
    refine ⟨rfl, words, finish, ?_⟩
    have first := List.head?_dropWhile_not (fun token : Token => token.kind == .malformed)
      (cursor.here :: cursor.ahead)
    rw [left] at first
    simpa using first

end Cursor

/-- How many words a compilation has not passed. -/
def State.left (state : State) : Nat :=
  state.cursor.unread.length

/-- What there is to compile: the words, and the token that ends the unit. -/
structure Stream where
  words : List Token
  finish : Token

namespace Stream

variable {stream : Stream} {state : State}

/-- The last word asks for a struct's name. -/
def EndsNew (stream : Stream) : Prop :=
  ∃ word, stream.words.getLast? = some word ∧ word.kind = .newWord

/-- The place of a compilation in the stream. The cursor is at a word or at the end, and when the
last word is `new`, what stands behind it is no struct's name. -/
structure At (stream : Stream) (state : State) : Prop where
  words : state.cursor.passed.reverse ++ state.cursor.unread = stream.words
  finish : state.cursor.finish? = some stream.finish
  legible : state.cursor.here.kind ≠ .malformed
  unknown : stream.EndsNew → state.findStruct stream.finish.text = none

theorem At.of_same (place : stream.At state) {other : State} (cursor : other.cursor = state.cursor)
    (known : ∀ name, other.findStruct name = state.findStruct name) : stream.At other := by
  refine ⟨?_, ?_, ?_, fun endsNew => ?_⟩
  · rw [cursor]
    exact place.words
  · rw [cursor]
    exact place.finish
  · rw [cursor]
    exact place.legible
  · rw [known]
    exact place.unknown endsNew

theorem At.unread_here (place : stream.At state) (inside : state.cursor.here.kind ≠ .finish) :
    state.cursor.unread = state.cursor.here :: wordsOf state.cursor.ahead :=
  wordsOf_word inside place.legible

theorem left_finish (isFinish : state.cursor.here.kind = .finish) : state.left = 0 := by
  rw [State.left, Cursor.unread, wordsOf_finish isFinish]
  rfl

theorem At.left_pos (place : stream.At state) (inside : state.cursor.here.kind ≠ .finish) :
    0 < state.left := by
  rw [State.left, place.unread_here inside]
  exact Nat.succ_pos _

theorem At.here_finish (place : stream.At state) (nothing : state.left = 0) :
    state.cursor.here = stream.finish := by
  by_cases isFinish : state.cursor.here.kind = .finish
  · have first := place.finish
    simp only [Cursor.finish?, finishOf?, List.find?_cons, isFinish, beq_self_eq_true] at first
    exact Option.some.inj first
  · exact absurd nothing (Nat.ne_of_gt (place.left_pos isFinish))

theorem At.finish_kind (place : stream.At state) : stream.finish.kind = .finish := by
  simpa using List.find?_some place.finish

/-- At the end, the token last passed is the last word. -/
theorem At.previous_last (place : stream.At state) (nothing : state.left = 0) :
    stream.words.getLast? = some state.cursor.previous ∨ state.cursor.previous.kind = .finish := by
  have unread : state.cursor.unread = [] := List.eq_nil_of_length_eq_zero nothing
  have words := place.words
  rw [unread, List.append_nil] at words
  rw [← words, Cursor.previous]
  cases state.cursor.passed with
  | nil =>
    rw [place.here_finish nothing]
    exact Or.inr place.finish_kind
  | cons last rest => simp

/-- Passing a word. -/
theorem At.passed (place : stream.At state) (inside : state.cursor.here.kind ≠ .finish)
    {after : State} (cursor : after.cursor = state.cursor.moved.settled)
    (known : ∀ name, after.findStruct name = state.findStruct name) :
    stream.At after ∧ after.left + 1 = state.left ∧
      after.cursor.passed = state.cursor.here :: state.cursor.passed := by
  have finish := place.finish
  rw [Cursor.finish?, finishOf?_word inside] at finish
  obtain ⟨next, ahead, behind⟩ : ∃ next ahead, state.cursor.ahead = next :: ahead := by
    cases behind : state.cursor.ahead with
    | nil =>
      rw [behind] at finish
      cases finish
    | cons next ahead => exact ⟨next, ahead, rfl⟩
  have moved : state.cursor.moved = ⟨state.cursor.here :: state.cursor.passed, next, ahead⟩ := by
    rw [Cursor.moved, behind]
  have unread := place.unread_here inside
  rw [behind] at finish unread
  have settled := Cursor.settled_spec state.cursor.moved (by
    rw [moved, Cursor.finish?, finish]
    rfl)
  rw [← cursor, moved] at settled
  obtain ⟨passed, words, last, legible⟩ := settled
  have left : state.cursor.unread = state.cursor.here :: after.cursor.unread := by
    rw [unread, words]
    rfl
  refine ⟨⟨?_, last.trans finish, legible, fun endsNew => ?_⟩, ?_, passed⟩
  · rw [passed, ← place.words, left]
    simp
  · rw [known]
    exact place.unknown endsNew
  · rw [State.left, State.left, left]
    rfl

end Stream

section Rules

variable {α β σ : Type} {state : State}

/-- The action comes to an end: with `done`, or because there is no room for an object. -/
def Halts (action : Compile α) (state : State) (done : α → State → Prop) : Prop :=
  match action state with
  | .ok value after => done value after
  | .error stop _ => stop ≠ .diverged

theorem Halts.mono {action : Compile α} {done weaker : α → State → Prop}
    (halts : Halts action state done)
    (implies : ∀ value after, done value after → weaker value after) :
    Halts action state weaker := by
  unfold Halts at *
  cases ran : action state with
  | ok value after =>
    rw [ran] at halts
    exact implies value after halts
  | error stop after => rwa [ran] at halts

theorem halts_bind {first : Compile β} {rest : β → Compile α} {between : β → State → Prop}
    {done : α → State → Prop} (begins : Halts first state between)
    (goesOn : ∀ value middle, between value middle → Halts (rest value) middle done) :
    Halts (first >>= rest) state done := by
  unfold Halts at begins
  simp only [Halts, bind, EStateM.bind]
  cases ran : first state with
  | ok value middle =>
    rw [ran] at begins
    exact goesOn value middle begins
  | error stop middle =>
    rw [ran] at begins
    exact begins

/-- What is known to run needs no such care. -/
theorem halts_ran {first : Compile β} {rest : β → Compile α} {done : α → State → Prop} {value : β}
    {middle : State} (ran : first state = .ok value middle)
    (next : Halts (rest value) middle done) : Halts (first >>= rest) state done := by
  unfold Halts at *
  simp only [bind, EStateM.bind, ran]
  exact next

/-- Fewer words are left than it takes. -/
theorem Halts.fewer {stream : Stream} {action : Compile α} {left most : Nat}
    (halts : Halts action state fun _ after => stream.At after ∧ after.left ≤ left)
    (fits : left ≤ most) : Halts action state fun _ after => stream.At after ∧ after.left ≤ most :=
  halts.mono fun _ _ ⟨place, fewer⟩ => ⟨place, Nat.le_trans fewer fits⟩

variable (stream : Stream) (room : Nat)

/-- Found with at most `room` words to read, the action comes to an end and does not go back. -/
class Advances (action : Compile α) : Prop where
  halts : ∀ {state : State}, stream.At state → state.left ≤ room →
    Halts action state fun _ after => stream.At after ∧ after.left ≤ state.left

/-- It also passes a word when there is one. -/
class Eats (action : Compile α) : Prop where
  halts : ∀ {state : State}, stream.At state → state.left ≤ room →
    Halts action state fun _ after => stream.At after ∧ after.left ≤ state.left - 1

/-- A round of a loop that asks for another one only where it has passed a word, if there is one. -/
class Nears (body : Compile (σ × Bool)) : Prop where
  halts : ∀ {state : State}, stream.At state → state.left ≤ room →
    Halts body state fun result after => stream.At after ∧ after.left ≤ state.left ∧
      (result.2 = true → after.left ≤ state.left - 1)

/-- A round of a loop that asks for another one only where it has passed a word. -/
class Pays (body : Compile (σ × Bool)) : Prop where
  halts : ∀ {state : State}, stream.At state → state.left ≤ room →
    Halts body state fun result after => stream.At after ∧ after.left ≤ state.left ∧
      (result.2 = true → after.left < state.left)

variable {stream : Stream} {room : Nat}

theorem Advances.smaller {action : Compile α} (advances : Advances stream room action) {less : Nat}
    (fits : less ≤ room) : Advances stream less action where
  halts place within := advances.halts place (Nat.le_trans within fits)

instance (action : Compile α) [eats : Eats stream room action] : Advances stream room action where
  halts place within := (eats.halts place within).fewer (Nat.sub_le _ _)

instance (body : Compile (σ × Bool)) [eats : Eats stream room body] : Nears stream room body where
  halts place within := (eats.halts place within).mono fun _ _ ⟨place, fewer⟩ =>
    ⟨place, Nat.le_trans fewer (Nat.sub_le _ _), fun _ => fewer⟩

instance (value : α) : Advances stream room (pure value : Compile α) where
  halts place _ := ⟨place, Nat.le_refl _⟩

instance : Advances stream room (get : Compile State) where
  halts place _ := ⟨place, Nat.le_refl _⟩

theorem Advances.andThen {first : Compile β} {rest : β → Compile α}
    (begins : Advances stream room first) (goesOn : ∀ value, Advances stream room (rest value)) :
    Advances stream room (first >>= rest) where
  halts place within := halts_bind (begins.halts place within) fun value _ ⟨place, fewer⟩ =>
    ((goesOn value).halts place (Nat.le_trans fewer within)).fewer fewer

instance (first : Compile β) (rest : β → Compile α) [begins : Advances stream room first]
    [goesOn : ∀ value, Advances stream room (rest value)] :
    Advances stream room (first >>= rest) :=
  begins.andThen goesOn

instance (first : Compile β) (rest : β → Compile α) [begins : Eats stream room first]
    [goesOn : ∀ value, Advances stream room (rest value)] : Eats stream room (first >>= rest) where
  halts {state} place within := halts_bind (begins.halts place within)
    fun value middle ⟨place, fewer⟩ => ((goesOn value).halts place (by omega)).fewer fewer

/-- The word may also be passed later. -/
theorem Eats.behind {first : Compile β} {rest : β → Compile α} (begins : Advances stream room first)
    (goesOn : ∀ value, Eats stream room (rest value)) : Eats stream room (first >>= rest) where
  halts {state} place within := halts_bind (begins.halts place within)
    fun value middle ⟨place, fewer⟩ => ((goesOn value).halts place (by omega)).fewer (by omega)

instance (first : Compile β) (rest : β → Compile (σ × Bool)) [begins : Advances stream room first]
    [goesOn : ∀ value, Nears stream room (rest value)] : Nears stream room (first >>= rest) where
  halts {state} place within := halts_bind (begins.halts place within)
    fun value middle ⟨place, fewer⟩ =>
      ((goesOn value).halts place (by omega)).mono fun _ _ ⟨place, fewest, nears⟩ =>
        ⟨place, Nat.le_trans fewest fewer, fun more => by have := nears more; omega⟩

instance (first : Compile β) (rest : β → Compile (σ × Bool)) [begins : Advances stream room first]
    [goesOn : ∀ value, Pays stream room (rest value)] : Pays stream room (first >>= rest) where
  halts {state} place within := halts_bind (begins.halts place within)
    fun value middle ⟨place, fewer⟩ =>
      ((goesOn value).halts place (by omega)).mono fun _ _ ⟨place, fewest, pays⟩ =>
        ⟨place, Nat.le_trans fewest fewer, fun more => by have := pays more; omega⟩

/-- Where there is a word, a round that nears the end pays. -/
theorem Nears.pays {body : Compile (σ × Bool)} (nears : Nears stream room body)
    (place : stream.At state) (within : state.left ≤ room) (waiting : 0 < state.left) :
    Halts body state fun result after => stream.At after ∧ after.left ≤ state.left ∧
      (result.2 = true → after.left < state.left) :=
  (nears.halts place within).mono fun _ _ ⟨place, fewer, passes⟩ =>
    ⟨place, fewer, fun more => by have := passes more; omega⟩

instance (value : σ) : Nears stream room (pure (value, false) : Compile (σ × Bool)) where
  halts place _ := ⟨place, Nat.le_refl _, fun more => by cases more⟩

instance (value : σ) : Pays stream room (pure (value, false) : Compile (σ × Bool)) where
  halts place _ := ⟨place, Nat.le_refl _, fun more => by cases more⟩

section Choices

variable {test : Prop} [Decidable test]

instance (yes no : Compile α) [one : Advances stream room yes] [other : Advances stream room no] :
    Advances stream room (if test then yes else no) := by
  split <;> assumption

instance (yes no : Compile (σ × Bool)) [one : Nears stream room yes]
    [other : Nears stream room no] : Nears stream room (if test then yes else no) := by
  split <;> assumption

instance (yes no : Compile (σ × Bool)) [one : Pays stream room yes]
    [other : Pays stream room no] : Pays stream room (if test then yes else no) := by
  split <;> assumption

end Choices

instance (list : List α) (init : σ) (body : α → σ → Compile (ForInStep σ))
    [each : ∀ item value, Advances stream room (body item value)] :
    Advances stream room (forIn list init body) := by
  induction list generalizing init with
  | nil =>
    rw [List.forIn_nil]
    infer_instance
  | cons item rest ih =>
    rw [List.forIn_cons]
    have goesOn : ∀ step : ForInStep σ, Advances stream room (match step with
        | .done value => pure value
        | .yield value => forIn rest value body : Compile σ) := by
      intro step
      cases step <;> dsimp only <;> infer_instance
    infer_instance

/-- The rounds of a loop are no more than the words that are left, and one. -/
theorem advances_iterate {bound : Nat} (enough : room < bound) {body : σ → Compile (σ × Bool)}
    (each : ∀ value, Pays stream room (body value)) (value : σ) :
    Advances stream room (iterate bound value body) where
  halts {state} place within := by
    have rounds : state.left < bound := Nat.lt_of_le_of_lt within enough
    clear enough
    induction bound generalizing state value with
    | zero => cases rounds
    | succ bound ih =>
      rw [iterate]
      refine halts_bind ((each value).halts place within) fun result middle paid => ?_
      obtain ⟨next, more⟩ := result
      obtain ⟨place, fewer, pays⟩ := paid
      cases more with
      | false => exact ⟨place, fewer⟩
      | true =>
        have spent : middle.left < state.left := pays rfl
        exact (ih next place (by omega) (by omega)).fewer fewer

/-- An action that touches neither the cursor nor the structs that are known. -/
theorem advances_modify {change : State → State}
    (cursor : ∀ state, (change state).cursor = state.cursor)
    (known : ∀ state name, (change state).findStruct name = state.findStruct name) :
    Advances stream room (modify change : Compile Unit) where
  halts {state} place _ := by
    refine ⟨place.of_same (cursor state) (known state), Nat.le_of_eq ?_⟩
    rw [State.left, cursor]
    rfl

instance (change : Draft → Draft) : Advances stream room (modifyDraft change) :=
  advances_modify (fun _ => rfl) fun _ _ => rfl

instance (pinned : List ObjectId) (action : (Unit → List ObjectId) → Heap.Action α) :
    Advances stream room (allocating pinned action) where
  halts {state} place _ := by
    unfold Halts allocating
    cases action (fun _ => pinned ++ state.roots) state.heap with
    | ok value heap => exact ⟨place.of_same rfl fun _ => rfl, Nat.le_refl _⟩
    | error failure heap =>
      intro same
      cases same

end Rules

section Tokens

variable {stream : Stream} {room : Nat} {state : State} {kind : TokenKind}

theorem halts_errorAt (token : Token) (problem : Problem) :
    Halts (errorAt token problem) state fun _ after => after.cursor = state.cursor ∧
      ∀ name, after.findStruct name = state.findStruct name := by
  have kept : ∀ after : State, after = (if state.panicking then state else
      { state with
        panicking := true
        diagnostics := state.diagnostics.push
          ⟨token.line, token.column, problem, state.draft.name⟩ }) →
      after.cursor = state.cursor ∧ ∀ name, after.findStruct name = state.findStruct name := by
    rintro after rfl
    split <;> exact ⟨rfl, fun _ => rfl⟩
  exact kept _ rfl

theorem left_of_cursor {after : State} (cursor : after.cursor = state.cursor) :
    after.left = state.left := by
  rw [State.left, cursor]
  rfl

instance (token : Token) (problem : Problem) : Advances stream room (errorAt token problem) where
  halts place _ := (halts_errorAt token problem).mono fun _ _ ⟨cursor, known⟩ =>
    ⟨place.of_same cursor known, Nat.le_of_eq (left_of_cursor cursor)⟩

instance : Advances stream room here := by
  unfold here
  infer_instance

instance : Advances stream room previous := by
  unfold previous
  infer_instance

instance (problem : Problem) : Advances stream room (error problem) := by
  unfold error
  infer_instance

instance (problem : Problem) : Advances stream room (errorHere problem) := by
  unfold errorHere
  infer_instance

instance : Advances stream room atEnd := by
  unfold atEnd
  infer_instance

instance (kind : TokenKind) : Advances stream room (check kind) := by
  unfold check
  infer_instance

/-- A word has been passed. -/
structure Stepped (stream : Stream) (before after : State) : Prop where
  place : stream.At after
  left : after.left + 1 = before.left
  passed : after.cursor.passed = before.cursor.here :: before.cursor.passed

theorem halts_settle (state : State) : Halts settle state fun _ after =>
    after.cursor = state.cursor.settled ∧
      ∀ name, after.findStruct name = state.findStruct name := by
  unfold settle
  refine halts_ran rfl ?_
  split
  · refine halts_bind (halts_errorAt _ _) fun _ after ⟨cursor, known⟩ => ⟨?_, known⟩
    exact congrArg Cursor.settled cursor
  · next legible =>
    refine ⟨?_, fun _ => rfl⟩
    have stays : state.cursor.settled = state.cursor := by
      rw [Cursor.settled, List.dropWhile_cons_of_neg (by simpa using legible)]
    exact stays.symm

theorem halts_step (place : stream.At state) (inside : state.cursor.here.kind ≠ .finish) :
    Halts step state fun _ after => Stepped stream state after := by
  unfold step
  refine halts_ran rfl ((halts_settle _).mono fun _ after ⟨cursor, known⟩ => ?_)
  obtain ⟨place, left, passed⟩ := place.passed inside cursor known
  exact ⟨place, left, passed⟩

theorem halts_advance (place : stream.At state) : Halts advance state fun _ after =>
    (state.left = 0 ∧ after = state) ∨ Stepped stream state after := by
  unfold advance
  refine halts_ran rfl ?_
  by_cases isFinish : state.cursor.here.kind = .finish
  · simp only [isFinish, beq_self_eq_true, Bool.not_true, Bool.false_eq_true, if_false]
    exact Or.inl ⟨Stream.left_finish isFinish, rfl⟩
  · rw [if_pos (by simpa using isFinish)]
    exact (halts_step place isFinish).mono fun _ _ => Or.inr

/-- Whether the token at the cursor has been passed, which it is if it is of the given kind. -/
theorem halts_accept (place : stream.At state) : Halts (accept kind) state fun found after =>
    (found = true ∧ state.cursor.here.kind = kind ∧ Stepped stream state after) ∨
      (found = false ∧ after = state) := by
  unfold accept
  refine halts_ran rfl ?_
  by_cases matching : (state.cursor.here.kind == kind && state.cursor.here.kind != .finish) = true
  · rw [if_pos matching]
    rw [Bool.and_eq_true, beq_iff_eq, bne_iff_ne] at matching
    refine halts_bind (halts_step place matching.2) fun _ after stepped => ?_
    exact Or.inl ⟨rfl, matching.1, stepped⟩
  · rw [if_neg matching]
    exact Or.inr ⟨rfl, rfl⟩

/-- The result has the text of the token at the cursor, passed or not. -/
theorem halts_expect (place : stream.At state) (what : String) :
    Halts (expect kind what) state fun found after =>
      found = state.cursor.here ∧ stream.At after ∧ after.left ≤ state.left := by
  unfold expect
  refine halts_ran rfl ?_
  by_cases matching : (state.cursor.here.kind == kind && state.cursor.here.kind != .finish) = true
  · rw [if_pos matching]
    rw [Bool.and_eq_true, bne_iff_ne] at matching
    refine halts_bind (halts_step place matching.2) fun _ after stepped => ?_
    refine ⟨?_, stepped.place, by have := stepped.left; omega⟩
    rw [Cursor.previous, stepped.passed]
    rfl
  · rw [if_neg matching]
    refine halts_bind (halts_ran rfl (halts_errorAt _ _)) fun _ after ⟨cursor, known⟩ => ?_
    exact ⟨congrArg Cursor.here cursor, place.of_same cursor known,
      Nat.le_of_eq (left_of_cursor cursor)⟩

instance : Eats stream room advance where
  halts place _ := (halts_advance place).mono fun _ _ advanced => by
    rcases advanced with ⟨nothing, rfl⟩ | stepped
    · exact ⟨place, by omega⟩
    · exact ⟨stepped.place, by have := stepped.left; omega⟩

instance (kind : TokenKind) : Advances stream room (accept kind) where
  halts place _ := (halts_accept place).mono fun _ _ accepted => by
    rcases accepted with ⟨-, -, stepped⟩ | ⟨-, rfl⟩
    · exact ⟨stepped.place, by have := stepped.left; omega⟩
    · exact ⟨place, Nat.le_refl _⟩

instance (allowed : Bool) (kind : TokenKind) : Advances stream room (acceptIf allowed kind) := by
  unfold acceptIf
  infer_instance

instance (kind : TokenKind) (what : String) : Advances stream room (expect kind what) where
  halts place _ := (halts_expect place what).mono fun _ _ ⟨_, place, fewer⟩ => ⟨place, fewer⟩

/-- A round that goes on behind a token of the given kind. -/
instance {σ : Type} (value : σ) (kind : TokenKind) : Pays stream room (do
    let more ← accept kind
    pure (value, more) : Compile (σ × Bool)) where
  halts place _ := halts_bind (halts_accept place) fun more _ accepted => by
    rcases accepted with ⟨rfl, -, stepped⟩ | ⟨rfl, rfl⟩
    · exact ⟨stepped.place, by have := stepped.left; omega, fun _ => by have := stepped.left; omega⟩
    · exact ⟨place, Nat.le_refl _, fun more => by cases more⟩

section Choices

variable {α σ : Type}

/-- What is done behind a word need not cope with as many words. -/
theorem eats_accept {rest : Bool → Compile α}
    (takes : ∀ less < room, Advances stream less (rest true))
    (skips : Eats stream room (rest false)) : Eats stream room (accept kind >>= rest) where
  halts {state} place within := by
    refine halts_bind (halts_accept place) fun found next accepted => ?_
    rcases accepted with ⟨rfl, -, stepped⟩ | ⟨rfl, rfl⟩
    · have fewer := stepped.left
      exact ((takes next.left (by omega)).halts stepped.place (Nat.le_refl _)).fewer (by omega)
    · exact skips.halts place within

theorem eats_take {yes no : Compile α} (takes : ∀ less < room, Advances stream less yes)
    (skips : Eats stream room no) : Eats stream room (do if ← accept kind then yes else no) :=
  eats_accept takes skips

theorem eats_unless {yes no : Compile α} (takes : ∀ less < room, Advances stream less yes)
    (skips : Eats stream room no) : Eats stream room (do if !(← accept kind) then no else yes) :=
  eats_accept takes skips

/-- A word that may be taken is not there at the end. -/
theorem advances_acceptIf {allowed : Bool} {yes no : Compile α}
    (takes : 0 < room → Advances stream room yes) (skips : Advances stream room no) :
    Advances stream room (do if ← acceptIf allowed kind then yes else no) where
  halts {state} place within := by
    cases allowed with
    | false => exact skips.halts place within
    | true =>
      refine halts_bind (halts_accept place) fun found next accepted => ?_
      rcases accepted with ⟨rfl, -, stepped⟩ | ⟨rfl, rfl⟩
      · have fewer := stepped.left
        exact ((takes (by omega)).halts stepped.place (by omega)).fewer (by omega)
      · exact skips.halts place within

/-- Nor is one that is looked for. -/
theorem advances_check {rest : Bool → Compile α}
    (found : 0 < room → Advances stream room (rest true))
    (missed : Advances stream room (rest false)) :
    Advances stream room (check kind >>= rest) where
  halts {state} place within := by
    refine halts_ran rfl ?_
    by_cases matching : (state.cursor.here.kind == kind && state.cursor.here.kind != .finish) = true
    · have inside := matching
      rw [Bool.and_eq_true, bne_iff_ne] at inside
      have waiting := place.left_pos inside.2
      rw [matching]
      exact (found (by omega)).halts place within
    · rw [Bool.not_eq_true] at matching
      rw [matching]
      exact missed.halts place within

/-- A round that comes to nothing at the end, and else passes a word before it asks for another. -/
theorem pays_unlessEnd {test : Bool → Bool} {stop goOn : Compile (σ × Bool)}
    (ends : test true = true) [stops : Pays stream room stop]
    (goesOn : 0 < room → Nears stream room goOn) :
    Pays stream room (do if test (← atEnd) = true then stop else goOn) where
  halts {state} place within := by
    refine halts_ran rfl ?_
    by_cases isFinish : state.cursor.here.kind = .finish
    · rw [if_pos (by rw [isFinish]; exact ends)]
      exact stops.halts place within
    · have waiting := place.left_pos isFinish
      split
      · exact stops.halts place within
      · exact (goesOn (by omega)).pays place within waiting

end Choices

end Tokens

section Resting

/- Everything else that a production does on the spot. -/

variable {stream : Stream} {room : Nat}

instance : Advances stream room draft := by
  unfold draft
  infer_instance

instance : Advances stream room position := by
  unfold position
  infer_instance

instance : Advances stream room atTopLevel := by
  unfold atTopLevel
  infer_instance

instance (change : Prototype → Prototype) : Advances stream room (modifyBody change) := by
  unfold modifyBody
  infer_instance

instance (op : Opcode) (a b : Int) : Advances stream room (emitWith op a b) := by
  unfold emitWith
  infer_instance

instance (op : Opcode) : Advances stream room (emit op) := by
  unfold emit
  infer_instance

instance (op : Opcode) (a : Int) : Advances stream room (emitOperand op a) := by
  unfold emitOperand
  infer_instance

instance (op : Opcode) : Advances stream room (emitJump op) := by
  unfold emitJump
  infer_instance

instance (jump : Nat) : Advances stream room (patchJump jump) := by
  unfold patchJump
  infer_instance

instance (target : Nat) : Advances stream room (emitLoop target) := by
  unfold emitLoop
  infer_instance

instance : Advances stream room emitReturnNil := by
  unfold emitReturnNil
  infer_instance

instance (value : Value) : Advances stream room (makeConstant value) := by
  have known : ∀ state : State, Advances stream room (match value.object?.bind fun id =>
      state.draft.body.constants.findIdx? fun other => other.object? == some id with
    | some index => return (index : Int)
    | none =>
      if maxConstants ≤ state.draft.body.constants.size then do
        error .tooManyConstants
        return 0
      else do
        modifyBody fun body => { body with constants := body.constants.push value }
        return (state.draft.body.constants.size : Int) : Compile Int) := by
    intro state
    split <;> infer_instance
  unfold makeConstant
  exact inferInstanceAs (Advances stream room (_ >>= _))

instance (text : Text) : Advances stream room (textConstant text) := by
  unfold textConstant
  infer_instance

instance : Advances stream room beginScope := by
  unfold beginScope
  infer_instance

instance : Advances stream room endScope := by
  unfold endScope
  dsimp only
  infer_instance

instance (name : Token) : Advances stream room (declareLocal name) := by
  unfold declareLocal
  dsimp only
  infer_instance

instance : Advances stream room markInitialized := by
  unfold markInitialized
  infer_instance

instance (shape : Shape) : Advances stream room (shapeNewest shape) := by
  unfold shapeNewest
  infer_instance

instance (found : Variable) : Advances stream room (checkReadable found) := by
  unfold checkReadable
  infer_instance

instance (name : Text) : Advances stream room (resolveLocal name) := by
  have found : ∀ draft : Draft, Advances stream room (match draft.findLocal name with
      | some (slot, found) => do
        checkReadable found
        return some slot
      | none => return none : Compile (Option Nat)) := by
    intro draft
    split <;> infer_instance
  unfold resolveLocal
  infer_instance

instance (name : Text) : Advances stream room (resolveUpvalue name) where
  halts {state} place within := by
    have complains : Advances stream room (do
        for problem in (capture name state.draft state.enclosing).problems do
          error problem
        return (capture name state.draft state.enclosing).index : Compile (Option Nat)) :=
      inferInstance
    exact complains.halts (place.of_same rfl fun _ => rfl) within

instance (id : StructId) : Advances stream room (structName id) := by
  unfold structName
  infer_instance

instance : Advances stream room beginBranch := by
  unfold beginBranch
  infer_instance

instance : Advances stream room endBranch := by
  unfold endBranch
  infer_instance

instance (target : Shape) (name : Text) (given : Nat) :
    Advances stream room (Grammar.checkMethodArity target name given) := by
  have compares : ∀ arity : Option Nat, Advances stream room (match arity with
      | some arity =>
        if given != arity then
          error (.wrongArity arity given)
        else pure PUnit.unit
      | none => pure () : Compile Unit) := by
    intro arity
    cases arity <;> dsimp only <;> infer_instance
  unfold Grammar.checkMethodArity
  dsimp only
  infer_instance

instance (kind : FunctionKind) (name : Text) :
    Advances stream room (Grammar.beginFunction kind name) := by
  have opens : ∀ id : ObjectId, Advances stream room (modify fun state : State =>
      let receiver : Variable :=
        { name := if kind == .method then ascii "self" else []
          depth := some 0
          shape := .unknownOf state.implType }
      { state with
        draft := { id, kind, name, body := { isMethod := kind == .method }, locals := [receiver] }
        enclosing := state.draft :: state.enclosing } : Compile Unit) :=
    fun _ => advances_modify (fun _ => rfl) fun _ _ => rfl
  unfold Grammar.beginFunction
  infer_instance

instance : Advances stream room Grammar.endFunction where
  halts {state} place _ := by
    unfold Grammar.endFunction Halts
    rw [modifyGet_run]
    dsimp only
    split <;> exact ⟨place.of_same rfl fun _ => rfl, Nat.le_refl _⟩

/-- A round of a list of things up to a closing token. -/
theorem pays_upTo {α σ : Type} (close : TokenKind) (value : σ) {action : Compile α} (next : α → σ)
    (eats : 0 < room → Eats stream room action) : Pays stream room (do
      if (← check close) || (← atEnd) then return (value, false)
      return (next (← action), true) : Compile (σ × Bool)) := by
  have round : ∀ closed : Bool, Pays stream room (do
      if closed || (← atEnd) then return (value, false)
      return (next (← action), true) : Compile (σ × Bool)) := by
    intro closed
    refine pays_unlessEnd (Bool.or_true closed) fun waiting => ?_
    have passes := eats waiting
    infer_instance
  infer_instance

/-- Recovering takes a round for each word that is skipped. -/
theorem advances_synchronize {bound : Nat} (enough : room < bound) :
    Advances stream room (synchronize bound) := by
  have calms : Advances stream room
      (modify fun state : State => { state with panicking := false } : Compile Unit) :=
    advances_modify (fun _ => rfl) fun _ _ => rfl
  unfold synchronize
  refine calms.andThen fun _ => advances_iterate enough (fun _ => ?_) ()
  refine pays_unlessEnd ?ends fun _ => inferInstance
  rfl

end Resting

end ScriptMachine.Compiler
