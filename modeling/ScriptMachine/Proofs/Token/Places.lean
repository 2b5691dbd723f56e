import Mathlib.Data.List.Induction
import ScriptMachine.Proofs.Token.RoundTrip

set_option autoImplicit false

/- Where tokens stand. A source is its tokens' lexemes with blanks and comments between them, and a
token reports the line and the column at which its lexeme begins; only an open escape reports the
end of the source. What separates tokens and how a token is written are said without the scanner. -/
namespace ScriptMachine.Token

/-- The number of the line on which the byte behind `before` stands. -/
def lineBehind (before : Text) : Nat :=
  1 + before.count Text.newline

/-- The number of the column in which the byte behind `before` stands. -/
def columnBehind (before : Text) : Nat :=
  1 + (before.reverse.takeWhile (· != Text.newline)).length

/-- No block comment that began before `body` ends inside it. -/
def NeverCloses (body : Text) : Prop :=
  ¬ [42, 47] <:+: body

/-- What separates tokens: blanks and complete comments. A line comment reaches to a line end or to
the end of the source, and a block comment to the first end mark; `behind` is what follows. -/
inductive Filler : (filler behind : Text) → Prop where
  | none (behind : Text) : Filler [] behind
  | blank {byte : UInt8} {filler behind : Text} : byte ∈ [32, 9, 13, 10] → Filler filler behind →
      Filler (byte :: filler) behind
  | line {body filler behind : Text} : (∀ byte ∈ body, byte ≠ Text.newline) →
      (∀ next ∈ (filler ++ behind).head?, next = Text.newline) → Filler filler behind →
      Filler (47 :: 47 :: body ++ filler) behind
  | block {body filler behind : Text} : NeverCloses (body ++ [42]) → Filler filler behind →
      Filler (47 :: 42 :: body ++ 42 :: 47 :: filler) behind

/-- The source of a string between its quotes, and the contents it denotes. -/
inductive Spells : (source contents : Text) → Prop where
  | nil : Spells [] []
  | byte {byte : UInt8} {source contents : Text} : byte ≠ 34 → byte ≠ 92 → Spells source contents →
      Spells (byte :: source) (byte :: contents)
  | escaped (byte : UInt8) {source contents : Text} : Spells source contents →
      Spells (92 :: byte :: source) (decodeEscape byte :: contents)

/-- How a token is written; `behind` is what follows its lexeme. A malformed one that is open takes
all that is left. -/
inductive Written : TokenKind → (text lexeme behind : Text) → Prop where
  | plain {kind : TokenKind} {text : Text} (behind : Text) : kind ≠ .string → WellFormed kind text →
      Written kind text text behind
  | string {source contents : Text} (behind : Text) : Spells source contents →
      Written .string contents (34 :: source ++ [34]) behind
  | unexpectedByte {byte : UInt8} (behind : Text) : byte ∉ [32, 9, 13, 10] →
      (∀ kind text, WellFormed kind text → (lexeme (kind, text)).head? ≠ some byte) →
      Written .malformed Defect.unexpectedByte.message [byte] behind
  | openComment {body : Text} : NeverCloses body →
      Written .malformed Defect.openComment.message (47 :: 42 :: body) []
  | openString {source contents : Text} : Spells source contents →
      Written .malformed Defect.openString.message (34 :: source) []
  | openEscape {source contents : Text} : Spells source contents →
      Written .malformed Defect.openEscape.message (34 :: source ++ [92]) []

/-- A token with its place in the source: what separates it from the token before, its lexeme, and
the number of bytes before the lexeme. -/
structure Place where
  filler : Text
  lexeme : Text
  offset : Nat
  token : Token

/-- The source that some neighbouring places take up. -/
def sourceOf (places : List Place) : Text :=
  places.flatMap fun place => place.filler ++ place.lexeme

/-- Whether a token complains of a backslash at the end of the source. -/
def IsOpenEscape (token : Token) : Prop :=
  token.kind = .malformed ∧ token.text = Defect.openEscape.message

/-- A place is right when it stands between `done` and `behind`. A token reports where its lexeme
begins, but an open escape where the source ends. -/
structure Place.Right (done : Text) (place : Place) (behind : Text) : Prop where
  offset : place.offset = (done ++ place.filler).length
  separated : Filler place.filler (place.lexeme ++ behind)
  written : Written place.token.kind place.token.text place.lexeme behind
  begins : ¬ IsOpenEscape place.token →
    place.token.line = lineBehind (done ++ place.filler) ∧
      place.token.column = columnBehind (done ++ place.filler)
  ends : IsOpenEscape place.token →
    place.token.line = lineBehind (done ++ place.filler ++ place.lexeme ++ behind) ∧
      place.token.column = columnBehind (done ++ place.filler ++ place.lexeme ++ behind)

/-- Places one behind the other, the first one behind `done` and the last one before `closing`. -/
def Laid (closing : Text) : (done : Text) → List Place → Prop
  | _, [] => True
  | done, place :: rest =>
    place.Right done (sourceOf rest ++ closing) ∧
      Laid closing (done ++ place.filler ++ place.lexeme) rest

section Positions

theorem columnBehind_append (before : Text) (byte : UInt8) :
    columnBehind (before ++ [byte])
      = if byte = Text.newline then 1 else columnBehind before + 1 := by
  by_cases ends : byte = Text.newline <;> simp [columnBehind, ends]
  omega

/-- Counting from the start gives the line and the column. -/
theorem advance_start (before : Text) :
    Position.start.advance before = ⟨lineBehind before, columnBehind before⟩ := by
  induction before using List.reverseRecOn with
  | nil => rfl
  | append_singleton before byte ih =>
    unfold Position.advance at ih ⊢
    rw [List.foldl_append, ih, columnBehind_append]
    by_cases ends : byte = Text.newline <;>
      simp [Position.next, lineBehind, ends, Nat.add_assoc]

theorem advance_append (position : Position) (first second : Text) :
    (position.advance first).advance second = position.advance (first ++ second) := by
  simp [Position.advance, List.foldl_append]

end Positions

section Stretches

variable {first : UInt8} {rest : Text}

/-- A comment is as long as it takes to reach its first end mark. -/
theorem commentLength_closed {source : Text} {start count : Nat}
    (closes : commentLength source start = some count) :
    ∃ body behind, source = body ++ 42 :: 47 :: behind ∧ NeverCloses (body ++ [42]) ∧
      count = start + body.length + 2 := by
  fun_induction commentLength source start with
  | case1 behind start =>
    cases closes
    refine ⟨[], behind, rfl, ?_, rfl⟩
    rintro inside
    simpa using inside.length_le
  | case2 byte rest start other ih =>
    obtain ⟨body, behind, rfl, never, rfl⟩ := ih closes
    refine ⟨byte :: body, behind, rfl, ?_, by simp only [List.length_cons]; omega⟩
    rw [NeverCloses, List.cons_append, List.infix_cons_iff, not_or]
    refine ⟨fun begins => ?_, never⟩
    obtain ⟨tail, joined⟩ := begins
    cases body with
    | nil => simp at joined
    | cons next body =>
      simp only [List.cons_append, List.cons.injEq] at joined
      exact other _ joined.1.symm (by rw [List.cons_append, ← joined.2.1])
  | case3 => cases closes

theorem commentLength_open {source : Text} {start : Nat}
    (stays : commentLength source start = none) : NeverCloses source := by
  fun_induction commentLength source start with
  | case1 => cases stays
  | case2 byte rest start other ih =>
    rw [NeverCloses, List.infix_cons_iff, not_or]
    refine ⟨?_, ih stays⟩
    rintro ⟨tail, joined⟩
    simp only [List.cons_append, List.nil_append, List.cons.injEq] at joined
    exact other tail joined.1.symm joined.2.symm
  | case3 => simp [NeverCloses]

theorem drop_takeWhile (keep : UInt8 → Bool) (rest : Text) :
    rest.drop (rest.takeWhile keep).length = rest.dropWhile keep := by
  calc rest.drop (rest.takeWhile keep).length
      = (rest.takeWhile keep ++ rest.dropWhile keep).drop (rest.takeWhile keep).length := by
        rw [List.takeWhile_append_dropWhile]
    _ = rest.dropWhile keep := List.drop_left

theorem take_prefix {text : Text} (begins : text <+: rest) : rest.take text.length = text :=
  (List.prefix_iff_eq_take.mp begins).symm

/-- What a stretch says of the bytes it takes up: they separate tokens in front of whatever
separates them behind, or they are how its token is written. -/
def Stretch.Read (piece : Stretch) (first : UInt8) (rest : Text) : Prop :=
  match piece.meaning with
  | .blank => ∀ filler behind, rest.drop piece.extra = filler ++ behind → Filler filler behind →
      Filler (first :: rest.take piece.extra ++ filler) behind
  | .token kind text => Written kind text (first :: rest.take piece.extra) (rest.drop piece.extra)
  | .defect what =>
    Written .malformed what.message (first :: rest.take piece.extra) (rest.drop piece.extra)

theorem lineStretch_read (rest : Text) :
    Stretch.Read ⟨.blank, ((47 :: rest).takeWhile (· != Text.newline)).length⟩ 47 (47 :: rest) := by
  intro filler behind follows separated
  have reaches : (47 :: rest).takeWhile (· != Text.newline)
      = 47 :: rest.takeWhile (· != Text.newline) := List.takeWhile_cons_of_pos rfl
  dsimp only at follows ⊢
  rw [reaches, List.length_cons] at follows ⊢
  rw [List.drop_succ_cons] at follows
  rw [List.take_succ_cons, take_prefix (List.takeWhile_prefix _)]
  refine .line (fun byte inside => ?_) (fun next isNext => ?_) separated
  · simpa using List.all_eq_true.mp List.all_takeWhile byte inside
  · rw [← follows, drop_takeWhile] at isNext
    have stops := List.head?_dropWhile_not (· != Text.newline) rest
    rw [Option.mem_def.mp isNext] at stops
    simpa using stops

theorem commentStretch_read (rest : Text) :
    (commentStretch (42 :: rest)).Read 47 (42 :: rest) := by
  unfold commentStretch
  rw [List.drop_succ_cons, List.drop_zero]
  split
  · next closes =>
    obtain ⟨body, beyond, rfl, never, rfl⟩ := commentLength_closed closes
    intro filler behind follows separated
    have ends : body ++ 42 :: 47 :: beyond = (body ++ [42, 47]) ++ beyond := by simp
    have size : 1 + body.length + 2 = (body ++ [42, 47]).length + 1 := by simp; omega
    dsimp only at follows ⊢
    rw [size, ends, List.drop_succ_cons, List.drop_left] at follows
    rw [size, ends, List.take_succ_cons, List.take_left]
    simpa using Filler.block never separated
  · next stays =>
    simp only [Stretch.Read, List.take_length, List.drop_length]
    exact .openComment (commentLength_open stays)

theorem plain_read {kind : TokenKind} {text : Text} (other : kind ≠ .string)
    (wellFormed : WellFormed kind (first :: text)) (begins : text <+: rest) :
    Stretch.Read ⟨.token kind (first :: text), text.length⟩ first rest := by
  simp only [Stretch.Read, take_prefix begins]
  exact .plain _ other wellFormed

theorem wordKind_ne_string (word : Text) : wordKind word ≠ .string := by
  unfold wordKind
  cases found : keywords.lookup word with
  | none => exact nofun
  | some kind => exact (keyword_word _ (mem_of_lookup found)).2.2.2

theorem numberStretch_read (isDigit : Text.isDigit first = true) :
    (numberStretch first rest).Read first rest := by
  have digits : ∀ byte ∈ first :: rest.takeWhile Text.isDigit, Text.isDigit byte = true := by
    rw [List.forall_mem_cons]
    exact ⟨isDigit, List.all_eq_true.mp List.all_takeWhile⟩
  have whole : rest.takeWhile Text.isDigit <+: rest := List.takeWhile_prefix _
  unfold numberStretch
  dsimp only
  split
  · next digit tail point =>
    split
    · next isPlace =>
      have places : ∀ byte ∈ digit :: tail.takeWhile Text.isDigit, Text.isDigit byte = true := by
        rw [List.forall_mem_cons]
        exact ⟨isPlace, List.all_eq_true.mp List.all_takeWhile⟩
      have more : 46 :: digit :: tail.takeWhile Text.isDigit <+: 46 :: digit :: tail :=
        (List.prefix_cons_inj _).mpr ((List.prefix_cons_inj _).mpr (List.takeWhile_prefix _))
      have begins : rest.takeWhile Text.isDigit ++ 46 :: digit :: tail.takeWhile Text.isDigit
          <+: rest := by
        conv => rhs; rw [← List.prefix_iff_eq_append.mp whole, point]
        exact (List.prefix_append_right_inj _).mpr more
      rw [← List.length_append]
      exact plain_read nofun (.fraction (List.cons_ne_nil _ _) (List.cons_ne_nil _ _) digits places)
        begins
    · exact plain_read nofun (.whole (List.cons_ne_nil _ _) digits) whole
  · exact plain_read nofun (.whole (List.cons_ne_nil _ _) digits) whole

/-- A string literal behind its opening quote ends at a quote, or it is open. -/
theorem stringBody_spells (source before : Text) (count : Nat) :
    ∃ inside contents, Spells inside contents ∧
      ((∃ behind, source = inside ++ 34 :: behind ∧ stringBody source before count
          = ⟨.token .string (before.reverse ++ contents), count + inside.length + 1⟩) ∨
        (source = inside ∧
          stringBody source before count = ⟨.defect .openString, count + inside.length⟩) ∨
        (source = inside ++ [92] ∧
          stringBody source before count = ⟨.defect .openEscape, count + inside.length + 1⟩)) := by
  fun_induction stringBody source before count with
  | case1 before count => exact ⟨[], [], .nil, Or.inr (Or.inl ⟨rfl, rfl⟩)⟩
  | case2 behind before count => exact ⟨[], [], .nil, Or.inl ⟨behind, rfl, by simp⟩⟩
  | case3 before count => exact ⟨[], [], .nil, Or.inr (Or.inr ⟨rfl, rfl⟩)⟩
  | case4 escaped rest before count ih =>
    obtain ⟨inside, contents, spells, ends⟩ := ih
    refine ⟨92 :: escaped :: inside, decodeEscape escaped :: contents, .escaped escaped spells, ?_⟩
    simpa [Nat.add_assoc, Nat.add_comm, Nat.add_left_comm] using ends
  | case5 byte rest before count notQuote lone notEscape ih =>
    obtain ⟨inside, contents, spells, ends⟩ := ih
    have notBackslash : byte ≠ 92 := by
      rintro rfl
      cases rest with
      | nil => exact lone rfl rfl
      | cons escaped rest => exact notEscape _ _ rfl rfl
    refine ⟨byte :: inside, byte :: contents, .byte (fun h => notQuote h) notBackslash spells, ?_⟩
    simpa [Nat.add_assoc, Nat.add_comm, Nat.add_left_comm] using ends

theorem stringStretch_read (rest : Text) : (stringBody rest [] 0).Read 34 rest := by
  obtain ⟨inside, contents, spells, ⟨behind, rfl, reads⟩ | ⟨rfl, reads⟩ | ⟨rfl, reads⟩⟩ :=
    stringBody_spells rest [] 0
  · have ends : inside ++ 34 :: behind = (inside ++ [34]) ++ behind := by simp
    have size : 0 + inside.length + 1 = (inside ++ [34]).length := by simp
    rw [Stretch.Read, reads, ends, size]
    simp only [List.take_left, List.drop_left, List.reverse_nil, List.nil_append]
    exact .string _ spells
  · rw [Nat.zero_add] at reads
    simp only [Stretch.Read, reads, List.take_length, List.drop_length]
    exact .openString spells
  · have size : 0 + inside.length + 1 = (inside ++ [92]).length := by simp
    rw [size] at reads
    simp only [Stretch.Read, reads, List.take_length, List.drop_length]
    exact .openEscape spells

theorem mark_ne_string {byte : UInt8} {kind : TokenKind} (member : (byte, kind) ∈ punctuation) :
    kind ≠ .string := by
  rintro rfl
  simp [punctuation] at member

theorem comparison_ne_string {byte : UInt8} {alone withEqual : TokenKind}
    (member : (byte, alone, withEqual) ∈ comparisons) : alone ≠ .string ∧ withEqual ≠ .string := by
  constructor <;> rintro rfl <;> simp [comparisons] at member

/-- The bytes a word can begin with. -/
theorem begins_word {kind : TokenKind} {text : Text} (wellFormed : WellFormed kind text)
    {byte : UInt8} (begins : (lexeme (kind, text)).head? = some byte) :
    startsWord byte = true ∨ Text.isDigit byte = true ∨ byte = 34 ∨
      (∃ kind, (byte, kind) ∈ punctuation) ∨ ∃ kinds, (byte, kinds) ∈ comparisons := by
  cases wellFormed with
  | identifier starts continues free =>
    cases begins
    exact Or.inl starts
  | keyword member =>
    obtain ⟨_, starts, _, other⟩ := keyword_word _ member
    rw [lexeme_of_ne other] at begins
    rw [begins] at starts
    exact Or.inl starts
  | whole nonempty digits =>
    exact Or.inr (Or.inl (digits byte (List.mem_of_head? begins)))
  | @fraction digits _ nonempty _ areDigits _ =>
    cases digits with
    | nil => exact absurd rfl nonempty
    | cons digit digits =>
      cases begins
      exact Or.inr (Or.inl (areDigits byte List.mem_cons_self))
  | string =>
    cases begins
    exact Or.inr (Or.inr (Or.inl rfl))
  | mark member =>
    rw [lexeme_of_ne (mark_ne_string member)] at begins
    cases begins
    exact Or.inr (Or.inr (Or.inr (Or.inl ⟨_, member⟩)))
  | alone member =>
    rw [lexeme_of_ne (comparison_ne_string member).1] at begins
    cases begins
    exact Or.inr (Or.inr (Or.inr (Or.inr ⟨_, member⟩)))
  | withEqual member =>
    rw [lexeme_of_ne (comparison_ne_string member).2] at begins
    cases begins
    exact Or.inr (Or.inr (Or.inr (Or.inr ⟨_, member⟩)))

theorem operatorStretch_read (noBlank : isBlank first = false) (noWord : startsWord first = false)
    (noDigit : Text.isDigit first = false) (noQuote : first ≠ Text.quote) :
    (operatorStretch first rest).Read first rest := by
  unfold operatorStretch
  split
  · next kind found =>
    have listed := mem_of_lookup found
    exact plain_read (mark_ne_string listed) (.mark listed) List.nil_prefix
  · next noMark =>
    split
    · next alone withEqual found =>
      split
      · next equal =>
        obtain ⟨rest, rfl⟩ : ∃ more, rest = 61 :: more :=
          List.head?_eq_some_iff.mp (beq_iff_eq.mp equal)
        exact plain_read (comparison_ne_string (mem_of_lookup found)).2
          (.withEqual (mem_of_lookup found)) ⟨rest, rfl⟩
      · exact plain_read (comparison_ne_string (mem_of_lookup found)).1
          (.alone (mem_of_lookup found)) List.nil_prefix
    · next noComparison =>
      refine .unexpectedByte _ ?_ fun kind text wellFormed begins => ?_
      · simpa [isBlank, not_or, and_assoc] using noBlank
      · rcases begins_word wellFormed begins with starts | isDigit | quote | ⟨kind, member⟩ |
          ⟨kinds, member⟩
        · rw [noWord] at starts
          cases starts
        · rw [noDigit] at isDigit
          cases isDigit
        · exact noQuote quote
        · exact absurd (List.lookup_eq_none_iff.mp noMark _ member) (by simp)
        · exact absurd (List.lookup_eq_none_iff.mp noComparison _ member) (by simp)

theorem stretch_read (first : UInt8) (rest : Text) : (stretch first rest).Read first rest := by
  unfold stretch
  split
  · next blank =>
    intro filler behind follows separated
    refine .blank ?_ (by simpa using separated)
    simpa [isBlank, or_assoc] using blank
  split
  · next opens =>
    simp only [Bool.and_eq_true, beq_iff_eq] at opens
    obtain ⟨rfl, second⟩ := opens
    obtain ⟨rest, rfl⟩ := List.head?_eq_some_iff.mp second
    exact lineStretch_read rest
  split
  · next opens =>
    simp only [Bool.and_eq_true, beq_iff_eq] at opens
    obtain ⟨rfl, second⟩ := opens
    obtain ⟨rest, rfl⟩ := List.head?_eq_some_iff.mp second
    exact commentStretch_read rest
  split
  · next starts =>
    exact plain_read (wordKind_ne_string _)
      (wordKind_wellFormed starts (List.all_eq_true.mp List.all_takeWhile))
      (List.takeWhile_prefix _)
  split
  · next isDigit => exact numberStretch_read isDigit
  split
  · next opens =>
    obtain rfl := beq_iff_eq.mp opens
    exact stringStretch_read rest
  · next blank _ _ word digit quote =>
    exact operatorStretch_read (by simpa using blank) (by simpa using word) (by simpa using digit)
      (by simpa using quote)

end Stretches

section Scanning

theorem keyword_readable : ∀ entry ∈ keywords, entry.2 ≠ .malformed := by
  decide

theorem WellFormed.readable {kind : TokenKind} {text : Text} (wellFormed : WellFormed kind text) :
    kind ≠ .malformed := by
  cases wellFormed with
  | keyword member => exact keyword_readable _ member
  | mark member =>
    rintro rfl
    simp [punctuation] at member
  | alone member | withEqual member =>
    rintro rfl
    simp [comparisons] at member
  | identifier | whole | fraction | string =>
    intro same
    cases same

/-- Nothing stands behind an open escape. -/
theorem Written.ends_source {token : Token} {lexeme behind : Text}
    (written : Written token.kind token.text lexeme behind) (isOpen : IsOpenEscape token) :
    behind = [] := by
  obtain ⟨isKind, isText⟩ := isOpen
  generalize token.kind = kind, token.text = text at written isKind isText
  cases written with
  | plain _ _ wellFormed => exact absurd isKind wellFormed.readable
  | string => cases isKind
  | unexpectedByte => exact absurd isText (by decide +kernel)
  | openComment | openString | openEscape => rfl

/-- What is not blank is a right place, with nothing in front of its token. -/
theorem right_of_stretch {done rest : Text} {first : UInt8} {token : Token}
    (means : ofMeaning (Position.start.advance done)
      (Position.start.advance (done ++ first :: rest.take (stretch first rest).extra))
      (stretch first rest).meaning = some token) :
    Place.Right done ⟨[], first :: rest.take (stretch first rest).extra, done.length, token⟩
      (rest.drop (stretch first rest).extra) := by
  have reads := stretch_read first rest
  rw [advance_start, advance_start] at means
  cases found : stretch first rest with
  | mk meaning extra =>
    simp only [found, Stretch.Read] at means reads ⊢
    cases meaning with
    | blank => cases means
    | token kind text =>
      cases means
      have readable : ¬ IsOpenEscape ⟨kind, text, lineBehind done, columnBehind done⟩ :=
        fun isOpen => (stretch_wellFormed found).readable isOpen.1
      exact ⟨by simp, .none _, reads, fun _ => by simp, fun isOpen => absurd isOpen readable⟩
    | defect what =>
      have isOpen : IsOpenEscape token ↔ what = .openEscape := by
        cases what <;> cases means <;>
          simp only [IsOpenEscape, true_and, reduceCtorEq, iff_false] <;> decide +kernel
      have isWritten :
          Written token.kind token.text (first :: rest.take extra) (rest.drop extra) := by
        cases what <;> cases means <;> exact reads
      refine ⟨by simp, .none _, isWritten, fun closed => ?_, fun opened => ?_⟩
      · cases what with
        | openEscape => exact absurd (isOpen.mpr rfl) closed
        | unexpectedByte | openComment | openString =>
          cases means
          simp
      · rw [isWritten.ends_source opened]
        obtain rfl := isOpen.mp opened
        cases means
        simp

theorem Laid.separated {closing done blanks : Text} {place : Place} {rest : List Place}
    (laid : Laid closing (done ++ blanks) (place :: rest))
    (separated : Filler (blanks ++ place.filler) (place.lexeme ++ (sourceOf rest ++ closing))) :
    Laid closing done ({ place with filler := blanks ++ place.filler } :: rest) := by
  obtain ⟨right, behind⟩ := laid
  have joined : done ++ blanks ++ place.filler = done ++ (blanks ++ place.filler) :=
    List.append_assoc ..
  rw [joined] at behind
  refine ⟨⟨?_, separated, right.written, ?_, ?_⟩, behind⟩
  · rw [← joined]
    exact right.offset
  · rw [← joined]
    exact right.begins
  · rw [← joined]
    exact right.ends

/-- A stretch without a token separates tokens. -/
theorem filler_of_stretch {position behind : Position} {first : UInt8} {rest filler beyond : Text}
    (means : ofMeaning position behind (stretch first rest).meaning = none)
    (follows : rest.drop (stretch first rest).extra = filler ++ beyond)
    (separated : Filler filler beyond) :
    Filler (first :: rest.take (stretch first rest).extra ++ filler) beyond := by
  have reads := stretch_read first rest
  unfold Stretch.Read at reads
  cases found : (stretch first rest).meaning with
  | blank =>
    rw [found] at reads
    exact reads filler beyond follows separated
  | token kind text =>
    rw [found] at means
    cases means
  | defect what =>
    rw [found] at means
    cases what <;> cases means

/-- Scanning what is left of a source adds the tokens of some right places and the end. -/
theorem scanFrom_laid (done source : Text) (tokens : Array Token) :
    ∃ (places : List Place) (closing : Text),
      (scanFrom (Position.start.advance done) source tokens).toList
        = tokens.toList ++ places.map Place.token
          ++ [⟨.finish, [], lineBehind (done ++ source), columnBehind (done ++ source)⟩] ∧
      sourceOf places ++ closing = source ∧ Filler closing [] ∧ Laid closing done places := by
  induction source using words.induct generalizing done tokens with
  | case1 =>
    refine ⟨[], [], ?_, rfl, .none _, trivial⟩
    rw [scanFrom, advance_start]
    simp
  | case2 first rest ih =>
    have split :
        rest.take (stretch first rest).extra ++ rest.drop (stretch first rest).extra = rest :=
      List.take_append_drop _ _
    rw [scanFrom, advance_append]
    cases means : ofMeaning (Position.start.advance done)
      (Position.start.advance (done ++ first :: rest.take (stretch first rest).extra))
      (stretch first rest).meaning with
    | some token =>
      obtain ⟨places, closing, scanned, covers, closes, laid⟩ :=
        ih (done ++ first :: rest.take (stretch first rest).extra) (tokens.push token)
      have right := right_of_stretch means
      rw [← covers] at right
      refine ⟨_ :: places, closing, ?_, ?_, closes, right, ?_⟩
      · rw [scanned, List.append_assoc done, List.cons_append, split]
        simp
      · change first :: rest.take (stretch first rest).extra ++ sourceOf places ++ closing = _
        rw [List.append_assoc, covers, List.cons_append, split]
      · simpa using laid
    | none =>
      obtain ⟨places, closing, scanned, covers, closes, laid⟩ :=
        ih (done ++ first :: rest.take (stretch first rest).extra) tokens
      rw [List.append_assoc done, List.cons_append, split] at scanned
      cases places with
      | nil =>
        refine ⟨[], first :: rest.take (stretch first rest).extra ++ closing, scanned, ?_, ?_,
          trivial⟩
        · have covered : closing = rest.drop (stretch first rest).extra := covers
          rw [covered, List.cons_append, split]
          rfl
        · exact filler_of_stretch means (by simpa [sourceOf] using covers.symm) closes
      | cons place places =>
        refine ⟨{ place with
            filler := first :: rest.take (stretch first rest).extra ++ place.filler }
          :: places, closing, scanned, ?_, closes, laid.separated ?_⟩
        · have covered : place.filler ++ (place.lexeme ++ (sourceOf places ++ closing))
              = rest.drop (stretch first rest).extra := by simpa [sourceOf] using covers
          change first :: rest.take (stretch first rest).extra ++ place.filler ++ place.lexeme
            ++ sourceOf places ++ closing = _
          simp only [List.append_assoc, covered, List.cons_append, split]
        · refine filler_of_stretch means ?_ laid.1.separated
          simpa [sourceOf] using covers.symm

/-- A lexeme has at least one byte. -/
theorem Written.nonempty {kind : TokenKind} {text lexeme behind : Text}
    (written : Written kind text lexeme behind) : 0 < lexeme.length := by
  cases written with
  | plain _ other wellFormed =>
    cases wellFormed with
    | keyword member =>
      obtain ⟨_, starts, _⟩ := keyword_word _ member
      cases text with
      | nil => cases starts
      | cons => simp
    | whole nonempty => exact List.length_pos_iff.mpr nonempty
    | string => exact absurd rfl other
    | fraction =>
      rw [List.length_append, List.length_cons]
      omega
    | identifier | mark | alone | withEqual => simp
  | string | unexpectedByte | openComment | openString | openEscape => simp

/-- Places follow each other at growing offsets, which end before the end of the source. -/
theorem Laid.ascending {closing done : Text} {places : List Place}
    (laid : Laid closing done places) :
    (places.map Place.offset ++ [(done ++ sourceOf places ++ closing).length]).Pairwise (· < ·) ∧
      ∀ place ∈ places, done.length ≤ place.offset := by
  induction places generalizing done with
  | nil => simp
  | cons place places ih =>
    obtain ⟨right, behind⟩ := laid
    have longer := right.written.nonempty
    obtain ⟨ascending, above⟩ := ih behind
    have whole : done ++ sourceOf (place :: places) ++ closing
        = done ++ place.filler ++ place.lexeme ++ sourceOf places ++ closing := by
      simp [sourceOf]
    have offset := right.offset
    simp only [List.length_append] at offset above
    rw [whole, List.map_cons, List.cons_append, List.pairwise_cons]
    refine ⟨⟨fun later isLater => ?_, ascending⟩, ?_⟩
    · rcases List.mem_append.mp isLater with member | isEnd
      · obtain ⟨next, isNext, rfl⟩ := List.mem_map.mp member
        have beyond := above next isNext
        omega
      · rw [List.mem_singleton.mp isEnd]
        simp only [List.length_append]
        omega
    · rw [List.forall_mem_cons]
      refine ⟨by omega, fun next isNext => ?_⟩
      have beyond := above next isNext
      omega

theorem Laid.right {closing done : Text} {before after : List Place} {place : Place}
    (laid : Laid closing done (before ++ place :: after)) :
    place.Right (done ++ sourceOf before) (sourceOf after ++ closing) := by
  induction before generalizing done with
  | nil => simpa [sourceOf] using laid.1
  | cons first before ih => simpa [sourceOf] using ih laid.2

/-- An open escape is the last token before the end. -/
theorem Laid.openEscape_last {closing done : Text} {before after : List Place} {place : Place}
    (laid : Laid closing done (before ++ place :: after)) (isOpen : IsOpenEscape place.token) :
    after = [] ∧ closing = [] := by
  obtain ⟨nothing, closes⟩ := List.append_eq_nil_iff.mp (laid.right.written.ends_source isOpen)
  cases after with
  | nil => exact ⟨rfl, closes⟩
  | cons next after =>
    have again : Laid closing done ((before ++ [place]) ++ next :: after) := by simpa using laid
    have longer := again.right.written.nonempty
    simp_all [sourceOf]

/-- Every source is the lexemes of its tokens with blanks and complete comments between them, and
each token reports the line and the column of its lexeme's first byte; only an open escape, which is
the last token before the end, reports the end of the source. -/
theorem scan_places (source : Text) :
    ∃ (places : List Place) (closing : Text),
      scan source = places.map Place.token
        ++ [⟨.finish, [], lineBehind source, columnBehind source⟩] ∧
      sourceOf places ++ closing = source ∧ Filler closing [] ∧ Laid closing [] places ∧
      (places.map Place.offset ++ [source.length]).Pairwise (· < ·) ∧
      ∀ before place after, places = before ++ place :: after → IsOpenEscape place.token →
        after = [] ∧ closing = [] := by
  obtain ⟨places, closing, scanned, covers, closes, laid⟩ := scanFrom_laid [] source #[]
  refine ⟨places, closing, ?_, covers, closes, laid, ?_, ?_⟩
  · change (scanFrom (Position.start.advance []) source #[]).toList = _
    simpa using scanned
  · simpa [covers] using laid.ascending.1
  · rintro before place after rfl isOpen
    exact laid.openEscape_last isOpen

end Scanning

end ScriptMachine.Token
