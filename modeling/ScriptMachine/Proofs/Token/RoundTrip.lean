import ScriptMachine.Proofs.Token.Sequence

set_option autoImplicit false

/- Writing tokens and reading them back. Which words there can be is said without the scanner:
they are the words that a source without defects consists of, and the words that are read back when
they are written with blanks between them. -/
namespace ScriptMachine.Token

/-- The words that stand for themselves. -/
inductive WellFormed : TokenKind → Text → Prop where
  | identifier {first : UInt8} {rest : Text} : startsWord first = true →
      (∀ byte ∈ rest, continuesWord byte = true) → (∀ kind, (first :: rest, kind) ∉ keywords) →
      WellFormed .identifier (first :: rest)
  | keyword {text : Text} {kind : TokenKind} : (text, kind) ∈ keywords → WellFormed kind text
  | whole {digits : Text} : digits ≠ [] → (∀ byte ∈ digits, Text.isDigit byte = true) →
      WellFormed .number digits
  | fraction {digits places : Text} : digits ≠ [] → places ≠ [] →
      (∀ byte ∈ digits, Text.isDigit byte = true) → (∀ byte ∈ places, Text.isDigit byte = true) →
      WellFormed .number (digits ++ 46 :: places)
  | string (contents : Text) : WellFormed .string contents
  | mark {byte : UInt8} {kind : TokenKind} : (byte, kind) ∈ punctuation → WellFormed kind [byte]
  | alone {byte : UInt8} {kind other : TokenKind} : (byte, kind, other) ∈ comparisons →
      WellFormed kind [byte]
  | withEqual {byte : UInt8} {kind other : TokenKind} : (byte, other, kind) ∈ comparisons →
      WellFormed kind [byte, 61]

/-- The contents of a string as they stand between quotes: a quote and a backslash have a
backslash before them, and every other byte stands for itself. -/
def escape (contents : Text) : Text :=
  contents.flatMap fun byte => if byte == 34 || byte == 92 then [92, byte] else [byte]

/-- How a word is written. -/
def lexeme : Word → Text
  | (.string, contents) => Text.quoted (escape contents)
  | (_, text) => text

/-- The words with single blanks between them. -/
def render (tokens : List Word) : Text :=
  Text.join [32] (tokens.map lexeme)

/-- Where a word ends: at the end of the source or before a blank. -/
def Apart (rest : Text) : Prop :=
  rest = [] ∨ ∃ more, rest = 32 :: more

section Reading

variable {first : UInt8} {text rest : Text} {kind : TokenKind}

theorem takeWhile_apart {keep : UInt8 → Bool} (all : ∀ byte ∈ text, keep byte = true)
    (blank : keep 32 = false) (apart : Apart rest) : (text ++ rest).takeWhile keep = text := by
  rw [List.takeWhile_append_of_pos all]
  rcases apart with rfl | ⟨more, rfl⟩
  · simp
  · rw [List.takeWhile_cons_of_neg (by simp [blank]), List.append_nil]

theorem stretch_word (starts : startsWord first = true)
    (continues : ∀ byte ∈ text, continuesWord byte = true) (apart : Apart rest) :
    stretch first (text ++ rest)
      = ⟨.token (wordKind (first :: text)) (first :: text), text.length⟩ := by
  have noBlank : isBlank first = false := by grind [startsWord, Text.isLetter, isBlank]
  have noSlash : (first == 47) = false := by grind [startsWord, Text.isLetter]
  have ends := takeWhile_apart continues rfl apart
  simp [stretch, noBlank, noSlash, starts, ends]

theorem stretch_digit (isDigit : Text.isDigit first = true) (rest : Text) :
    stretch first rest = numberStretch first rest := by
  have noBlank : isBlank first = false := by grind [Text.isDigit, isBlank]
  have noSlash : (first == 47) = false := by grind [Text.isDigit]
  have noWord : startsWord first = false := by grind [Text.isDigit, startsWord, Text.isLetter]
  simp [stretch, noBlank, noSlash, noWord, isDigit]

theorem stretch_whole (isDigit : Text.isDigit first = true)
    (digits : ∀ byte ∈ text, Text.isDigit byte = true) (apart : Apart rest) :
    stretch first (text ++ rest) = ⟨.token .number (first :: text), text.length⟩ := by
  rw [stretch_digit isDigit, numberStretch, takeWhile_apart digits rfl apart, List.drop_left]
  rcases apart with rfl | ⟨more, rfl⟩ <;> rfl

theorem stretch_fraction {digit : UInt8} {places : Text} (isDigit : Text.isDigit first = true)
    (digits : ∀ byte ∈ text, Text.isDigit byte = true) (isPlace : Text.isDigit digit = true)
    (more : ∀ byte ∈ places, Text.isDigit byte = true) (apart : Apart rest) :
    stretch first (text ++ 46 :: digit :: places ++ rest)
      = ⟨.token .number (first :: text ++ 46 :: digit :: places),
        (text ++ 46 :: digit :: places).length⟩ := by
  have ends : (text ++ 46 :: digit :: (places ++ rest)).takeWhile Text.isDigit = text := by
    rw [List.takeWhile_append_of_pos digits, List.takeWhile_cons_of_neg (by decide), List.append_nil]
  rw [stretch_digit isDigit, numberStretch, List.append_assoc, List.cons_append, List.cons_append,
    ends, List.drop_left]
  simp [isPlace, takeWhile_apart more rfl apart]

theorem stringBody_escape (contents before : Text) (count : Nat) (rest : Text) :
    stringBody (escape contents ++ 34 :: rest) before count
      = ⟨.token .string (before.reverse ++ contents), count + (escape contents).length + 1⟩ := by
  induction contents generalizing before count with
  | nil => simp [escape, stringBody]
  | cons byte contents ih =>
    by_cases marked : byte = 34 ∨ byte = 92
    · have written : escape (byte :: contents) = 92 :: byte :: escape contents := by
        simp [escape, marked]
      have decodes : decodeEscape byte = byte := by rcases marked with rfl | rfl <;> rfl
      rw [written, List.cons_append, List.cons_append, stringBody, ih, decodes]
      simp
      omega
    · have written : escape (byte :: contents) = byte :: escape contents := by
        simp [escape, marked]
      rw [not_or] at marked
      rw [written, List.cons_append, stringBody, ih]
      · simp
        omega
      · exact marked.1
      · intro isBackslash
        exact absurd isBackslash marked.2
      · intro escaped more isBackslash
        exact absurd isBackslash marked.2

theorem stretch_string (contents rest : Text) :
    stretch 34 (escape contents ++ [34] ++ rest)
      = ⟨.token .string contents, (escape contents ++ [34]).length⟩ := by
  have reads := stringBody_escape contents [] 0 rest
  rw [List.append_assoc, List.singleton_append]
  simpa [stretch, isBlank, startsWord, Text.isLetter, Text.isDigit, Text.quote] using reads

theorem stretch_mark (mark : (first, kind) ∈ punctuation) (apart : Apart rest) :
    stretch first rest = ⟨.token kind [first], 0⟩ := by
  simp only [punctuation, List.mem_cons, Prod.mk.injEq, List.not_mem_nil, or_false] at mark
  rcases apart with rfl | ⟨more, rfl⟩ <;>
    rcases mark with ⟨rfl, rfl⟩ | ⟨rfl, rfl⟩ | ⟨rfl, rfl⟩ | ⟨rfl, rfl⟩ | ⟨rfl, rfl⟩ | ⟨rfl, rfl⟩
      | ⟨rfl, rfl⟩ | ⟨rfl, rfl⟩ | ⟨rfl, rfl⟩ | ⟨rfl, rfl⟩ | ⟨rfl, rfl⟩ | ⟨rfl, rfl⟩ <;> rfl

theorem stretch_comparison {alone withEqual : TokenKind}
    (comparison : (first, alone, withEqual) ∈ comparisons) :
    (Apart rest → stretch first rest = ⟨.token alone [first], 0⟩) ∧
      stretch first (61 :: rest) = ⟨.token withEqual [first, 61], 1⟩ := by
  simp only [comparisons, List.mem_cons, Prod.mk.injEq, List.not_mem_nil, or_false] at comparison
  refine ⟨fun apart => ?_, ?_⟩
  · rcases apart with rfl | ⟨more, rfl⟩ <;>
      rcases comparison with ⟨rfl, rfl, rfl⟩ | ⟨rfl, rfl, rfl⟩ | ⟨rfl, rfl, rfl⟩ | ⟨rfl, rfl, rfl⟩ <;>
        rfl
  · rcases comparison with ⟨rfl, rfl, rfl⟩ | ⟨rfl, rfl, rfl⟩ | ⟨rfl, rfl, rfl⟩ | ⟨rfl, rfl, rfl⟩ <;>
      rfl

/-- Keywords are words, and each is read as what it is reserved for. -/
theorem keyword_word : ∀ entry ∈ keywords, wordKind entry.1 = entry.2 ∧
    entry.1.head?.any startsWord = true ∧ entry.1.tail.all continuesWord = true ∧
      entry.2 ≠ .string := by
  decide

theorem lexeme_of_ne (other : kind ≠ .string) (text : Text) : lexeme (kind, text) = text := by
  cases kind <;> first | rfl | exact absurd rfl other

/-- A word that stands apart is read back. -/
theorem words_lexeme (wellFormed : WellFormed kind text) (apart : Apart rest) :
    words (lexeme (kind, text) ++ rest) = (kind, text) :: words rest := by
  cases wellFormed with
  | identifier starts continues free =>
    refine words_token (Eq.trans (stretch_word starts continues apart) ?_)
    have unknown : keywords.lookup (_ :: _) = none := List.lookup_eq_none_iff.mpr fun entry member => by
      rw [bne_iff_ne]
      rintro same
      exact free entry.2 (same ▸ member)
    rw [wordKind, unknown]
    rfl
  | keyword member =>
    obtain ⟨isKind, starts, continues, other⟩ := keyword_word _ member
    rw [lexeme_of_ne other]
    cases text with
    | nil => cases starts
    | cons first text =>
      refine words_token (Eq.trans (stretch_word starts (List.all_eq_true.mp continues) apart) ?_)
      rw [isKind]
  | whole nonempty digits =>
    cases text with
    | nil => exact absurd rfl nonempty
    | cons first text =>
      rw [List.forall_mem_cons] at digits
      exact words_token (stretch_whole digits.1 digits.2 apart)
  | @fraction digits places nonempty morePlaces areDigits arePlaces =>
    cases digits with
    | nil => exact absurd rfl nonempty
    | cons first digits =>
      cases places with
      | nil => exact absurd rfl morePlaces
      | cons digit places =>
        rw [List.forall_mem_cons] at areDigits arePlaces
        exact words_token (stretch_fraction areDigits.1 areDigits.2 arePlaces.1 arePlaces.2 apart)
  | string => exact words_token (stretch_string text rest)
  | mark member =>
    have other : kind ≠ .string := by
      rintro rfl
      simp [punctuation] at member
    rw [lexeme_of_ne other]
    exact words_token (stretch_mark member apart)
  | @alone byte _ withEqual member =>
    have other : kind ≠ .string := by
      rintro rfl
      simp [comparisons] at member
    rw [lexeme_of_ne other]
    exact words_token ((stretch_comparison member).1 apart)
  | @withEqual byte _ alone member =>
    have other : kind ≠ .string := by
      rintro rfl
      simp [comparisons] at member
    rw [lexeme_of_ne other]
    exact words_token (stretch_comparison member).2

/-- Words written with blanks between them are read back. -/
theorem words_render (tokens : List Word)
    (wellFormed : ∀ token ∈ tokens, WellFormed token.1 token.2) :
    words (render tokens) = tokens ++ [(.finish, [])] := by
  induction tokens with
  | nil =>
    change words [] = _
    rw [words]
    rfl
  | cons token tokens ih =>
    rw [List.forall_mem_cons] at wellFormed
    cases tokens with
    | nil =>
      have alone : render [token] = lexeme (token.1, token.2) ++ [] := by
        simp [render, Text.join]
      rw [alone, words_lexeme wellFormed.1 (Or.inl rfl), words]
      rfl
    | cons next tokens =>
      have joined : render (token :: next :: tokens)
          = lexeme (token.1, token.2) ++ 32 :: render (next :: tokens) := by
        simp [render, Text.join]
      rw [joined, words_lexeme wellFormed.1 (Or.inr ⟨_, rfl⟩), words_blank rfl, ih wellFormed.2]
      rfl

end Reading

section Legible

variable {first : UInt8} {rest text : Text} {kind : TokenKind} {extra : Nat}

theorem stringBody_string (source before : Text) (count : Nat)
    (reads : stringBody source before count = ⟨.token kind text, extra⟩) : kind = .string := by
  fun_induction stringBody source before count with
  | case1 => cases reads
  | case2 =>
    cases reads
    rfl
  | case3 => cases reads
  | case4 before count escaped rest ih => exact ih reads
  | case5 before count byte rest _ _ _ ih => exact ih reads

theorem mem_of_lookup {α β : Type} [BEq α] [LawfulBEq α] {table : List (α × β)} {key : α} {value : β}
    (found : table.lookup key = some value) : (key, value) ∈ table := by
  obtain ⟨before, behind, rfl, -⟩ := List.lookup_eq_some_iff.mp found
  simp

theorem operatorStretch_wellFormed
    (reads : operatorStretch first rest = ⟨.token kind text, extra⟩) : WellFormed kind text := by
  unfold operatorStretch at reads
  split at reads
  · next found =>
    cases reads
    exact .mark (mem_of_lookup found)
  · split at reads
    · next alone withEqual found =>
      split at reads
      · cases reads
        exact .withEqual (mem_of_lookup found)
      · cases reads
        exact .alone (mem_of_lookup found)
    · cases reads

theorem numberStretch_wellFormed (isDigit : Text.isDigit first = true)
    (reads : numberStretch first rest = ⟨.token kind text, extra⟩) : WellFormed kind text := by
  have digits : ∀ byte ∈ first :: rest.takeWhile Text.isDigit, Text.isDigit byte = true := by
    rw [List.forall_mem_cons]
    exact ⟨isDigit, List.all_eq_true.mp List.all_takeWhile⟩
  unfold numberStretch at reads
  dsimp only at reads
  split at reads
  · next digit tail _ =>
    split at reads
    · next isPlace =>
      cases reads
      refine .fraction (List.cons_ne_nil _ _) (List.cons_ne_nil _ _) digits ?_
      rw [List.forall_mem_cons]
      exact ⟨isPlace, List.all_eq_true.mp List.all_takeWhile⟩
    · cases reads
      exact .whole (List.cons_ne_nil _ _) digits
  · cases reads
    exact .whole (List.cons_ne_nil _ _) digits

theorem wordKind_wellFormed (starts : startsWord first = true)
    (continues : ∀ byte ∈ text, continuesWord byte = true) :
    WellFormed (wordKind (first :: text)) (first :: text) := by
  unfold wordKind
  cases found : keywords.lookup (first :: text) with
  | some kind => exact .keyword (mem_of_lookup found)
  | none =>
    refine .identifier starts continues fun kind member => ?_
    have other := List.lookup_eq_none_iff.mp found _ member
    simp at other

/-- Whatever a token stretch stands for is well-formed. -/
theorem stretch_wellFormed (reads : stretch first rest = ⟨.token kind text, extra⟩) :
    WellFormed kind text := by
  unfold stretch at reads
  split at reads
  · cases reads
  split at reads
  · cases reads
  split at reads
  · unfold commentStretch at reads
    split at reads <;> cases reads
  split at reads
  · next starts =>
    cases reads
    exact wordKind_wellFormed starts (List.all_eq_true.mp List.all_takeWhile)
  split at reads
  · next isDigit => exact numberStretch_wellFormed isDigit reads
  split at reads
  · obtain rfl := stringBody_string rest [] 0 reads
    exact .string text
  · exact operatorStretch_wellFormed reads

/-- A source without defects consists of well-formed words. -/
theorem words_wellFormed (source : Text)
    (legible : ∀ token ∈ words source, token.1 ≠ .malformed) :
    ∃ tokens : List Word, words source = tokens ++ [(.finish, [])] ∧
      ∀ token ∈ tokens, WellFormed token.1 token.2 := by
  fun_induction words source with
  | case1 => exact ⟨[], rfl, by simp⟩
  | case2 first rest ih =>
    simp only [List.mem_append] at legible
    obtain ⟨tokens, written, wellFormed⟩ := ih fun token member => legible token (Or.inr member)
    rw [written]
    cases reads : stretch first rest with
    | mk meaning extra =>
      cases meaning with
      | blank => exact ⟨tokens, rfl, wellFormed⟩
      | token kind text =>
        refine ⟨(kind, text) :: tokens, rfl, ?_⟩
        rw [List.forall_mem_cons]
        exact ⟨stretch_wellFormed reads, wellFormed⟩
      | defect what =>
        refine absurd rfl (legible (.malformed, what.message) (Or.inl ?_))
        rw [reads]
        exact List.mem_singleton.mpr rfl

end Legible

/-- Tokenizing undoes rendering, and every source without defects is one that has been rendered,
as far as its words go. -/
theorem scan_render :
    (∀ tokens : List Word, (∀ token ∈ tokens, WellFormed token.1 token.2) →
      (scan (render tokens)).map word = tokens ++ [(.finish, [])]) ∧
    ∀ source : Text, (∀ token ∈ scan source, token.kind ≠ .malformed) →
      ∃ tokens : List Word, (scan source).map word = tokens ++ [(.finish, [])] ∧
        (∀ token ∈ tokens, WellFormed token.1 token.2) ∧
        (scan (render tokens)).map word = (scan source).map word := by
  refine ⟨fun tokens wellFormed => ?_, fun source legible => ?_⟩
  · rw [scan_words, words_render tokens wellFormed]
  · have noDefect : ∀ token ∈ words source, token.1 ≠ .malformed := by
      rw [← scan_words, List.forall_mem_map]
      exact legible
    obtain ⟨tokens, written, wellFormed⟩ := words_wellFormed source noDefect
    refine ⟨tokens, ?_, wellFormed, ?_⟩
    · rw [scan_words, written]
    · rw [scan_words, scan_words, words_render tokens wellFormed, written]

/-- Neighbours that would run together without the blanks, and a string of awkward bytes. -/
def awkward : List Word :=
  [(.number, ascii "4"), (.dot, ascii "."), (.number, ascii "0.50"), (.slash, ascii "/"),
   (.star, ascii "*"), (.forWord, ascii "for"), (.identifier, ascii "form"),
   (.string, [34, 92, 0, 10, 110]), (.bang, ascii "!"), (.equal, ascii "="),
   (.bangEqual, ascii "!=")]

theorem scan_render_awkward : (∀ token ∈ awkward, WellFormed token.1 token.2) ∧
    (scan (render awkward)).map word = awkward ++ [(.finish, [])] := by
  have wellFormed : ∀ token ∈ awkward, WellFormed token.1 token.2 := by
    simp only [awkward, List.forall_mem_cons, List.not_mem_nil, false_implies, implies_true, and_true]
    have half : WellFormed .number ([48] ++ 46 :: [53, 48]) :=
      .fraction (by decide) (by decide) (by decide +kernel) (by decide +kernel)
    have form : WellFormed (wordKind (ascii "form")) (ascii "form") :=
      wordKind_wellFormed (by decide) (by decide +kernel)
    have bang : (33, TokenKind.bang, TokenKind.bangEqual) ∈ comparisons := by decide
    have equal : (61, TokenKind.equal, TokenKind.equalEqual) ∈ comparisons := by decide
    exact ⟨.whole (by decide) (by decide +kernel), .mark (by decide), half, .mark (by decide),
      .mark (by decide), .keyword (by decide), form, .string _, .alone bang, .alone equal,
      .withEqual bang⟩
  exact ⟨wellFormed, scan_render.1 awkward wellFormed⟩

end ScriptMachine.Token
