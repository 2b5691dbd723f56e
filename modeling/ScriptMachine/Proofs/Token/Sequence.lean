import ScriptMachine.Token.Scan

set_option autoImplicit false

/- The tokens of a source without their places. What a source says is what its stretches mean, one
behind the other, wherever the source begins. -/
namespace ScriptMachine.Token

/-- A token without its place. -/
abbrev Word := TokenKind × Text

def word (token : Token) : Word :=
  (token.kind, token.text)

/-- The word for a stretch; there is none for a blank. -/
def Meaning.words : Meaning → List Word
  | .blank => []
  | .token kind text => [(kind, text)]
  | .defect what => [(.malformed, what.message)]

/-- The words of a source, closed by `finish`. -/
def words : Text → List Word
  | [] => [(.finish, [])]
  | first :: rest =>
    (stretch first rest).meaning.words ++ words (rest.drop (stretch first rest).extra)
termination_by source => source.length
decreasing_by simp only [List.length_drop, List.length_cons]; omega

theorem ofMeaning_words (position behind : Position) (meaning : Meaning) :
    (ofMeaning position behind meaning).toList.map word = meaning.words := by
  cases meaning with
  | blank => rfl
  | token kind text => rfl
  | defect what => cases what <;> rfl

/-- Scanning adds the words of the source to those that have been read before. -/
theorem scanFrom_words (position : Position) (source : Text) (tokens : Array Token) :
    (scanFrom position source tokens).toList.map word
      = tokens.toList.map word ++ words source := by
  fun_induction scanFrom position source tokens with
  | case1 position tokens => simp [words, word]
  | case2 position tokens first rest piece behind more ih =>
    have pushed : more.toList.map word = tokens.toList.map word ++ piece.meaning.words := by
      rw [← ofMeaning_words position behind]
      simp only [more]
      cases ofMeaning position behind piece.meaning <;> simp
    rw [ih, pushed, words, List.append_assoc]

theorem scan_words (source : Text) : (scan source).map word = words source := by
  rw [scan, scanFrom_words]
  rfl

theorem words_blank {first : UInt8} {rest : Text} (blank : isBlank first = true) :
    words (first :: rest) = words rest := by
  rw [words, stretch, if_pos blank]
  rfl

/-- A source that begins with a token. -/
theorem words_token {first : UInt8} {text rest contents : Text} {kind : TokenKind}
    (begins : stretch first (text ++ rest) = ⟨.token kind contents, text.length⟩) :
    words (first :: text ++ rest) = (kind, contents) :: words rest := by
  rw [List.cons_append, words, begins, List.drop_left]
  rfl

end ScriptMachine.Token
