import ScriptMachine.Token

set_option autoImplicit false

/- From source text to tokens. A source is cut into stretches, each a first byte and a number
of further bytes; a stretch is a blank or comment, a token, or malformed. Positions are
counted over the bytes of the stretches, so no byte is lost. -/
namespace ScriptMachine.Token

structure Position where
  line : Nat
  column : Nat
  deriving DecidableEq, Repr

namespace Position

def start : Position := ⟨1, 1⟩

/-- The position behind one byte. -/
def next (position : Position) (byte : UInt8) : Position :=
  if byte == Text.newline then ⟨position.line + 1, 1⟩
  else ⟨position.line, position.column + 1⟩

/-- The position behind a stretch of bytes. -/
def advance (position : Position) (bytes : Text) : Position :=
  bytes.foldl next position

end Position

/-- What can be wrong with a stretch of source. -/
inductive Defect where
  | unexpectedByte
  | openComment
  | openString
  | openEscape
  deriving DecidableEq, Repr

def Defect.message : Defect → Text
  | .unexpectedByte => ascii "Unexpected character."
  | .openComment => ascii "Unterminated block comment."
  | .openString => ascii "Unterminated string."
  | .openEscape => ascii "Unterminated escape sequence in string literal."

inductive Meaning where
  | blank
  | token (kind : TokenKind) (text : Text)
  | defect (defect : Defect)

/-- What a stretch means, and how many bytes it has after its first one. -/
structure Stretch where
  meaning : Meaning
  extra : Nat

def isBlank (byte : UInt8) : Bool :=
  byte == 32 || byte == 9 || byte == 13 || byte == 10

def startsWord (byte : UInt8) : Bool :=
  Text.isLetter byte || byte == 95

def continuesWord (byte : UInt8) : Bool :=
  Text.isLetter byte || Text.isDigit byte || byte == 95

/-- The number of bytes up to and including the end of a block comment whose opener has been
read; none when the comment is never closed. -/
def commentLength : Text → Nat → Option Nat
  | 42 :: 47 :: _, count => some (count + 2)
  | _ :: rest, count => commentLength rest (count + 1)
  | [], _ => none

/-- The byte that a backslash before `byte` denotes. -/
def decodeEscape (byte : UInt8) : UInt8 :=
  if byte == 110 then 10 else if byte == 116 then 9 else if byte == 114 then 13 else byte

/-- Reads a string literal behind its opening quote. `contents` holds the decoded bytes so
far, last first, and `count` how many bytes of source they took. -/
def stringBody : Text → Text → Nat → Stretch
  | [], _, count => ⟨.defect .openString, count⟩
  | 34 :: _, contents, count => ⟨.token .string contents.reverse, count + 1⟩
  | [92], _, count => ⟨.defect .openEscape, count + 1⟩
  | 92 :: escaped :: rest, contents, count =>
    stringBody rest (decodeEscape escaped :: contents) (count + 2)
  | byte :: rest, contents, count => stringBody rest (byte :: contents) (count + 1)

/-- Reads a number: digits, then a point and digits when a digit follows the point. -/
def numberStretch (first : UInt8) (rest : Text) : Stretch :=
  let whole := rest.takeWhile Text.isDigit
  match rest.drop whole.length with
  | 46 :: digit :: tail =>
    if Text.isDigit digit then
      let fraction := 46 :: digit :: tail.takeWhile Text.isDigit
      ⟨.token .number (first :: whole ++ fraction), whole.length + fraction.length⟩
    else ⟨.token .number (first :: whole), whole.length⟩
  | _ => ⟨.token .number (first :: whole), whole.length⟩

/-- Reads an operator or a punctuation mark. -/
def operatorStretch (first : UInt8) (rest : Text) : Stretch :=
  match punctuation.lookup first with
  | some kind => ⟨.token kind [first], 0⟩
  | none =>
    match comparisons.lookup first with
    | some (alone, withEqual) =>
      if rest.head? == some 61 then ⟨.token withEqual [first, 61], 1⟩
      else ⟨.token alone [first], 0⟩
    | none => ⟨.defect .unexpectedByte, 0⟩

/-- Reads a block comment behind its first byte; an open one takes all that is left. -/
def commentStretch (rest : Text) : Stretch :=
  match commentLength (rest.drop 1) 1 with
  | some count => ⟨.blank, count⟩
  | none => ⟨.defect .openComment, rest.length⟩

/-- The stretch that a source begins with. -/
def stretch (first : UInt8) (rest : Text) : Stretch :=
  if isBlank first then ⟨.blank, 0⟩
  else if first == 47 && rest.head? == some 47 then
    ⟨.blank, (rest.takeWhile (· != Text.newline)).length⟩
  else if first == 47 && rest.head? == some 42 then commentStretch rest
  else if startsWord first then
    let tail := rest.takeWhile continuesWord
    ⟨.token (wordKind (first :: tail)) (first :: tail), tail.length⟩
  else if Text.isDigit first then numberStretch first rest
  else if first == Text.quote then stringBody rest [] 0
  else operatorStretch first rest

/-- The token for a stretch that begins at `position` and ends at `behind`. An open escape is
reported where the source ends, every other defect where its stretch begins. -/
def ofMeaning (position behind : Position) : Meaning → Option Token
  | .blank => none
  | .token kind text => some ⟨kind, text, position.line, position.column⟩
  | .defect .openEscape =>
    some ⟨.malformed, Defect.openEscape.message, behind.line, behind.column⟩
  | .defect defect => some ⟨.malformed, defect.message, position.line, position.column⟩

/-- The tokens of what is left of a source at `position`, behind those already read. -/
def scanFrom (position : Position) (source : Text) (tokens : Array Token) : Array Token :=
  match source with
  | [] => tokens.push ⟨.finish, [], position.line, position.column⟩
  | first :: rest =>
    let piece := stretch first rest
    let behind := position.advance (first :: rest.take piece.extra)
    let tokens := match ofMeaning position behind piece.meaning with
      | some token => tokens.push token
      | none => tokens
    scanFrom behind (rest.drop piece.extra) tokens
termination_by source.length
decreasing_by simp only [List.length_drop, List.length_cons]; omega

/-- The tokens of a source, closed by a `finish` token at its end. -/
def scan (source : Text) : List Token :=
  (scanFrom .start source #[]).toList

end ScriptMachine.Token
