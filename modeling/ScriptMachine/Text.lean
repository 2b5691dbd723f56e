set_option autoImplicit false

/- Byte strings. Source text, names, messages and printed output are sequences of bytes;
nothing here assumes that they are well-formed UTF-8, and every length counts bytes. -/
namespace ScriptMachine

abbrev Text := List UInt8

/-- The bytes of a literal made of ASCII characters. -/
def ascii (literal : String) : Text :=
  literal.toList.map Char.toUInt8

namespace Text

def newline : UInt8 := 10

def quote : UInt8 := 34

/-- The decimal numeral of a natural number, without leading zeros. -/
def ofNat (value : Nat) : Text :=
  (Nat.toDigits 10 value).map Char.toUInt8

/-- The decimal numeral of an integer, with a minus sign below zero. -/
def ofInt : Int → Text
  | .ofNat value => ofNat value
  | .negSucc value => 45 :: ofNat (value + 1)

/-- Fills on the left up to `width`; longer text is left as it is. -/
def padLeft (width : Nat) (fill : UInt8) (text : Text) : Text :=
  List.replicate (width - text.length) fill ++ text

/-- Fills with blanks on the right up to `width`; longer text is left as it is. -/
def padRight (width : Nat) (text : Text) : Text :=
  text ++ List.replicate (width - text.length) 32

/-- The parts in order, with `separator` between neighbours. -/
def join (separator : Text) (parts : List Text) : Text :=
  (parts.intersperse separator).flatten

/-- The parts, one a line, without a final line end. -/
def lines (parts : List Text) : Text :=
  join [newline] parts

/-- The text between double quotes, as it is. -/
def quoted (text : Text) : Text :=
  quote :: text ++ [quote]

/-- The part of a text before its first zero byte, which ends a message. -/
def beforeZero (text : Text) : Text :=
  text.takeWhile (· != 0)

/-- Lexicographic order of bytes; a proper beginning comes first. -/
def le : Text → Text → Bool
  | [], _ => true
  | _ :: _, [] => false
  | a :: left, b :: right => a < b || (a == b && le left right)

def isDigit (byte : UInt8) : Bool :=
  48 ≤ byte && byte ≤ 57

def isLetter (byte : UInt8) : Bool :=
  (65 ≤ byte && byte ≤ 90) || (97 ≤ byte && byte ≤ 122)

/-- White space: blanks, tabs and line ends of every kind. -/
def isSpace (byte : UInt8) : Bool :=
  byte == 32 || (9 ≤ byte && byte ≤ 13)

/-- The lower-case form of a letter; other bytes stay. -/
def lower (byte : UInt8) : UInt8 :=
  if 65 ≤ byte && byte ≤ 90 then byte + 32 else byte

/-- The number a run of digits denotes. -/
def digitsValue (digits : Text) : Nat :=
  digits.foldl (fun value byte => 10 * value + (byte.toNat - 48)) 0

end Text

end ScriptMachine
