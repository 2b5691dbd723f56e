import ScriptMachine.Number

set_option autoImplicit false

/- Reading numbers. A numeral is decimal or, behind `0x`, hexadecimal, and infinity and NaN have
names. Only the beginning of a text counts, and one that begins with no number reads as zero.
The result is the binary64 value nearest to the number denoted, halfway cases to even; beyond
the range it is infinite or zero. -/
namespace ScriptMachine.Number

/-- A way to write numbers: the base of the digits, the byte in front of an exponent, and how
many units of the exponent one digit place is worth. -/
structure Radix where
  base : Nat
  marker : UInt8
  place : Nat

/-- Digits to base ten, scaled by powers of ten. -/
def Radix.decimal : Radix := ⟨10, 101, 1⟩

/-- Digits to base sixteen, scaled by powers of two. -/
def Radix.hexadecimal : Radix := ⟨16, 112, 4⟩

/-- What a byte is worth as a digit; a byte that is no digit to any base is worth 36. -/
def digitValue (byte : UInt8) : Nat :=
  if Text.isDigit byte then byte.toNat - 48
  else if Text.isLetter byte then (Text.lower byte).toNat - 87
  else 36

def Radix.isDigit (radix : Radix) (byte : UInt8) : Bool :=
  digitValue byte < radix.base

/-- The number that digits denote. -/
def Radix.value (radix : Radix) (digits : Text) : Nat :=
  digits.foldl (fun value byte => radix.base * value + digitValue byte) 0

/-- The exponent at the start of a text, such as `e5`, `E+5` or `p-5`; zero when there is none.
Its digits are decimal in every radix. -/
def Radix.exponent (radix : Radix) : Text → Int
  | [] => 0
  | marker :: rest =>
    if Text.lower marker == radix.marker then
      match rest with
      | 43 :: digits => magnitude digits
      | 45 :: digits => -magnitude digits
      | digits => magnitude digits
    else 0
where
  magnitude (text : Text) : Int :=
    Text.digitsValue (text.takeWhile Text.isDigit)

/-- A numeral without its sign: digits, and the power they are scaled by. -/
structure Numeral where
  digits : Nat
  exponent : Int

/-- The numeral at the start of a text: digits with at most one point among them, and an
exponent if one follows. At least one digit is needed. -/
def Radix.numeral? (radix : Radix) (text : Text) : Option Numeral :=
  let whole := text.takeWhile radix.isDigit
  let behind := text.dropWhile radix.isDigit
  let (fraction, rest) := match behind with
    | 46 :: places => (places.takeWhile radix.isDigit, places.dropWhile radix.isDigit)
    | _ => ([], behind)
  let digits := whole ++ fraction
  if digits.isEmpty then none
  else some ⟨radix.value digits, radix.exponent rest - radix.place * fraction.length⟩

def infinity : Float :=
  Float.ofBits 0x7ff0000000000000

def notANumber : Float :=
  Float.ofBits 0x7ff8000000000000

/-- The value of a decimal numeral. The first two bounds keep powers small: a number from
`10 ^ 310` on is infinite, and one below `10 ^ (-330)` is zero. -/
def Numeral.ofTens (numeral : Numeral) : Float :=
  let bits := numeral.digits.log2
  if numeral.digits = 0 then 0
  else if 310 ≤ numeral.exponent + (bits * 3 / 10 : Nat) then infinity
  else if numeral.exponent + (bits / 3 + 2 : Nat) ≤ -330 then 0
  else
    match numeral.exponent with
    | .ofNat exponent => Float.ofScientific numeral.digits false exponent
    | .negSucc exponent => Float.ofScientific numeral.digits true (exponent + 1)

/-- The value of a numeral scaled by a power of two. A half is five tenths, so a negative power
of two is a power of five over one of ten. -/
def Numeral.ofTwos (numeral : Numeral) : Float :=
  let bits := numeral.digits.log2
  if numeral.digits = 0 then 0
  else if 1024 ≤ numeral.exponent + bits then infinity
  else if numeral.exponent + bits + 1 < -1075 then 0
  else
    match numeral.exponent with
    | .ofNat exponent => Float.ofScientific (numeral.digits * Nat.pow 2 exponent) false 0
    | .negSucc exponent =>
      Float.ofScientific (numeral.digits * Nat.pow 5 (exponent + 1)) true (exponent + 1)

/-- Whether a text begins with a word, in either case. -/
def beginsWith (word : Text) (text : Text) : Bool :=
  (text.take word.length).map Text.lower == word

/-- The number without a sign that a text begins with. -/
def magnitude? (text : Text) : Option Float :=
  if beginsWith (ascii "inf") text then some infinity
  else if beginsWith (ascii "nan") text then some notANumber
  else
    let hexadecimal :=
      if beginsWith (ascii "0x") text then Radix.hexadecimal.numeral? (text.drop 2) else none
    match hexadecimal with
    | some numeral => some numeral.ofTwos
    | none => (Radix.decimal.numeral? text).map Numeral.ofTens

/-- The number at the start of a text, behind white space and a sign. -/
def read (text : Text) : Float :=
  match text.dropWhile Text.isSpace with
  | 45 :: rest => ((magnitude? rest).map fun value => -value).getD 0
  | 43 :: rest => (magnitude? rest).getD 0
  | rest => (magnitude? rest).getD 0

end ScriptMachine.Number
