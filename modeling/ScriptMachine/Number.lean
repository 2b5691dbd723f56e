import ScriptMachine.Text

set_option autoImplicit false

/- Numbers as text. A number is a binary64 value; its text is the nearest decimal with ten
places, ties to even, written without trailing zeros, and small integers are written as they
are. All rounding is exact arithmetic on the value's significand and exponent. -/
namespace ScriptMachine.Number

/-- A finite binary64 value is `(-1) ^ negative * significand * 2 ^ exponent`. -/
structure Dyadic where
  negative : Bool
  significand : Nat
  exponent : Int

inductive Class where
  | nan
  | infinite (negative : Bool)
  | finite (value : Dyadic)

/-- The value a binary64 bit pattern stands for. -/
def classify (bits : UInt64) : Class :=
  let negative := bits >>> 63 == 1
  let biased := ((bits >>> 52) &&& 0x7ff).toNat
  let fraction := (bits &&& 0xfffffffffffff).toNat
  if biased = 0x7ff then
    if fraction = 0 then .infinite negative else .nan
  else if biased = 0 then
    .finite ⟨negative, fraction, -1074⟩
  else
    .finite ⟨negative, fraction + Nat.pow 2 52, (biased : Int) - 1075⟩

/-- The integer nearest to `numerator / denominator`; halfway cases go to the even one. -/
def roundDiv (numerator denominator : Nat) : Nat :=
  let quotient := numerator / denominator
  let rest := numerator % denominator
  if 2 * rest < denominator then quotient
  else if denominator < 2 * rest then quotient + 1
  else if quotient % 2 = 0 then quotient
  else quotient + 1

/-- How many places after the point a number is written with at most. -/
def places : Nat := 10

/-- The magnitude of a dyadic in units of the last written place, rounded. -/
def Dyadic.scaled (value : Dyadic) : Nat :=
  let magnitude := value.significand * Nat.pow 10 places
  match value.exponent with
  | .ofNat exponent => magnitude * Nat.pow 2 exponent
  | .negSucc exponent => roundDiv magnitude (Nat.pow 2 (exponent + 1))

/-- The integer a dyadic is, if it is one. -/
def Dyadic.integer? (value : Dyadic) : Option Int :=
  let signed (magnitude : Nat) : Int := if value.negative then -magnitude else magnitude
  match value.exponent with
  | .ofNat exponent => some (signed (value.significand * Nat.pow 2 exponent))
  | .negSucc exponent =>
    let denominator := Nat.pow 2 (exponent + 1)
    if value.significand % denominator = 0 then some (signed (value.significand / denominator))
    else none

/-- The text of a dyadic with all its places. A negative one keeps its sign even when every digit
is zero. -/
def Dyadic.fixed (value : Dyadic) : Text :=
  let units := value.scaled
  let whole := Text.ofNat (units / Nat.pow 10 places)
  let fraction := Text.padLeft places 48 (Text.ofNat (units % Nat.pow 10 places))
  (if value.negative then [45] else []) ++ whole ++ 46 :: fraction

/-- Drops the zeros at the end of a text. -/
def dropTrailingZeros (text : Text) : Text :=
  (text.reverse.dropWhile (· == 48)).reverse

/-- Drops the zeros at the end, and then a point if it comes last. -/
def trim (text : Text) : Text :=
  let kept := dropTrailingZeros text
  if kept.getLast? == some 46 then kept.dropLast else kept

/-- Integers below this magnitude are written as such, without going through places. -/
def integerLimit : Nat := Nat.pow 10 15

/-- The text of a dyadic. What rounds to zero has no sign. -/
def Dyadic.render (value : Dyadic) : Text :=
  match value.integer?.filter fun whole => whole.natAbs < integerLimit with
  | some whole => Text.ofInt whole
  | none =>
    let text := trim value.fixed
    if text == ascii "-0" then ascii "0" else text

/-- The text of the number with the given bit pattern. -/
def renderBits (bits : UInt64) : Text :=
  match classify bits with
  | .nan => ascii "nan"
  | .infinite true => ascii "-inf"
  | .infinite false => ascii "inf"
  | .finite value => value.render

/-- The text of a number. -/
def render (value : Float) : Text :=
  renderBits value.toBits

end ScriptMachine.Number
