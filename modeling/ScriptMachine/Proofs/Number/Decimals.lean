import Mathlib
import ScriptMachine.Number

set_option autoImplicit false

/- Decimal numerals: their parts, the numbers they denote, and which of them are canonical. The text
of a dyadic is one of them, whichever way it is written. -/
namespace ScriptMachine

namespace Text

section Digits

theorem digitsValue_append (first second : Text) :
    digitsValue (first ++ second) = digitsValue first * 10 ^ second.length + digitsValue second := by
  induction second using List.reverseRecOn with
  | nil => simp [digitsValue]
  | append_singleton second byte ih =>
    unfold digitsValue at ih ⊢
    rw [← List.append_assoc, List.foldl_append, ih, List.foldl_append, List.length_append, pow_add]
    simp only [List.foldl_cons, List.foldl_nil, List.length_singleton, pow_one]
    ring

theorem digitsValue_zeros (count : Nat) : digitsValue (List.replicate count 48) = 0 := by
  induction count with
  | zero => rfl
  | succ count ih =>
    rw [List.replicate_succ', digitsValue_append, ih]
    rfl

theorem digitChar_byte : ∀ digit < 10, (Nat.digitChar digit).toUInt8 = 48 + UInt8.ofNat digit := by
  decide

/-- The numeral of a number is that of its tens with its last digit behind it. -/
theorem ofNat_eq (value : Nat) :
    ofNat value
      = (if value < 10 then [] else ofNat (value / 10)) ++ [48 + UInt8.ofNat (value % 10)] := by
  have last : (Nat.digitChar (value % 10)).toUInt8 = 48 + UInt8.ofNat (value % 10) :=
    digitChar_byte _ (Nat.mod_lt _ (by decide))
  unfold ofNat
  rw [Nat.toDigits_eq_if (by decide)]
  split
  · next small =>
    rw [Nat.mod_eq_of_lt small] at last ⊢
    rw [List.map_singleton, last, List.nil_append]
  · rw [List.map_append, List.map_singleton, last]

theorem lastDigit (value : Nat) : (48 + UInt8.ofNat (value % 10)).toNat = 48 + value % 10 := by
  have small : value % 10 < 10 := Nat.mod_lt _ (by decide)
  rw [UInt8.toNat_add, UInt8.toNat_ofNat', Nat.mod_eq_of_lt (by omega : value % 10 < 2 ^ 8)]
  exact Nat.mod_eq_of_lt (by change 48 + value % 10 < 256; omega)

theorem isDigit_iff (byte : UInt8) : isDigit byte = true ↔ 48 ≤ byte.toNat ∧ byte.toNat ≤ 57 := by
  simp [isDigit, UInt8.le_iff_toNat_le]

theorem ofNat_ne_nil (value : Nat) : ofNat value ≠ [] := by
  rw [ofNat_eq]
  simp

theorem isDigit_of_mem_ofNat (value : Nat) : ∀ byte ∈ ofNat value, isDigit byte = true := by
  induction value using Nat.strong_induction_on with
  | _ value ih =>
    intro byte member
    rw [ofNat_eq, List.mem_append, List.mem_singleton] at member
    rcases member with early | rfl
    · split at early
      · cases early
      · exact ih (value / 10) (by omega) byte early
    · rw [isDigit_iff, lastDigit]
      omega

theorem digitsValue_ofNat (value : Nat) : digitsValue (ofNat value) = value := by
  induction value using Nat.strong_induction_on with
  | _ value ih =>
    have last : digitsValue [48 + UInt8.ofNat (value % 10)] = value % 10 := by
      change 10 * 0 + ((48 + UInt8.ofNat (value % 10)).toNat - 48) = _
      rw [lastDigit]
      omega
    rw [ofNat_eq, digitsValue_append, last]
    split
    · simp only [digitsValue, List.foldl_nil]
      omega
    · rw [ih (value / 10) (by omega)]
      simp only [List.length_singleton]
      omega

/-- Only zero begins with a zero. -/
theorem ofNat_head (value : Nat) (zero : (ofNat value).head? = some 48) : value = 0 := by
  induction value using Nat.strong_induction_on with
  | _ value ih =>
    rw [ofNat_eq] at zero
    split at zero
    · have digit := congrArg UInt8.toNat (Option.some.inj zero)
      rw [lastDigit] at digit
      change 48 + value % 10 = 48 at digit
      omega
    · rw [List.head?_append_of_ne_nil _ (ofNat_ne_nil _)] at zero
      have small := ih (value / 10) (by omega) zero
      omega

theorem length_ofNat {value places : Nat} (positive : 0 < places) (small : value < 10 ^ places) :
    (ofNat value).length ≤ places := by
  rw [ofNat, List.length_map]
  exact (Nat.length_toDigits_le_iff (by decide) positive).mpr small

end Digits

end Text

namespace Number

/-- A numeral by its parts: whether it has a minus sign, and its digits before and behind the
point. -/
structure Decimal where
  negative : Bool
  whole : Text
  fraction : Text

namespace Decimal

/-- How a numeral is written. Without digits behind it there is no point. -/
def text (decimal : Decimal) : Text :=
  (if decimal.negative then [45] else []) ++ decimal.whole
    ++ if decimal.fraction = [] then [] else 46 :: decimal.fraction

/-- A numeral in its shortest form, with at most ten places. -/
structure Canonical (decimal : Decimal) : Prop where
  digits : ∀ byte ∈ decimal.whole ++ decimal.fraction, Text.isDigit byte = true
  nonempty : decimal.whole ≠ []
  noLeadingZero : decimal.whole.head? = some 48 → decimal.whole = [48]
  places : decimal.fraction.length ≤ 10
  noTrailingZero : decimal.fraction.getLast? ≠ some 48
  noNegativeZero : decimal.negative = true → decimal.whole = [48] → decimal.fraction ≠ []

end Decimal

/-- The number that a numeral without sign denotes. -/
def unsigned (text : Text) : ℚ :=
  let whole := text.takeWhile Text.isDigit
  let fraction := text.drop (whole.length + 1)
  Text.digitsValue whole + Text.digitsValue fraction / 10 ^ fraction.length

/-- The number that a numeral denotes. -/
def denoted : Text → ℚ
  | 45 :: magnitude => -unsigned magnitude
  | magnitude => unsigned magnitude

section Trimming

theorem dropTrailingZeros_append_zero (text : Text) :
    dropTrailingZeros (text ++ [48]) = dropTrailingZeros text := by
  simp [dropTrailingZeros]

theorem dropTrailingZeros_of_ne {text : Text} (other : text.getLast? ≠ some 48) :
    dropTrailingZeros text = text := by
  induction text using List.reverseRecOn with
  | nil => rfl
  | append_singleton text byte _ =>
    have kept : byte ≠ 48 := by simpa using other
    simp [dropTrailingZeros, kept]

/-- A text is what is left of it and the zeros that were dropped. -/
theorem dropTrailingZeros_spec (text : Text) :
    (∃ count, text = dropTrailingZeros text ++ List.replicate count 48) ∧
      (dropTrailingZeros text).getLast? ≠ some 48 := by
  induction text using List.reverseRecOn with
  | nil => exact ⟨⟨0, rfl⟩, nofun⟩
  | append_singleton text byte ih =>
    by_cases zero : byte = 48
    · obtain ⟨⟨count, split⟩, ends⟩ := ih
      rw [zero, dropTrailingZeros_append_zero]
      refine ⟨⟨count + 1, ?_⟩, ends⟩
      rw [List.replicate_succ', ← List.append_assoc, ← split]
    · have other : (text ++ [byte]).getLast? ≠ some 48 := by simpa using zero
      rw [dropTrailingZeros_of_ne other]
      exact ⟨⟨0, by simp⟩, other⟩

/-- Zeros are dropped only as far as the point. -/
theorem dropTrailingZeros_point (before fraction : Text) :
    dropTrailingZeros (before ++ 46 :: fraction) = before ++ 46 :: dropTrailingZeros fraction := by
  obtain ⟨⟨count, split⟩, ends⟩ := dropTrailingZeros_spec fraction
  have kept : (before ++ 46 :: dropTrailingZeros fraction).getLast? ≠ some 48 := by
    rw [List.getLast?_append_cons, List.getLast?_cons]
    cases last : (dropTrailingZeros fraction).getLast? with
    | none => decide
    | some byte =>
      rw [last] at ends
      simpa using ends
  have drops : ∀ count, dropTrailingZeros
      (before ++ 46 :: dropTrailingZeros fraction ++ List.replicate count 48)
        = before ++ 46 :: dropTrailingZeros fraction := by
    intro count
    induction count with
    | zero => rw [List.replicate_zero, List.append_nil, dropTrailingZeros_of_ne kept]
    | succ count ih =>
      rw [List.replicate_succ', ← List.append_assoc, dropTrailingZeros_append_zero, ih]
  calc dropTrailingZeros (before ++ 46 :: fraction)
      = dropTrailingZeros
          (before ++ 46 :: dropTrailingZeros fraction ++ List.replicate count 48) := by
        rw [List.append_assoc, List.cons_append, ← split]
    _ = before ++ 46 :: dropTrailingZeros fraction := drops count

/-- Trimming drops the zeros behind the point, and the point if nothing is left behind it. -/
theorem trim_point (before : Text) {fraction : Text}
    (digits : ∀ byte ∈ fraction, Text.isDigit byte = true) :
    trim (before ++ 46 :: fraction) = before
      ++ if dropTrailingZeros fraction = [] then [] else 46 :: dropTrailingZeros fraction := by
  obtain ⟨⟨count, split⟩, -⟩ := dropTrailingZeros_spec fraction
  unfold trim
  rw [dropTrailingZeros_point]
  cases left : dropTrailingZeros fraction using List.reverseRecOn with
  | nil => simp
  | append_singleton kept last =>
    have isDigit : Text.isDigit last = true := by
      apply digits
      rw [split, left]
      simp
    have notPoint : last ≠ 46 := by
      rintro rfl
      cases isDigit
    have ends : (before ++ 46 :: (kept ++ [last])).getLast? = some last := by
      rw [← List.cons_append, ← List.append_assoc, List.getLast?_concat]
    simp [ends, notPoint]

end Trimming

section Denoting

/-- The number that the parts of a numeral denote. -/
def Decimal.value (decimal : Decimal) : ℚ :=
  (if decimal.negative then -1 else 1)
    * (Text.digitsValue decimal.whole
      + Text.digitsValue decimal.fraction / 10 ^ decimal.fraction.length)

variable {decimal : Decimal}

/-- The digits before the point are read up to the point, and those behind it from there on. -/
theorem unsigned_parts {whole : Text} (fraction : Text)
    (digits : ∀ byte ∈ whole, Text.isDigit byte = true) :
    unsigned (whole ++ if fraction = [] then [] else 46 :: fraction)
      = Text.digitsValue whole + Text.digitsValue fraction / 10 ^ fraction.length := by
  unfold unsigned
  by_cases empty : fraction = []
  · have ends : whole.takeWhile Text.isDigit = whole := List.takeWhile_eq_self_iff.mpr digits
    have nothing : whole.drop (whole.length + 1) = [] := List.drop_eq_nil_of_le (Nat.le_succ _)
    simp [empty, ends, nothing, Text.digitsValue]
  · have ends : (whole ++ 46 :: fraction).takeWhile Text.isDigit = whole := by
      rw [List.takeWhile_append_of_pos digits, List.takeWhile_cons_of_neg (by decide),
        List.append_nil]
    have rest : (whole ++ 46 :: fraction).drop (whole.length + 1) = fraction := by
      rw [← List.drop_drop, List.drop_left, List.drop_one, List.tail_cons]
    simp [empty, ends, rest]

theorem denoted_of_digit {first : UInt8} (isDigit : Text.isDigit first = true) (rest : Text) :
    denoted (first :: rest) = unsigned (first :: rest) := by
  unfold denoted
  split
  · next same =>
    cases same
    cases isDigit
  · rfl

/-- A canonical numeral is read as the number that its parts denote. -/
theorem Decimal.Canonical.denoted_text (canonical : decimal.Canonical) :
    denoted decimal.text = decimal.value := by
  have digits : ∀ byte ∈ decimal.whole, Text.isDigit byte = true :=
    fun byte member => canonical.digits byte (List.mem_append_left _ member)
  have parts := unsigned_parts decimal.fraction digits
  unfold Decimal.text Decimal.value
  rw [List.append_assoc]
  cases decimal.negative with
  | true => simp [denoted, parts]
  | false =>
    cases whole : decimal.whole with
    | nil => exact absurd whole canonical.nonempty
    | cons first rest =>
      rw [whole] at digits parts
      rw [List.cons_append] at parts
      simp [denoted_of_digit (digits first List.mem_cons_self), parts]

theorem Decimal.Canonical.ne_minusZero (canonical : decimal.Canonical) :
    decimal.text ≠ ascii "-0" := by
  have minusZero : ascii "-0" = [45, 48] := rfl
  have nonempty := canonical.nonempty
  intro same
  rw [minusZero, Decimal.text] at same
  cases negative : decimal.negative with
  | true =>
    have zero := canonical.noNegativeZero negative
    simp only [negative, if_true, List.cons_append, List.nil_append, List.cons.injEq, true_and]
      at same
    cases whole : decimal.whole with
    | nil => exact nonempty whole
    | cons first rest =>
      rw [whole, List.cons_append, List.cons.injEq, List.append_eq_nil_iff] at same
      obtain ⟨rfl, rfl, noFraction⟩ := same
      refine zero whole ?_
      by_contra places
      rw [if_neg places] at noFraction
      cases noFraction
  | false =>
    cases whole : decimal.whole with
    | nil => exact nonempty whole
    | cons first rest =>
      have isDigit := canonical.digits first (by simp [whole])
      simp only [negative, whole, Bool.false_eq_true, if_false, List.nil_append, List.cons_append,
        List.cons.injEq] at same
      rw [same.1] at isDigit
      cases isDigit

end Denoting

section Writing

variable (value : Dyadic)

/-- The numeral of a dyadic, in units of the last place. -/
def Dyadic.decimal : Decimal where
  negative := value.negative && value.scaled != 0
  whole := Text.ofNat (value.scaled / 10 ^ 10)
  fraction := dropTrailingZeros (Text.padLeft places 48 (Text.ofNat (value.scaled % 10 ^ 10)))

section Places

variable (units : Nat)

theorem length_padded : (Text.padLeft places 48 (Text.ofNat (units % 10 ^ 10))).length = 10 := by
  have fits : (Text.ofNat (units % 10 ^ 10)).length ≤ 10 :=
    Text.length_ofNat (by decide) (Nat.mod_lt _ (by decide))
  rw [Text.padLeft, List.length_append, List.length_replicate, places]
  omega

theorem digits_padded :
    ∀ byte ∈ Text.padLeft places 48 (Text.ofNat (units % 10 ^ 10)), Text.isDigit byte = true := by
  intro byte member
  rcases List.mem_append.mp member with zero | digit
  · rw [List.eq_of_mem_replicate zero]
    rfl
  · exact Text.isDigit_of_mem_ofNat _ byte digit

theorem digitsValue_padded :
    Text.digitsValue (Text.padLeft places 48 (Text.ofNat (units % 10 ^ 10))) = units % 10 ^ 10 := by
  rw [Text.padLeft, Text.digitsValue_append, Text.digitsValue_zeros, Text.digitsValue_ofNat,
    Nat.zero_mul, Nat.zero_add]

/-- Dropping zeros at the end does not change what the places denote. -/
theorem denoted_places :
    (Text.digitsValue (dropTrailingZeros (Text.padLeft places 48 (Text.ofNat (units % 10 ^ 10)))) : ℚ)
      / 10 ^ (dropTrailingZeros (Text.padLeft places 48 (Text.ofNat (units % 10 ^ 10)))).length
      = (units % 10 ^ 10 : Nat) / 10 ^ 10 := by
  have length := length_padded units
  have denotes := digitsValue_padded units
  generalize Text.padLeft places 48 (Text.ofNat (units % 10 ^ 10)) = padded at length denotes
  obtain ⟨⟨count, split⟩, -⟩ := dropTrailingZeros_spec padded
  generalize dropTrailingZeros padded = kept at split
  rw [split, Text.digitsValue_append, Text.digitsValue_zeros, List.length_replicate, Nat.add_zero]
    at denotes
  rw [split, List.length_append, List.length_replicate] at length
  have scale : (10 : ℚ) ^ 10 = 10 ^ kept.length * 10 ^ count := by rw [← pow_add, length]
  rw [← denotes, scale, div_eq_div_iff (by positivity) (by positivity)]
  push_cast
  ring

end Places

theorem canonical_decimal : value.decimal.Canonical where
  digits byte member := by
    rcases List.mem_append.mp member with whole | fraction
    · exact Text.isDigit_of_mem_ofNat _ byte whole
    · obtain ⟨⟨count, split⟩, -⟩ := dropTrailingZeros_spec
        (Text.padLeft places 48 (Text.ofNat (value.scaled % 10 ^ 10)))
      apply digits_padded value.scaled
      rw [split]
      exact List.mem_append_left _ fraction
  nonempty := Text.ofNat_ne_nil _
  noLeadingZero zero := by
    change Text.ofNat _ = _
    rw [Text.ofNat_head _ zero]
    rfl
  places := by
    obtain ⟨⟨count, split⟩, -⟩ := dropTrailingZeros_spec
      (Text.padLeft places 48 (Text.ofNat (value.scaled % 10 ^ 10)))
    rw [← length_padded value.scaled, split, List.length_append]
    exact Nat.le_add_right _ _
  noTrailingZero := (dropTrailingZeros_spec _).2
  noNegativeZero negative zero empty := by
    have whole : value.scaled / 10 ^ 10 = 0 := by
      rw [← Text.digitsValue_ofNat (value.scaled / 10 ^ 10)]
      change Text.digitsValue value.decimal.whole = 0
      rw [zero]
      rfl
    have fraction := denoted_places value.scaled
    change (Text.digitsValue value.decimal.fraction : ℚ) / 10 ^ value.decimal.fraction.length = _
      at fraction
    have none : ((value.scaled % 10 ^ 10 : Nat) : ℚ) = 0 := by
      rw [empty, eq_div_iff (by positivity)] at fraction
      simpa [Text.digitsValue, eq_comm] using fraction
    have vanishes : value.scaled = 0 := by
      have split := Nat.div_add_mod value.scaled (10 ^ 10)
      rw [whole, Nat.cast_eq_zero.mp none] at split
      exact split.symm
    simp [Dyadic.decimal, vanishes] at negative

theorem value_decimal : value.decimal.value
    = (if value.negative then -1 else 1) * (value.scaled / 10 ^ 10) := by
  have split : (value.scaled : ℚ) / 10 ^ 10
      = (value.scaled / 10 ^ 10 : Nat) + (value.scaled % 10 ^ 10 : Nat) / 10 ^ 10 := by
    rw [div_eq_iff (by positivity), add_mul, div_mul_cancel₀ _ (by positivity)]
    exact_mod_cast (Nat.div_add_mod' value.scaled (10 ^ 10)).symm
  have whole : Text.digitsValue value.decimal.whole = value.scaled / 10 ^ 10 :=
    Text.digitsValue_ofNat _
  have fraction : (Text.digitsValue value.decimal.fraction : ℚ) / 10 ^ value.decimal.fraction.length
      = (value.scaled % 10 ^ 10 : Nat) / 10 ^ 10 := denoted_places value.scaled
  rw [Decimal.value, whole, fraction, ← split]
  by_cases vanishes : value.scaled = 0
  · simp [vanishes]
  · simp [Dyadic.decimal, vanishes]

/-- An integer is a whole number of units of the last place. -/
theorem scaled_of_integer? {whole : Int} (isInteger : value.integer? = some whole) :
    ∃ magnitude : Nat, whole = (if value.negative then -(magnitude : Int) else magnitude) ∧
      value.scaled = magnitude * 10 ^ 10 := by
  unfold Dyadic.integer? at isInteger
  unfold Dyadic.scaled
  cases found : value.exponent with
  | ofNat exponent =>
    rw [found] at isInteger
    exact ⟨_, (Option.some.inj isInteger).symm, Nat.mul_right_comm _ _ _⟩
  | negSucc exponent =>
    rw [found] at isInteger
    dsimp only at isInteger ⊢
    generalize denominator : Nat.pow 2 (exponent + 1) = divisor at isInteger
    have positive : 0 < divisor := denominator ▸ Nat.two_pow_pos _
    split at isInteger
    · next divides =>
      refine ⟨_, (Option.some.inj isInteger).symm, ?_⟩
      obtain ⟨magnitude, whole⟩ := Nat.dvd_of_mod_eq_zero divides
      rw [whole, Nat.mul_div_cancel_left _ positive]
      have product : divisor * magnitude * Nat.pow 10 places = magnitude * 10 ^ 10 * divisor := by
        change divisor * magnitude * 10 ^ 10 = _
        ring
      rw [product, roundDiv, Nat.mul_div_cancel _ positive, Nat.mul_mod_left]
      simp [positive]
    · cases isInteger

theorem ofInt_signed (negative : Bool) (magnitude : Nat) :
    Text.ofInt (if negative then -(magnitude : Int) else magnitude)
      = (if negative && magnitude != 0 then [45] else []) ++ Text.ofNat magnitude := by
  cases negative with
  | false => rfl
  | true => cases magnitude <;> rfl

/-- The integer path writes the same numeral as the places would. -/
theorem text_of_integer? {whole : Int} (isInteger : value.integer? = some whole) :
    Text.ofInt whole = value.decimal.text := by
  obtain ⟨magnitude, rfl, scaled⟩ := scaled_of_integer? value isInteger
  have noPlaces : dropTrailingZeros (Text.padLeft places 48 (Text.ofNat 0)) = [] := by
    decide +kernel
  have sign : (magnitude * 10 ^ 10 != 0) = (magnitude != 0) := by
    cases magnitude with
    | zero => rfl
    | succ magnitude => simp
  rw [ofInt_signed, Decimal.text, Dyadic.decimal, scaled, Nat.mul_mod_left,
    Nat.mul_div_cancel _ (by decide), noPlaces, sign]
  simp

theorem trim_fixed : trim value.fixed = (if value.negative then [45] else [])
    ++ (value.decimal.whole
      ++ if value.decimal.fraction = [] then [] else 46 :: value.decimal.fraction) := by
  have trimmed := trim_point ((if value.negative then [45] else [])
    ++ Text.ofNat (value.scaled / 10 ^ 10)) (digits_padded value.scaled)
  exact trimmed.trans (List.append_assoc ..)

/-- Either way of writing a dyadic gives its numeral. -/
theorem render_eq : value.render = value.decimal.text := by
  have fixed := trim_fixed value
  unfold Dyadic.render
  split
  · next whole found =>
    exact text_of_integer? value (Option.filter_eq_some_iff.mp found).1
  · have canonical := canonical_decimal value
    dsimp only
    by_cases vanishes : value.negative = true ∧ value.scaled = 0
    · have noPlaces : dropTrailingZeros (Text.padLeft places 48 (Text.ofNat 0)) = [] := by
        decide +kernel
      simp only [Dyadic.decimal, vanishes, Nat.zero_div, Nat.zero_mod, noPlaces] at fixed ⊢
      rw [fixed]
      decide +kernel
    · have sign : value.decimal.negative = value.negative := by
        simp only [Dyadic.decimal]
        grind
      have same : trim value.fixed = value.decimal.text := by
        rw [fixed, Decimal.text, sign, List.append_assoc]
      rw [same, if_neg]
      simpa using canonical.ne_minusZero

end Writing

end Number

end ScriptMachine
