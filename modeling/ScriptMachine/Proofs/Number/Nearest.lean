import Mathlib
import ScriptMachine.Proofs.Number.Decimals

set_option autoImplicit false

/- Rounding to the nearest unit of the last place, and what it means for the text of a number: the
text is a canonical numeral, near to the number, equal to it when it is an integer, and larger
numbers have larger texts. -/
namespace ScriptMachine.Number

/-- A natural number is nearest to a rational one, and an even one is taken halfway. -/
structure Nearest (exact : ℚ) (rounded : ℕ) : Prop where
  near : |exact - rounded| ≤ 1 / 2
  tie : |exact - rounded| = 1 / 2 → rounded % 2 = 0

section Rounding

section Quotients

variable {quotient rest denominator : Nat}

theorem nearest_below (positive : 0 < denominator) (small : 2 * rest ≤ denominator)
    (tie : 2 * rest = denominator → quotient % 2 = 0) :
    Nearest (quotient + rest / denominator) quotient := by
  have scale : (0 : ℚ) < denominator := by exact_mod_cast positive
  have distance : |(quotient + rest / denominator : ℚ) - quotient| = rest / denominator := by
    rw [add_sub_cancel_left, abs_of_nonneg (by positivity)]
  constructor
  · rw [distance, div_le_div_iff₀ scale (by norm_num)]
    exact_mod_cast (by omega : rest * 2 ≤ 1 * denominator)
  · rw [distance, div_eq_div_iff scale.ne' (by norm_num)]
    intro half
    have same : rest * 2 = 1 * denominator := by exact_mod_cast half
    exact tie (by omega)

theorem nearest_above (below : rest < denominator) (large : denominator ≤ 2 * rest)
    (tie : 2 * rest = denominator → (quotient + 1) % 2 = 0) :
    Nearest (quotient + rest / denominator) (quotient + 1) := by
  have scale : (0 : ℚ) < denominator := by exact_mod_cast Nat.zero_lt_of_lt below
  have part : (rest : ℚ) / denominator ≤ 1 := by
    rw [div_le_one scale]
    exact_mod_cast below.le
  have distance : |(quotient + rest / denominator : ℚ) - (quotient + 1 : Nat)|
      = 1 - rest / denominator := by
    push_cast
    rw [abs_of_nonpos (by linarith)]
    ring
  constructor
  · have half : (1 : ℚ) / 2 ≤ rest / denominator := by
      rw [div_le_div_iff₀ (by norm_num) scale]
      exact_mod_cast (by omega : 1 * denominator ≤ rest * 2)
    rw [distance]
    linarith
  · rw [distance]
    intro half
    have same : (rest : ℚ) / denominator = 1 / 2 := by linarith
    rw [div_eq_div_iff scale.ne' (by norm_num)] at same
    have equal : rest * 2 = 1 * denominator := by exact_mod_cast same
    exact tie (by omega)

end Quotients

theorem roundDiv_nearest (numerator : Nat) {denominator : Nat} (positive : 0 < denominator) :
    Nearest (numerator / denominator) (roundDiv numerator denominator) := by
  have exact : (numerator : ℚ) / denominator
      = (numerator / denominator : Nat) + (numerator % denominator : Nat) / denominator := by
    rw [div_eq_iff (by positivity), add_mul, div_mul_cancel₀ _ (by positivity)]
    exact_mod_cast (Nat.div_add_mod' numerator denominator).symm
  have below := Nat.mod_lt numerator positive
  rw [exact]
  unfold roundDiv
  dsimp only
  split
  · exact nearest_below positive (by omega) (by omega)
  split
  · exact nearest_above below (by omega) (by omega)
  split
  · exact nearest_below positive (by omega) (by omega)
  · exact nearest_above below (by omega) (by omega)

/-- Rounding keeps the order. -/
theorem Nearest.mono {x y : ℚ} {m n : ℕ} (one : Nearest x m) (other : Nearest y n) (le : x ≤ y) :
    m ≤ n := by
  by_contra less
  have gap : (n : ℚ) + 1 ≤ m := by exact_mod_cast not_le.mp less
  have lower := (abs_le.mp one.near).1
  have upper := (abs_le.mp other.near).2
  -- Both are halfway between the same two neighbours, and only one of those is even.
  have halfway : x - m = -(1 / 2) ∧ y - n = 1 / 2 ∧ (m : ℚ) = n + 1 :=
    ⟨by linarith, by linarith, by linarith⟩
  have even := one.tie (by rw [halfway.1]; norm_num)
  have even' := other.tie (by rw [halfway.2.1]; norm_num)
  have next : m = n + 1 := by exact_mod_cast halfway.2.2
  omega

theorem Nearest.of_natCast {m n : ℕ} (nearest : Nearest (m : ℚ) n) : n = m := by
  have self : Nearest (m : ℚ) m := ⟨by norm_num, fun half => by norm_num at half⟩
  exact le_antisymm (nearest.mono self le_rfl) (self.mono nearest le_rfl)

end Rounding

section Dyadics

/-- The number a dyadic is, without its sign. -/
def Dyadic.magnitude (value : Dyadic) : ℚ :=
  value.significand * 2 ^ value.exponent

/-- The number a dyadic is. -/
def Dyadic.value (value : Dyadic) : ℚ :=
  (if value.negative then -1 else 1) * value.magnitude

theorem Dyadic.magnitude_nonneg (value : Dyadic) : 0 ≤ value.magnitude := by
  unfold Dyadic.magnitude
  positivity

theorem scaled_nearest (value : Dyadic) : Nearest (value.magnitude * 10 ^ 10) value.scaled := by
  unfold Dyadic.magnitude Dyadic.scaled
  cases value.exponent with
  | ofNat exponent =>
    have exact : (value.significand : ℚ) * 2 ^ Int.ofNat exponent * 10 ^ 10
        = (value.significand * Nat.pow 10 places * Nat.pow 2 exponent : Nat) := by
      change (value.significand : ℚ) * 2 ^ (exponent : Int) * 10 ^ 10
        = (value.significand * 10 ^ 10 * 2 ^ exponent : Nat)
      rw [zpow_natCast]
      push_cast
      ring
    rw [exact]
    exact ⟨by norm_num, fun half => by norm_num at half⟩
  | negSucc exponent =>
    have exact : (value.significand : ℚ) * 2 ^ Int.negSucc exponent * 10 ^ 10
        = (value.significand * Nat.pow 10 places : Nat) / (Nat.pow 2 (exponent + 1) : Nat) := by
      change (value.significand : ℚ) * 2 ^ Int.negSucc exponent * 10 ^ 10
        = (value.significand * 10 ^ 10 : Nat) / (2 ^ (exponent + 1) : Nat)
      rw [zpow_negSucc]
      push_cast
      ring
    rw [exact]
    exact roundDiv_nearest _ (Nat.two_pow_pos _)

end Dyadics

section Texts

variable {v w : Dyadic}

theorem denoted_render (v : Dyadic) :
    denoted v.render = (if v.negative then -1 else 1) * (v.scaled / 10 ^ 10) := by
  rw [render_eq, (canonical_decimal v).denoted_text, value_decimal]

/-- The text of a dyadic is within half a unit of the last place. -/
theorem denoted_near (v : Dyadic) : |denoted v.render - v.value| ≤ 5 / 10 ^ 11 := by
  obtain ⟨lower, upper⟩ := abs_le.mp (scaled_nearest v).near
  have near : |(v.scaled : ℚ) / 10 ^ 10 - v.magnitude| ≤ 5 / 10 ^ 11 := by
    rw [abs_le]
    constructor <;> linarith
  rw [denoted_render, Dyadic.value, ← mul_sub, abs_mul]
  cases v.negative <;> simpa using near

/-- Integers are whole numbers of units, so nothing is rounded. -/
theorem denoted_integer {n : ℤ} (isInteger : v.value = n) : denoted v.render = v.value := by
  have whole : v.magnitude = n.natAbs := by
    have same : |v.value| = v.magnitude := by
      unfold Dyadic.value
      rw [abs_mul, abs_of_nonneg v.magnitude_nonneg]
      cases v.negative <;> simp
    rw [← same, isInteger, Nat.cast_natAbs, Int.cast_abs]
  have units : v.scaled = n.natAbs * 10 ^ 10 := by
    have nearest := scaled_nearest v
    rw [whole] at nearest
    exact Nearest.of_natCast (by exact_mod_cast nearest)
  have exact : (v.scaled : ℚ) / 10 ^ 10 = n.natAbs := by
    rw [units, Nat.cast_mul, Nat.cast_pow, Nat.cast_ofNat, mul_div_cancel_right₀ _ (by positivity)]
  rw [denoted_render, Dyadic.value, whole, exact]

theorem scaled_mono (le : v.magnitude ≤ w.magnitude) :
    (v.scaled : ℚ) / 10 ^ 10 ≤ w.scaled / 10 ^ 10 := by
  have mono := (scaled_nearest v).mono (scaled_nearest w) (by linarith)
  have cast : (v.scaled : ℚ) ≤ w.scaled := by exact_mod_cast mono
  linarith

theorem scaled_zero (zero : v.magnitude = 0) : v.scaled = 0 := by
  have nearest := scaled_nearest v
  rw [zero, zero_mul] at nearest
  exact Nearest.of_natCast (by exact_mod_cast nearest)

/-- Rounding a magnitude keeps the order, and so does giving it a sign. -/
theorem denoted_mono (le : v.value ≤ w.value) : denoted v.render ≤ denoted w.render := by
  have positive : (0 : ℚ) ≤ v.scaled / 10 ^ 10 := by positivity
  have positive' : (0 : ℚ) ≤ w.scaled / 10 ^ 10 := by positivity
  have nonneg := v.magnitude_nonneg
  have nonneg' := w.magnitude_nonneg
  rw [denoted_render, denoted_render]
  unfold Dyadic.value at le
  cases sign : v.negative <;> cases sign' : w.negative <;>
    simp only [sign, sign', Bool.false_eq_true, if_true, if_false, one_mul, neg_mul] at le ⊢
  · exact scaled_mono le
  · -- Only zero is at most a number that is not positive.
    rw [scaled_zero (by linarith : v.magnitude = 0), scaled_zero (by linarith : w.magnitude = 0)]
    norm_num
  · linarith
  · have mono : (w.scaled : ℚ) / 10 ^ 10 ≤ v.scaled / 10 ^ 10 := scaled_mono (by linarith)
    linarith

/-- The text of a finite number is a canonical numeral at most half a unit of the tenth place away
from it, it is exact for integers, and the texts of numbers are in the order of the numbers. -/
theorem renderBits_nearest {bits : UInt64} {v : Dyadic} (finite : classify bits = .finite v) :
    (∃ decimal : Decimal, decimal.Canonical ∧ renderBits bits = decimal.text) ∧
      |denoted (renderBits bits) - v.value| ≤ 5 / 10 ^ 11 ∧
      (∀ n : ℤ, v.value = n → denoted (renderBits bits) = n) ∧
      ∀ {other : UInt64} {w : Dyadic}, classify other = .finite w → v.value ≤ w.value →
        denoted (renderBits bits) ≤ denoted (renderBits other) := by
  have text : renderBits bits = v.render := by rw [renderBits, finite]
  rw [text]
  refine ⟨⟨v.decimal, canonical_decimal v, render_eq v⟩, denoted_near v, fun n isInteger => ?_,
    fun {other w} finite' le => ?_⟩
  · rw [denoted_integer isInteger, isInteger]
  · have text' : renderBits other = w.render := by rw [renderBits, finite']
    rw [text']
    exact denoted_mono le

/-- Half a unit beyond the limit of integers, and the greatest integer below it. -/
theorem renderBits_nearest_around_limit :
    classify 0x430c6bf52633fff8 = .finite ⟨false, 7999999999999992, -3⟩ ∧
      classify 0x430c6bf526340004 = .finite ⟨false, 8000000000000004, -3⟩ ∧
      (⟨false, 7999999999999992, -3⟩ : Dyadic).value ≤ (⟨false, 8000000000000004, -3⟩ : Dyadic).value ∧
      denoted (renderBits 0x430c6bf52633fff8) = (999999999999999 : ℤ) ∧
      denoted (renderBits 0x430c6bf52633fff8) ≤ denoted (renderBits 0x430c6bf526340004) := by
  have whole : classify 0x430c6bf52633fff8 = .finite ⟨false, 7999999999999992, -3⟩ := rfl
  have half : classify 0x430c6bf526340004 = .finite ⟨false, 8000000000000004, -3⟩ := rfl
  have le : (⟨false, 7999999999999992, -3⟩ : Dyadic).value
      ≤ (⟨false, 8000000000000004, -3⟩ : Dyadic).value := by
    norm_num [Dyadic.value, Dyadic.magnitude]
  have isInteger : (⟨false, 7999999999999992, -3⟩ : Dyadic).value = (999999999999999 : ℤ) := by
    norm_num [Dyadic.value, Dyadic.magnitude]
  obtain ⟨-, -, exact, mono⟩ := renderBits_nearest whole
  exact ⟨whole, half, le, exact _ isInteger, mono half le⟩

end Texts

end ScriptMachine.Number
