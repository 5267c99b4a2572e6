import Mathlib.Algebra.Order.Ring.Rat
import Mathlib.Data.Rat.Cast.Order
import Mathlib.Tactic.Ring
import Rbo.Foundation.JsonRoundTrip

/-!
# What numbers of the language denote

A finite number denotes a rational number.  A natural number has a number of
its own, which survives `JSON.stringify` and `JSON.parse`.
-/

namespace Rbo.Foundation

def Decimal.value (number : Decimal) : ℚ :=
  number.digits * 10 ^ number.exponent

/-- The value of a finite number. -/
def JsNumber.value? : JsNumber → Option ℚ
  | .nan => none
  | .infinity _ => none
  | .zero _ => some 0
  | .finite negative magnitude =>
    some (if negative then -magnitude.value else magnitude.value)

def JsNumber.ofNat (value : Nat) : JsNumber :=
  .ofLiteral { negative := false, coefficient := value, exponent := 0 }

/-- Zeros that are moved to the exponent do not change the value. -/
theorem Decimal.value_ofCoefficient (coefficient : Nat) (exponent : Int)
    (positive : 0 < coefficient) :
    (Decimal.ofCoefficient coefficient exponent positive).value =
      coefficient * 10 ^ exponent := by
  induction coefficient, exponent, positive using
      Decimal.ofCoefficient.induct with
  | case1 coefficient exponent positive ends inductionHypothesis =>
    rw [Decimal.ofCoefficient, dif_pos ends, inductionHypothesis]
    have whole : (coefficient : ℚ) = (coefficient / 10 : Nat) * 10 := by
      exact_mod_cast (Nat.div_mul_cancel
        (Nat.dvd_of_mod_eq_zero ends)).symm
    rw [whole, zpow_add₀ (by decide), zpow_one]
    ring
  | case2 coefficient exponent positive ends =>
    rw [Decimal.ofCoefficient, dif_neg ends]
    rfl

theorem JsNumber.value?_ofNat (value : Nat) :
    (JsNumber.ofNat value).value? = some (value : ℚ) := by
  unfold JsNumber.ofNat JsNumber.ofLiteral
  by_cases positive : 0 < value
  · rw [dif_pos positive]
    have same := Decimal.value_ofCoefficient value 0 positive
    rw [zpow_zero, mul_one] at same
    exact congrArg some same
  · obtain rfl : value = 0 := Nat.eq_zero_of_not_pos positive
    rfl

theorem storedNumber_ofNat (value : Nat) :
    storedNumber (JsNumber.ofNat value) = .number (JsNumber.ofNat value) := by
  unfold JsNumber.ofNat JsNumber.ofLiteral
  split <;> rfl

/-! ## The text of a natural number -/

/-- Moved zeros are a power of ten. -/
theorem Decimal.ofCoefficient_scale (coefficient : Nat) (exponent : Int)
    (positive : 0 < coefficient) :
    ∃ zeros : Nat,
      (Decimal.ofCoefficient coefficient exponent positive).exponent =
        exponent + zeros ∧
      coefficient =
        (Decimal.ofCoefficient coefficient exponent positive).digits *
          10 ^ zeros := by
  induction coefficient, exponent, positive using
      Decimal.ofCoefficient.induct with
  | case1 coefficient exponent positive ends inductionHypothesis =>
    rcases inductionHypothesis with ⟨zeros, moved, whole⟩
    rw [Decimal.ofCoefficient, dif_pos ends]
    refine ⟨zeros + 1, ?_, ?_⟩
    · rw [moved]
      push_cast
      ring
    · rw [pow_succ, ← mul_assoc, ← whole]
      omega
  | case2 coefficient exponent positive ends =>
    rw [Decimal.ofCoefficient, dif_neg ends]
    exact ⟨0, (add_zero _).symm, (mul_one _).symm⟩

/-- A natural number below a power of ten is written with so many digits. -/
theorem JsNumber.text_ofNat {value width : Nat} (positive : 0 < width)
    (fits : value < 10 ^ width) (short : width ≤ 21) :
    (JsNumber.ofNat value).text.length ≤ width ∧
      ∀ char ∈ (JsNumber.ofNat value).text, char.isDigit = true := by
  unfold JsNumber.ofNat JsNumber.ofLiteral
  by_cases some : 0 < value
  · rw [dif_pos some]
    rcases Decimal.ofCoefficient_scale value 0 some with
      ⟨zeros, moved, whole⟩
    change (Decimal.text _).length ≤ width ∧ ∀ char ∈ Decimal.text _, _
    generalize Decimal.ofCoefficient value 0 some = number at moved whole
    rw [zero_add] at moved
    have least : 10 ^ zeros ≤ value := by
      rw [whole]
      exact Nat.le_mul_of_pos_left _ number.positive
    have fewer : zeros < width :=
      (Nat.pow_lt_pow_iff_right (by decide)).mp (least.trans_lt fits)
    have digits : number.digits < 10 ^ (width - zeros) := by
      refine Nat.lt_of_mul_lt_mul_right (a := 10 ^ zeros) ?_
      rw [← whole, ← pow_add, Nat.sub_add_cancel fewer.le]
      exact fits
    have length := Nat.toDigits_length 10 number.digits (width - zeros)
      (Nat.sub_pos_of_lt fewer) digits
    unfold Decimal.text
    dsimp only
    rw [moved, if_pos (by omega), Int.toNat_natCast]
    constructor
    · rw [List.length_append, List.length_replicate]
      omega
    · intro char member
      rcases List.mem_append.mp member with inDigits | zero
      · exact Nat.isDigit_of_mem_toDigits (by decide) (by decide) inDigits
      · rw [List.eq_of_mem_replicate zero]
        rfl
  · rw [dif_neg some]
    refine ⟨positive, fun char member => ?_⟩
    rw [List.mem_singleton.mp member]
    rfl

end Rbo.Foundation
