import Mathlib.Algebra.Order.Floor.Ring
import Mathlib.Data.Rat.Floor
import Mathlib.Tactic.Linarith
import Redcli.Config.Reading
import Redcli.Pipeline.CsvReport

/-!
# Numbers in Fixed Notation

What a program finds that converts the numbers of the report back: the number that was written, up
to half a unit of its last digit, and all of them in the same order.

## Main results

* `abs_shown_sub_le`, `shown_mono`: how far a number is rounded, and that the order is kept;
* `atof_fixedText`: a number in fixed notation is read as the number that it shows.
-/

namespace Redcli

/-! ## Rounding -/

/-- Rounding goes down or up by one half at most. -/
theorem abs_roundHalfEven_sub_le (y : ℚ) : |(roundHalfEven y : ℚ) - y| ≤ 1 / 2 := by
  have hfloor := Int.floor_le y
  have hlt := Int.lt_floor_add_one y
  rw [roundHalfEven]
  split_ifs with h
  · rw [abs_le]
    rcases h with h | ⟨h, -⟩
    · constructor <;> linarith
    · constructor <;> linarith
  · rw [not_or, not_lt] at h
    push_cast
    rw [abs_le]
    constructor <;> linarith [h.1]

/-- Rounding keeps the order of numbers. -/
theorem roundHalfEven_mono {y z : ℚ} (h : y ≤ z) : roundHalfEven y ≤ roundHalfEven z := by
  have hbounds : ∀ x : ℚ, ⌊x⌋ ≤ roundHalfEven x ∧ roundHalfEven x ≤ ⌊x⌋ + 1 := by
    intro x
    rw [roundHalfEven]
    split_ifs <;> omega
  rcases (Int.floor_mono h).lt_or_eq with hlt | heq
  · have hy := (hbounds y).2
    have hz := (hbounds z).1
    omega
  · -- between two integers the one that is farther up is not rounded down alone
    unfold roundHalfEven
    simp only [heq]
    split_ifs with hy hz hz
    · exact le_refl _
    · omega
    · exfalso
      rw [not_or, not_and, not_lt] at hy
      rcases hz with hz | ⟨hz, heven⟩
      · linarith [hy.1]
      · exact hy.2 (le_antisymm (by linarith) hy.1) heven
    · exact le_refl _

theorem roundHalfEven_nonneg {y : ℚ} (h : 0 ≤ y) : 0 ≤ roundHalfEven y := by
  have hzero : roundHalfEven 0 = 0 := by decide +kernel
  exact hzero ▸ roundHalfEven_mono h

/-! ## Numbers in fixed notation -/

/-- The number that stands for `x` with `prec` digits behind the point. -/
def shown (prec : ℕ) (x : ℚ) : ℚ :=
  signed (decide (x < 0)) ((roundHalfEven (|x| * 10 ^ prec) : ℚ) / 10 ^ prec)

/-- It is `x` up to half a unit of its last digit. -/
theorem abs_shown_sub_le (prec : ℕ) (x : ℚ) : |shown prec x - x| ≤ 1 / 2 / 10 ^ prec := by
  have hpos : (0 : ℚ) < 10 ^ prec := by positivity
  -- without the sign
  have habs : |(roundHalfEven (|x| * 10 ^ prec) : ℚ) / 10 ^ prec - (|x|)| ≤
      1 / 2 / 10 ^ prec := by
    have herror := abs_roundHalfEven_sub_le (|x| * 10 ^ prec)
    have hscaled : (roundHalfEven (|x| * 10 ^ prec) : ℚ) / 10 ^ prec - (|x|) =
        ((roundHalfEven (|x| * 10 ^ prec) : ℚ) - |x| * 10 ^ prec) / 10 ^ prec := by
      field_simp
    rw [hscaled, abs_div, abs_of_pos hpos]
    exact div_le_div_of_nonneg_right herror hpos.le
  rw [shown]
  by_cases hx : x < 0
  · rw [decide_eq_true hx, signed, if_pos rfl]
    rw [abs_of_neg hx] at habs ⊢
    rwa [← abs_neg, neg_sub, sub_neg_eq_add, add_comm, ← sub_neg_eq_add]
  · rw [decide_eq_false hx, signed, if_neg Bool.false_ne_true]
    rwa [abs_of_nonneg (not_lt.mp hx)] at habs ⊢

/-- Numbers are shown in their order. -/
theorem shown_mono (prec : ℕ) {x y : ℚ} (h : x ≤ y) : shown prec x ≤ shown prec y := by
  have hpos : (0 : ℚ) < 10 ^ prec := by positivity
  -- numbers without a sign
  have hmono : ∀ {u v : ℚ}, u ≤ v → (roundHalfEven (u * 10 ^ prec) : ℚ) / 10 ^ prec ≤
      (roundHalfEven (v * 10 ^ prec) : ℚ) / 10 ^ prec := by
    intro u v huv
    refine div_le_div_of_nonneg_right ?_ hpos.le
    exact_mod_cast roundHalfEven_mono (mul_le_mul_of_nonneg_right huv hpos.le)
  have hnonneg : ∀ u : ℚ, 0 ≤ (roundHalfEven (|u| * 10 ^ prec) : ℚ) / 10 ^ prec := by
    intro u
    refine div_nonneg ?_ hpos.le
    exact_mod_cast roundHalfEven_nonneg (mul_nonneg (abs_nonneg u) hpos.le)
  rw [shown, shown]
  by_cases hx : x < 0
  · rw [decide_eq_true hx, signed, if_pos rfl]
    by_cases hy : y < 0
    · rw [decide_eq_true hy, signed, if_pos rfl]
      exact neg_le_neg (hmono (abs_le_abs_of_nonpos hy.le h))
    · rw [decide_eq_false hy, signed, if_neg Bool.false_ne_true]
      exact (neg_nonpos.mpr (hnonneg x)).trans (hnonneg y)
  · have hy : ¬ y < 0 := not_lt.mpr ((not_lt.mp hx).trans h)
    rw [decide_eq_false hx, decide_eq_false hy, signed, if_neg Bool.false_ne_true, signed,
      if_neg Bool.false_ne_true]
    exact hmono (abs_le_abs_of_nonneg (not_lt.mp hx) h)

/-- The digits of a number in fixed notation, without the point. -/
def fixedDigits (prec : ℕ) (x : ℚ) : Text :=
  let digits := Nat.toDigits 10 (roundHalfEven (|x| * 10 ^ prec)).toNat
  List.replicate (prec + 1 - digits.length) '0' ++ digits

theorem isDigit_of_mem_fixedDigits {prec : ℕ} {x : ℚ} {c : Char} (hc : c ∈ fixedDigits prec x) :
    c.isDigit = true := by
  rcases List.mem_append.mp hc with hzero | hdigit
  · obtain rfl := List.eq_of_mem_replicate hzero
    decide
  · exact Nat.isDigit_of_mem_toDigits (by decide) (by decide) hdigit

/-- There is a digit in front of the point. -/
theorem lt_length_fixedDigits (prec : ℕ) (x : ℚ) : prec < (fixedDigits prec x).length := by
  rw [fixedDigits, List.length_append, List.length_replicate]
  omega

/-- The digits in front of the point. -/
def wholeDigits (prec : ℕ) (x : ℚ) : Digits where
  text := (fixedDigits prec x).take ((fixedDigits prec x).length - prec)
  ne_nil := by
    have hlt := lt_length_fixedDigits prec x
    rw [← List.length_pos_iff, List.length_take]
    omega
  isDigit c hc := isDigit_of_mem_fixedDigits (List.mem_of_mem_take hc)

/-- The digits behind the point. -/
def fractionDigits (prec : ℕ) (x : ℚ) (hprec : prec ≠ 0) : Digits where
  text := (fixedDigits prec x).drop ((fixedDigits prec x).length - prec)
  ne_nil := by
    have hlt := lt_length_fixedDigits prec x
    rw [← List.length_pos_iff, List.length_drop]
    omega
  isDigit c hc := isDigit_of_mem_fixedDigits (List.mem_of_mem_drop hc)

/-- A number in fixed notation as a decimal. -/
def fixedLiteral (prec : ℕ) (x : ℚ) : DecimalLiteral where
  negative := decide (x < 0)
  whole := wholeDigits prec x
  fraction := if h : prec = 0 then none else some (fractionDigits prec x h)
  exponent := none

theorem text_fixedLiteral (prec : ℕ) (x : ℚ) : (fixedLiteral prec x).text = fixedText prec x := by
  rw [fixedLiteral, DecimalLiteral.text, fixedText, signText, Option.elim_none, List.append_nil]
  simp only [decide_eq_true_eq]
  by_cases hprec : prec = 0
  · rw [dif_pos hprec, if_pos hprec]
    rfl
  · rw [dif_neg hprec, if_neg hprec]
    rfl

/-- The digits together are the rounded number. -/
theorem digitsValue_fixedDigits (prec : ℕ) (x : ℚ) :
    (digitsValue 10 (fixedDigits prec x) : ℚ) = roundHalfEven (|x| * 10 ^ prec) := by
  have hnonneg : 0 ≤ roundHalfEven (|x| * 10 ^ prec) :=
    roundHalfEven_nonneg (by positivity)
  rw [fixedDigits, digitsValue_toDigits]
  exact_mod_cast Int.toNat_of_nonneg hnonneg

theorem value_fixedLiteral (prec : ℕ) (x : ℚ) : (fixedLiteral prec x).value = shown prec x := by
  have hpos : (10 : ℚ) ^ prec ≠ 0 := by positivity
  have hsplit := congrArg (Nat.cast (R := ℚ)) (digitsValue_append 10
    ((fixedDigits prec x).take ((fixedDigits prec x).length - prec))
    ((fixedDigits prec x).drop ((fixedDigits prec x).length - prec)))
  have hlength : ((fixedDigits prec x).drop ((fixedDigits prec x).length - prec)).length =
      prec := by
    have hlt := lt_length_fixedDigits prec x
    rw [List.length_drop]
    omega
  rw [List.take_append_drop, digitsValue_fixedDigits, hlength] at hsplit
  push_cast at hsplit
  rw [fixedLiteral, DecimalLiteral.value, shown, hsplit]
  simp only [Option.elim_none, zpow_zero, mul_one]
  by_cases hprec : prec = 0
  · -- nothing stands behind the point
    rw [dif_pos hprec, Option.elim_none, add_zero]
    have hnil : (fixedDigits prec x).drop ((fixedDigits prec x).length - prec) = [] :=
      List.length_eq_zero_iff.mp (hlength.trans hprec)
    rw [hnil, hprec]
    simp [Digits.value, wholeDigits, digitsValue]
  · rw [dif_neg hprec, Option.elim_some]
    have hwidth : (fractionDigits prec x hprec).text.length = prec := hlength
    rw [hwidth, add_div, mul_div_assoc, div_self hpos, mul_one]
    rfl

/-- A number in fixed notation is read as the number that it shows. -/
theorem atof_fixedText (prec : ℕ) (x : ℚ) : atof (fixedText prec x) = .finite (shown prec x) := by
  have hread := atof_decimalLiteral (fixedLiteral prec x) (w := []) (fun _ h => by cases h)
  rw [scalarText_append (fixedLiteral prec x).isNumberChar, text_fixedLiteral,
    value_fixedLiteral] at hread
  exact (congrArg atof (List.append_nil _)).symm.trans hread

end Redcli
