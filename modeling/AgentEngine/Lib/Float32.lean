import Mathlib.Data.Int.Log
import Mathlib.Data.Rat.Floor
import Mathlib.Tactic.LinearCombination
import Mathlib.Tactic.Positivity

/-!
Single precision numbers, as far as their 24 bits of precision go.

The exponent is unbounded here, so this is about numbers that neither overflow nor become
subnormal.

* `fl_eq_self`: a number that can be represented is not rounded.
* `representable_fl`: a rounded number can be represented.
* `Representable.fl_sub_lt_iff`: a difference compares with a small integer as if it were not rounded.
* `le_fl`, `fl_le`: rounding changes a number by no more than one part in 2 ^ 24.
-/

namespace AgentEngine.Lib.Float32

variable (x : ℚ)

/-- Round to an integer, and to the even one of two that are equally near. -/
def roundEven : ℤ :=
  if x - ⌊x⌋ < 1 / 2 then ⌊x⌋
  else if x - ⌊x⌋ > 1 / 2 then ⌊x⌋ + 1
  else if ⌊x⌋ % 2 = 0 then ⌊x⌋ else ⌊x⌋ + 1

/-- The distance of the numbers with 24 bits around `x`. -/
def ulp : ℚ := 2 ^ (Int.log 2 |x| - 23)

/-- Round to 24 bits. -/
def fl : ℚ := roundEven (x / ulp x) * ulp x

/-- A number with at most 24 bits. -/
def Representable : Prop := ∃ n k : ℤ, x = n * 2 ^ k ∧ |n| < 2 ^ 24

theorem roundEven_intCast (n : ℤ) : roundEven n = n := by
  rw [roundEven, Int.floor_intCast, sub_self, if_pos (by norm_num)]

theorem roundEven_le : (roundEven x : ℚ) ≤ x + 1 / 2 := by
  have := Int.floor_le x
  unfold roundEven
  split_ifs <;> push_cast <;> linarith

theorem le_roundEven : x - 1 / 2 ≤ roundEven x := by
  have := Int.lt_floor_add_one x
  unfold roundEven
  split_ifs <;> push_cast <;> linarith

theorem ulp_pos : 0 < ulp x := zpow_pos (by norm_num) _

/-- A number is between 2 ^ 23 and 2 ^ 24 of its units. -/
theorem abs_div_ulp {x : ℚ} (ne : x ≠ 0) : 2 ^ 23 ≤ |x| / ulp x ∧ |x| / ulp x < 2 ^ 24 := by
  have pos : 0 < |x| := abs_pos.mpr ne
  have low := Int.zpow_log_le_self (b := 2) (by norm_num) pos
  have high := Int.lt_zpow_succ_log_self (b := 2) (by norm_num) |x|
  have scale : (2 : ℚ) ^ Int.log 2 |x| = 2 ^ 23 * ulp x := by
    rw [ulp, zpow_sub₀ (by norm_num)]
    norm_num
    ring
  rw [zpow_add_one₀ (by norm_num)] at high
  push_cast at low high
  rw [scale] at low high
  constructor
  · rwa [le_div_iff₀ (ulp_pos x)]
  · rw [div_lt_iff₀ (ulp_pos x)]
    linarith

theorem representable_intCast {n : ℤ} (small : |n| < 2 ^ 24) : Representable n :=
  ⟨n, 0, by norm_num, small⟩

theorem fl_eq_self {x : ℚ} (h : Representable x) : fl x = x := by
  by_cases zero : x = 0
  · subst zero
    have : roundEven (0 / ulp 0) = 0 := by
      rw [zero_div]
      exact_mod_cast roundEven_intCast 0
    rw [fl, this]
    norm_num
  obtain ⟨n, k, rfl, small⟩ := h
  -- the unit of the number is no larger than `2 ^ k`
  have bounds := (abs_div_ulp zero).1
  rw [le_div_iff₀ (ulp_pos _)] at bounds
  obtain ⟨j, hj⟩ : ∃ j : ℕ, (2 : ℚ) ^ k / ulp (n * 2 ^ k) = 2 ^ j := by
    have order : Int.log 2 |(n : ℚ) * 2 ^ k| - 23 ≤ k := by
      by_contra larger
      have step : (2 : ℚ) ^ (k + 1) ≤ ulp (n * 2 ^ k) :=
        zpow_le_zpow_right₀ (by norm_num) (by omega)
      rw [zpow_add_one₀ (by norm_num)] at step
      have powers : (0 : ℚ) < 2 ^ k := zpow_pos (by norm_num) _
      have magnitude : |(n : ℚ) * 2 ^ k| = |(n : ℚ)| * 2 ^ k := by
        rw [abs_mul, abs_of_pos powers]
      have bits : |(n : ℚ)| < 2 ^ 24 := by exact_mod_cast small
      rw [magnitude] at bounds
      nlinarith
    refine ⟨(k - (Int.log 2 |(n : ℚ) * 2 ^ k| - 23)).toNat, ?_⟩
    rw [ulp, ← zpow_sub₀ (by norm_num), ← zpow_natCast, Int.toNat_of_nonneg (by omega)]
  have whole : (n : ℚ) * 2 ^ k / ulp (n * 2 ^ k) = ((n * 2 ^ j : ℤ) : ℚ) := by
    push_cast
    rw [mul_div_assoc, hj]
  rw [fl, whole, roundEven_intCast, ← whole]
  exact div_mul_cancel₀ _ (ne_of_gt (ulp_pos _))

theorem representable_fl {x : ℚ} (ne : x ≠ 0) : Representable (fl x) := by
  have units := (abs_div_ulp ne).2
  rw [← abs_of_pos (ulp_pos x), ← abs_div, abs_lt] at units
  have above : roundEven (x / ulp x) < 2 ^ 24 + 1 := by
    have := roundEven_le (x / ulp x)
    exact_mod_cast (show (roundEven (x / ulp x) : ℚ) < 2 ^ 24 + 1 by linarith)
  have below : -(2 ^ 24 + 1) < roundEven (x / ulp x) := by
    have := le_roundEven (x / ulp x)
    exact_mod_cast (show (-(2 ^ 24 + 1) : ℚ) < roundEven (x / ulp x) by linarith)
  have carry : ∀ n : ℚ, n * 2 ^ 24 * ulp x = n * 2 ^ (24 + (Int.log 2 |x| - 23)) := by
    intro n
    rw [zpow_add₀ (by norm_num), ulp]
    norm_num
    ring
  -- a number that was rounded up to 2 ^ 24 units has one bit left
  rcases lt_trichotomy (roundEven (x / ulp x)) (-2 ^ 24) with least | least | rest
  · omega
  · refine ⟨-1, 24 + (Int.log 2 |x| - 23), ?_, by norm_num⟩
    rw [fl, least]
    push_cast
    rw [← carry]
    ring
  · by_cases most : roundEven (x / ulp x) = 2 ^ 24
    · refine ⟨1, 24 + (Int.log 2 |x| - 23), ?_, by norm_num⟩
      rw [fl, most]
      push_cast
      rw [← carry]
      ring
    · exact ⟨roundEven (x / ulp x), Int.log 2 |x| - 23, rfl, abs_lt.mpr ⟨by omega, by omega⟩⟩

/-- The difference of a number that can be represented and an integer is not rounded if it is neither
negative nor too large. -/
theorem Representable.sub_intCast {x : ℚ} (h : Representable x) {d : ℤ} (nonneg : 0 ≤ d)
    (le : (d : ℚ) ≤ x) (small : x - d < 2 ^ 24) : Representable (x - d) := by
  obtain ⟨n, k, rfl, bits⟩ := h
  rcases le_or_gt 0 k with whole | fraction
  · obtain ⟨j, rfl⟩ := Int.eq_ofNat_of_zero_le whole
    have cast : (n : ℚ) * 2 ^ (j : ℤ) = ((n * 2 ^ j : ℤ) : ℚ) := by
      push_cast
      rw [zpow_natCast]
    rw [cast] at le small ⊢
    have le' : d ≤ n * 2 ^ j := by exact_mod_cast le
    have small' : n * 2 ^ j - d < 2 ^ 24 := by exact_mod_cast small
    refine ⟨n * 2 ^ j - d, 0, by push_cast; ring, abs_lt.mpr ⟨by omega, by omega⟩⟩
  · obtain ⟨j, hj⟩ := Int.eq_ofNat_of_zero_le (show 0 ≤ -k by omega)
    have power : (2 : ℚ) ^ k * 2 ^ j = 1 := by
      rw [← zpow_natCast, ← zpow_add₀ (by norm_num), ← hj]
      norm_num
    have unit : (0 : ℚ) < 2 ^ k := zpow_pos (by norm_num) _
    have scaled : ((n - d * 2 ^ j : ℤ) : ℚ) * 2 ^ k = n * 2 ^ k - d := by
      push_cast
      linear_combination (-(d : ℚ)) * power
    have nonneg' : 0 ≤ n - d * 2 ^ j := by
      by_contra negative
      have : ((n - d * 2 ^ j : ℤ) : ℚ) < 0 := by exact_mod_cast not_le.mp negative
      nlinarith
    refine ⟨n - d * 2 ^ j, k, scaled.symm, ?_⟩
    have := abs_lt.mp bits
    have := mul_nonneg nonneg (show (0 : ℤ) ≤ 2 ^ j by positivity)
    exact abs_lt.mpr ⟨by omega, by omega⟩

/-- Rounding gains no more than one part in 2 ^ 24. -/
theorem fl_le {x : ℚ} (pos : 0 < x) : fl x ≤ x * (1 + 1 / 2 ^ 24) := by
  have units := (abs_div_ulp (ne_of_gt pos)).1
  rw [abs_of_pos pos] at units
  have rounded := roundEven_le (x / ulp x)
  have unit := ulp_pos x
  have scaled : roundEven (x / ulp x) ≤ x / ulp x * (1 + 1 / 2 ^ 24) := by
    refine le_trans rounded ?_
    linarith
  calc roundEven (x / ulp x) * ulp x ≤ x / ulp x * (1 + 1 / 2 ^ 24) * ulp x := by gcongr
    _ = x * (1 + 1 / 2 ^ 24) := by field_simp

/-- Rounding loses no more than one part in 2 ^ 24. -/
theorem le_fl {x : ℚ} (pos : 0 < x) : x * (1 - 1 / 2 ^ 24) ≤ fl x := by
  have units := (abs_div_ulp (ne_of_gt pos)).1
  rw [abs_of_pos pos] at units
  have rounded := le_roundEven (x / ulp x)
  have unit := ulp_pos x
  have scaled : x / ulp x * (1 - 1 / 2 ^ 24) ≤ roundEven (x / ulp x) := by
    refine le_trans ?_ rounded
    linarith
  calc x * (1 - 1 / 2 ^ 24) = x / ulp x * (1 - 1 / 2 ^ 24) * ulp x := by field_simp
    _ ≤ roundEven (x / ulp x) * ulp x := by gcongr

theorem Representable.fl_sub_lt_iff {x : ℚ} (h : Representable x) {d n : ℤ} (nonneg : 0 ≤ d)
    (le : (d : ℚ) ≤ x) (small : n < 2 ^ 24) : fl (x - d) < n ↔ x - d < n := by
  by_cases large : x - d < 2 ^ 24
  · rw [fl_eq_self (h.sub_intCast nonneg le large)]
  · -- both sides fail: rounding loses less than what there is above the integer
    have bound : (n : ℚ) ≤ 2 ^ 24 - 1 := by exact_mod_cast (show n ≤ 2 ^ 24 - 1 by omega)
    have rounded := le_fl (show 0 < x - d by linarith)
    norm_num at large bound rounded ⊢
    constructor <;> intro <;> linarith

end AgentEngine.Lib.Float32
