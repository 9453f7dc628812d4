import RateCurve.Proofs.Double.Integer

namespace RateCurve.Double

/-- Rounding changes a number by a part in `2 ^ 53` of it, and near zero by half of the least
double. -/
theorem abs_round_sub_le_mul (x : ℝ) :
    |round x - x| ≤ (|x| + 2 ^ (-1022 : ℤ)) * 2 ^ (-53 : ℤ) := by
  rcases eq_or_ne x 0 with rfl | h0
  · rw [round_zero, sub_self, abs_zero]
    positivity
  have hexp : (2 : ℝ) ^ (52 + exponent x) ≤ |x| + 2 ^ (-1022 : ℤ) := by
    rcases (le_exponent x).lt_or_eq with hlt | heq
    · have h := zpow_exponent_le (abs_pos.2 h0) (by rwa [exponent_abs])
      rw [exponent_abs] at h
      exact le_add_of_le_of_nonneg h (by positivity)
    · rw [← heq]
      exact le_add_of_nonneg_left (abs_nonneg x)
  calc
    |round x - x| ≤ 2 ^ exponent x / 2 := abs_round_sub_le x
    _ = 2 ^ (52 + exponent x) * 2 ^ (-53 : ℤ) := by
      rw [← zpow_add₀ two_ne_zero, show 52 + exponent x + -53 = exponent x - 1 by ring,
        zpow_sub_one₀ two_ne_zero, div_eq_mul_inv]
    _ ≤ _ := mul_le_mul_of_nonneg_right hexp (by positivity)

/-- The relative error of a rounded number, but for very small ones. -/
noncomputable def roundoff : ℝ :=
  2 ^ (-53 : ℤ)

theorem roundoff_pos : 0 < roundoff := by
  unfold roundoff
  positivity

theorem roundoff_le : roundoff ≤ 1 / 10 ^ 9 := by
  unfold roundoff
  norm_num

section

variable {x : Float} {r : ℝ}

theorem NearestTo.value_eq_round (h : NearestTo x r) (hf : x.isFinite = true) :
    value x = round r := by
  have hlt := (isFinite_iff.1 hf).2
  rw [h.value_eq, nearest] at hlt ⊢
  obtain ⟨hlo, hhi⟩ := abs_lt.1 hlt
  have hmin : min limit (round r) = round r := by
    apply min_eq_right
    by_contra hgt
    rw [min_eq_left (not_le.1 hgt).le] at hhi
    exact absurd ((le_max_right _ _).trans_lt hhi) (lt_irrefl _)
  rw [hmin] at hlo ⊢
  apply max_eq_right
  by_contra hgt
  rw [max_eq_left (not_le.1 hgt).le] at hlo
  exact lt_irrefl _ hlo

theorem NearestTo.abs_sub_le (h : NearestTo x r) (hf : x.isFinite = true) :
    |value x - r| ≤ (|r| + 2 ^ (-1022 : ℤ)) * 2 ^ (-53 : ℤ) := by
  rw [h.value_eq_round hf]
  exact abs_round_sub_le_mul r

/-- What a number is at least but for `m` relative errors it is at least but for one more after
it is rounded, and an absolute one. -/
theorem NearestTo.ge_of_le (h : NearestTo x r) (hf : x.isFinite = true) (hr0 : 0 ≤ r)
    {a b m : ℝ} (ha : 0 ≤ a) (hb : 0 ≤ b) (hm : 0 ≤ m) (hr : a * (1 - m * roundoff) - b ≤ r) :
    a * (1 - (m + 1) * roundoff) - b - roundoff ≤ value x := by
  have hu0 := roundoff_pos.le
  have hu1 := roundoff_le
  have herr := (abs_le.1 (h.abs_sub_le hf)).1
  rw [abs_of_nonneg hr0] at herr
  have hsmall : (r + 2 ^ (-1022 : ℤ)) * roundoff ≤ (r + 1) * roundoff :=
    mul_le_mul_of_nonneg_right
      (add_le_add le_rfl (zpow_le_one_of_nonpos₀ one_le_two (by norm_num))) hu0
  calc
    a * (1 - (m + 1) * roundoff) - b - roundoff ≤
        (a * (1 - m * roundoff) - b) * (1 - roundoff) - roundoff := by
      linarith [mul_nonneg (mul_nonneg ha hm) (mul_nonneg hu0 hu0), mul_nonneg hb hu0]
    _ ≤ r * (1 - roundoff) - roundoff :=
      sub_le_sub_right (mul_le_mul_of_nonneg_right hr (by linarith)) _
    _ = r - (r + 1) * roundoff := by ring
    _ ≤ r - (r + 2 ^ (-1022 : ℤ)) * roundoff := sub_le_sub_left hsmall r
    _ ≤ value x := by
      rw [roundoff]
      linarith

theorem NearestTo.ge_self (h : NearestTo x r) (hf : x.isFinite = true) (hr0 : 0 ≤ r) :
    r * (1 - roundoff) - roundoff ≤ value x := by
  have := h.ge_of_le hf hr0 (b := 0) (m := 0) hr0 le_rfl le_rfl (by linarith)
  linarith

theorem NearestTo.mem_of_le (h : NearestTo x r) (hf : x.isFinite = true)
    (hr : 2 ^ (-1022 : ℤ) ≤ r) : 0.999 * r ≤ value x ∧ value x ≤ 1.001 * r := by
  have hthousandth : (2 : ℝ) ^ (-53 : ℤ) ≤ 1 / 2000 := by norm_num
  have hr0 : 0 < r := lt_of_lt_of_le (by positivity) hr
  have herr := h.abs_sub_le hf
  rw [abs_of_pos hr0] at herr
  have hle : (r + 2 ^ (-1022 : ℤ)) * 2 ^ (-53 : ℤ) ≤ (r + r) * (1 / 2000) :=
    mul_le_mul (by linarith) hthousandth (by positivity) (by positivity)
  obtain ⟨hlo, hhi⟩ := abs_le.1 (herr.trans hle)
  constructor <;> linarith

end

end RateCurve.Double
