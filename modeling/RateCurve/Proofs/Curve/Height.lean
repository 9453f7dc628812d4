import RateCurve.Curve.Hump
import RateCurve.Proofs.Double.Integer

namespace RateCurve
open Double

section Exponential

theorem isNaN_eq_false {x : Float} (h : HasValue x) : x.isNaN = false :=
  Bool.eq_false_of_not_eq_true fun hn => isNaN_iff.1 hn h

theorem Exponential.confine_mem (x y : Float) :
    0.0 ≤ confine x y ∧ value (confine x y) ≤ 1 := by
  have hleast : ∃ least : Float, (0.0 ≤ least ∧ least ≤ 1.0) ∧
      confine x y = if y < 1.0 then (if least < y then y else least) else 1.0 := by
    by_cases hx : -8.0 ≤ x
    · exact ⟨0.000244140625, by decide +kernel, by rw [confine, if_pos hx]⟩
    · exact ⟨0.0, ⟨zero_nonneg, one_nonneg⟩, by rw [confine, if_neg hx]⟩
  obtain ⟨least, ⟨h0, h1⟩, h⟩ := hleast
  rw [h]
  rw [le_iff, value_one] at h1
  split_ifs with hy hl
  · rw [lt_iff, value_one] at hy
    rw [lt_iff] at hl
    exact ⟨nonneg_iff.2 ⟨hy.1, (value_nonneg h0).trans hl.2.2.le⟩, hy.2.2.le⟩
  · exact ⟨h0, h1.2.2⟩
  · exact ⟨one_nonneg, value_one.le⟩

/-- The exponential of a number, as far as it is used, lies between zero and one. -/
theorem Exponential.exp_mem {x : Float} (h : HasValue x) : 0.0 ≤ exp x ∧ value (exp x) ≤ 1 := by
  rw [exp, isNaN_eq_false h, if_neg Bool.false_ne_true]
  split_ifs
  · exact ⟨zero_nonneg, value_zero.trans_le zero_le_one⟩
  · exact confine_mem _ _
  · exact confine_mem _ _

theorem Exponential.value_least : value 0.000244140625 = 2 ^ (-12 : ℤ) := by
  rw [value, show (0.000244140625 : Float).toModel.unpack =
    .finite .positive (2 ^ 52) (-64) (by decide) by rfl, unpackedValue, factor]
  norm_num

theorem Exponential.le_confine {x : Float} (h : -8.0 ≤ x) (y : Float) :
    2 ^ (-12 : ℤ) ≤ value (confine x y) := by
  have hone : (2 : ℝ) ^ (-12 : ℤ) ≤ 1 := by norm_num
  rw [confine, if_pos h]
  split_ifs with hy hl
  · exact value_least.symm.trans_le (lt_iff.1 hl).2.2.le
  · exact value_least.ge
  · exact hone.trans_eq value_one.symm

theorem Exponential.le_exp {x : Float} (h : -8.0 ≤ x) : 2 ^ (-12 : ℤ) ≤ value (exp x) := by
  obtain ⟨h8, hx, hle⟩ := le_iff.1 h
  have hnot (y : Float) (hy : y < -8.0) : ¬x ≤ y := fun hxy =>
    ((le_iff.1 hxy).2.2.trans_lt (lt_iff.1 hy).2.2).not_ge hle
  rw [exp, isNaN_eq_false hx, if_neg Bool.false_ne_true, if_neg (hnot _ (by decide +kernel)),
    if_neg (hnot _ (by decide +kernel))]
  exact le_confine h _

theorem Exponential.isFinite_exp {x : Float} (h : HasValue x) : (exp x).isFinite = true := by
  obtain ⟨h0, h1⟩ := exp_mem h
  refine isFinite_iff.2 ⟨hasValue_of_nonneg h0, ?_⟩
  rw [abs_of_nonneg (value_nonneg h0)]
  exact h1.trans_lt one_lt_limit

end Exponential

section Bell

variable {centre sharpness x : Float}

theorem hasValue_mul_of_pos (hx : HasValue x) (hs : sharpness.isFinite = true)
    (hs0 : value sharpness ≠ 0) : HasValue (x * sharpness) := by
  apply hasValue_mul hx (hasValue_of_isFinite hs)
  by_cases hf : x.isFinite = true
  · exact .inl ⟨hf, hs⟩
  · exact .inr ⟨value_ne_zero_of_not_isFinite hx (Bool.of_not_eq_true hf), hs0⟩

theorem bell_bounds (hx : HasValue x) (hc : centre.isFinite = true)
    (hs : sharpness.isFinite = true) (hs0 : 0.0 < sharpness) :
    0.0 ≤ bell centre sharpness x ∧ value (bell centre sharpness x) ≤ value sharpness := by
  obtain ⟨-, hspos⟩ := pos_iff.1 hs0
  have hz : HasValue ((x - centre) * sharpness) :=
    hasValue_mul_of_pos (hasValue_sub hx hc) hs hspos.ne'
  simp only [bell]
  generalize (x - centre) * sharpness = z at hz ⊢
  have hzz : HasValue (-z * z) := by
    apply hasValue_mul (hasValue_neg.2 hz) hz
    by_cases hf : z.isFinite = true
    · exact .inl ⟨(isFinite_neg z).trans hf, hf⟩
    · have := value_ne_zero_of_not_isFinite hz (Bool.of_not_eq_true hf)
      exact .inr ⟨by rwa [value_neg, neg_ne_zero], this⟩
  obtain ⟨h0, h1⟩ := Exponential.exp_mem hzz
  have h := nearestTo_mul (Exponential.isFinite_exp hzz) hs
  exact ⟨h.nonneg (mul_nonneg (value_nonneg h0) hspos.le),
    h.ge (mul_le_of_le_one_left hspos.le h1)⟩

end Bell

end RateCurve
