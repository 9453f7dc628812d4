import RateCurve.Proofs.Curve.Height
import RateCurve.Proofs.Double.Precision

namespace RateCurve
open Double

namespace Spread

theorem reach_mem :
    0.0 < (reach : Float) ∧ (reach : Float).isFinite = true ∧ (reach : Float) ≤ ofInt 4 := by
  decide +kernel

theorem reach_pos : 0.0 < (reach : Float) :=
  reach_mem.1

theorem isFinite_reach : (reach : Float).isFinite = true :=
  reach_mem.2.1

theorem value_reach_le : value (reach : Float) ≤ 4 := by
  have := (le_iff.1 reach_mem.2.2).2.2
  rwa [value_ofInt_ofNat (by norm_num)] at this

theorem value_reach_mem : 2.69 ≤ value (reach : Float) ∧ value (reach : Float) ≤ 2.71 := by
  have h27 : value (ofInt 27) = 27 := value_ofInt_ofNat (by norm_num)
  have h10 : value (ofInt 10) = 10 := value_ofInt_ofNat (by norm_num)
  have h10' : value (ofInt 10) ≠ 0 := by
    rw [h10]
    norm_num
  have h : NearestTo reach (value (ofInt 27) / value (ofInt 10)) :=
    nearestTo_div (by rfl) (by rfl) h10'
  rw [h27, h10] at h
  have hone : (2 : ℝ) ^ (-1022 : ℤ) ≤ 1 := zpow_le_one_of_nonpos₀ one_le_two (by norm_num)
  obtain ⟨hlo, hhi⟩ := h.mem_of_le isFinite_reach (by linarith)
  constructor <;> linarith

end Spread

section

variable {floor centre : Float} (hf : 0.0 < floor) (hc : 0.0 ≤ centre)
include hf hc

theorem nearestTo_sum : NearestTo (centre + floor) (value centre + value floor) :=
  nearestTo_add_of_nonneg hc (nonneg_of_pos hf)

theorem sum_pos : 0.0 < centre + floor := by
  have h := nearestTo_sum hf hc
  have := h.le (y := floor) (by linarith [value_nonneg hc])
  exact pos_iff.2 ⟨h.hasValue, (pos_iff.1 hf).2.trans_le this⟩

theorem zpow_le_sqrt_sum : 2 ^ (-537 : ℤ) ≤ √(value (centre + floor)) := by
  apply Real.le_sqrt_of_sq_le
  refine le_trans (le_of_eq ?_) (zpow_le_value (sum_pos hf hc))
  rw [← zpow_natCast, ← zpow_mul]
  norm_num

theorem width_bounds (hs : (centre + floor).isFinite = true) :
    (Spread.width floor centre).isFinite = true ∧
      2 ^ (-537 : ℤ) ≤ value (Spread.width floor centre) ∧
      value (Spread.width floor centre) ≤ 2 ^ (512 : ℤ) := by
  have hpos := sum_pos hf hc
  have hle : value (centre + floor) ≤ limit := (abs_le.1 (abs_value_le _)).2
  have hw : NearestTo (Spread.width floor centre) √(value (centre + floor)) :=
    nearestTo_sqrt hs (pos_iff.1 hpos).2.le
  have hhi : √(value (centre + floor)) ≤ 2 ^ (512 : ℤ) := by
    refine Real.sqrt_le_iff.2 ⟨by positivity, hle.trans (le_of_eq ?_)⟩
    rw [limit, ← zpow_natCast, ← zpow_mul]
    norm_num
  obtain ⟨hwf, -, hwhi⟩ :=
    hw.bounds_zpow 512 (by norm_num) (by norm_num) (Real.sqrt_nonneg _) hhi
  exact ⟨hwf, hw.onGrid_le (.zpow (by norm_num)) (abs_zpow_le_limit (by norm_num))
    (zpow_le_sqrt_sum hf hc), hwhi⟩

theorem value_width_pos (hs : (centre + floor).isFinite = true) :
    0 < value (Spread.width floor centre) :=
  lt_of_lt_of_le (by positivity) (width_bounds hf hc hs).2.1

theorem zpow_le_inv_width (hs : (centre + floor).isFinite = true) :
    2 ^ (-512 : ℤ) ≤ 1 / value (Spread.width floor centre) := by
  rw [one_div, zpow_neg]
  exact inv_anti₀ (value_width_pos hf hc hs) (width_bounds hf hc hs).2.2

theorem sharpness_bounds (hs : (centre + floor).isFinite = true) :
    (1.0 / Spread.width floor centre).isFinite = true ∧ 0.0 < 1.0 / Spread.width floor centre ∧
      value (1.0 / Spread.width floor centre) ≤ 2 ^ (537 : ℤ) := by
  obtain ⟨hwf, hlo, -⟩ := width_bounds hf hc hs
  have hpos := value_width_pos hf hc hs
  have hge := zpow_le_inv_width hf hc hs
  have h := nearestTo_div isFinite_one hwf hpos.ne'
  rw [value_one] at h
  have hle : 1 / value (Spread.width floor centre) ≤ 2 ^ (537 : ℤ) := by
    rw [one_div, show (537 : ℤ) = -(-537) by norm_num, zpow_neg]
    exact inv_anti₀ (by positivity) hlo
  obtain ⟨hf, -, hhigh⟩ := h.bounds_zpow 537 (by norm_num) (by norm_num) (by positivity) hle
  have hlow := h.onGrid_le (.zpow (by norm_num)) (abs_zpow_le_limit (by norm_num)) hge
  exact ⟨hf, pos_iff.2 ⟨h.hasValue, lt_of_lt_of_le (by positivity) hlow⟩, hhigh⟩

theorem reach_bounds (hs : (centre + floor).isFinite = true) :
    (Spread.reach * Spread.width floor centre).isFinite = true ∧
      0.0 ≤ Spread.reach * Spread.width floor centre ∧
      value (Spread.reach * Spread.width floor centre) ≤ 2 ^ (514 : ℤ) := by
  obtain ⟨hwf, -, hhi⟩ := width_bounds hf hc hs
  have h := nearestTo_mul Spread.isFinite_reach hwf
  have hr0 := (pos_iff.1 Spread.reach_pos).2
  have hw0 := (value_width_pos hf hc hs).le
  have hr : value Spread.reach * value (Spread.width floor centre) ≤ 2 ^ (514 : ℤ) :=
    calc
      value Spread.reach * value (Spread.width floor centre) ≤ 4 * 2 ^ (512 : ℤ) :=
        mul_le_mul Spread.value_reach_le hhi hw0 zero_le_four
      _ = 2 ^ (514 : ℤ) := by
        rw [show (514 : ℤ) = 2 + 512 from rfl, zpow_add₀ two_ne_zero]
        norm_num
  exact h.bounds_zpow 514 (by norm_num) (by norm_num) (by positivity) hr

theorem isFinite_lower (hcf : centre.isFinite = true) (hs : (centre + floor).isFinite = true) :
    (Spread.lower centre (Spread.width floor centre)).isFinite = true := by
  obtain ⟨hrf, hr0, -⟩ := reach_bounds hf hc hs
  refine (nearestTo_sub hcf hrf).isFinite ((isFinite_neg _).trans hrf) hcf ?_ ?_
  · rw [value_neg]
    linarith [value_nonneg hc]
  · linarith [value_nonneg hr0]

theorem isFinite_upper (hcf : centre.isFinite = true) (hs : (centre + floor).isFinite = true) :
    (Spread.upper centre (Spread.width floor centre)).isFinite = true := by
  obtain ⟨hrf, hr0, hr⟩ := reach_bounds hf hc hs
  apply (nearestTo_add hcf hrf).isFinite_of_abs_lt
  have hc0 := value_nonneg hc
  have hr0 := value_nonneg hr0
  have hmax := (abs_le.1 (abs_value_le_of_isFinite hcf)).2
  have h₁ : (2 : ℝ) ^ (971 : ℤ) = 2 ^ (970 : ℤ) + 2 ^ (970 : ℤ) := by
    rw [show (971 : ℤ) = 970 + 1 from rfl, zpow_add_one₀ two_ne_zero, mul_two]
  have h₂ : (2 : ℝ) ^ (514 : ℤ) < 2 ^ (970 : ℤ) := zpow_lt_zpow_right₀ one_lt_two (by norm_num)
  rw [abs_of_nonneg (by linarith)]
  -- The powers are too large to be worked out.
  generalize (2 : ℝ) ^ (970 : ℤ) = a at h₁ h₂ ⊢
  generalize (2 : ℝ) ^ (971 : ℤ) = b at h₁ hmax
  generalize (2 : ℝ) ^ (514 : ℤ) = c at h₂ hr
  linarith

theorem unpack_lower (hcf : centre.isFinite = true) (hs : (centre + floor).isFinite = false) :
    (Spread.lower centre (Spread.width floor centre)).toModel.unpack = .infinity .negative := by
  have hpos := sum_pos hf hc
  have hsum := unpack_eq_infinity_of_nonneg (pos_iff.1 hpos).1 hs (pos_iff.1 hpos).2.le
  have hw := unpack_sqrt_of_infinity hsum
  have hr := unpack_mul_of_infinity Spread.isFinite_reach (pos_iff.1 Spread.reach_pos).2 hw
  exact unpack_infinity_sub hcf hr

theorem not_isFinite_lower (hcf : centre.isFinite = true)
    (hs : (centre + floor).isFinite = false) :
    (Spread.lower centre (Spread.width floor centre)).isFinite = false :=
  isFinite_of_infinity (unpack_lower hf hc hcf hs)

theorem around_eq (hcf : centre.isFinite = true) (hs : (centre + floor).isFinite = true)
    (count : ℤ) :
    Span.around centre (Spread.width floor centre) count =
      .ok (if count ≤ (⌈value (Spread.lower centre (Spread.width floor centre))⌉.toNat : ℤ)
        then none
        else some ⟨⌈value (Spread.lower centre (Spread.width floor centre))⌉.toNat,
          min (count - 1) ⌊value (Spread.upper centre (Spread.width floor centre))⌋⟩) := by
  rw [Span.around, Arithmetic.ceil_double, Arithmetic.floor_double,
    ceil_of_isFinite (isFinite_lower hf hc hcf hs),
    floor_of_isFinite (isFinite_upper hf hc hcf hs)]
  simp only [bind, Except.bind, pure, Except.pure]
  split_ifs <;> rfl

/-- The bounds of a hump can be worked out exactly where the square of its width is finite. -/
theorem around_isOk_iff (hcf : centre.isFinite = true) (count : ℤ) :
    (∃ s, Span.around centre (Spread.width floor centre) count = .ok s) ↔
      (centre + floor).isFinite = true := by
  constructor
  · rintro ⟨s, h⟩
    by_contra hs
    have hl := not_isFinite_lower hf hc hcf (Bool.of_not_eq_true hs)
    cases hceil : Double.ceil (Spread.lower centre (Spread.width floor centre)) with
    | error e =>
      rw [Span.around, Arithmetic.ceil_double, hceil] at h
      cases h
    | ok n =>
      rw [isFinite_of_ceil hceil] at hl
      cases hl
  · intro hs
    exact ⟨_, around_eq hf hc hcf hs count⟩

end

end RateCurve
