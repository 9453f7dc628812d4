import Mathlib
import RateCurve.Curve.Hump

namespace RateCurve

/-- Real numbers, of which no result is rounded. -/
noncomputable local instance Arithmetic.real : Arithmetic ℝ where
  ofNat n := n
  sqrt := Real.sqrt
  floor x := .ok ⌊x⌋
  ceil x := .ok ⌈x⌉

namespace Spread

theorem mul_add_lt_mul_self_iff {k c s w : ℝ} (hc : 0 < c) (hs : 0 < s)
    (hroot : s * s = k * s + c) (hw : 0 ≤ w) : k * w + c < w * w ↔ s < w := by
  have hks : k < s := by
    have hpos : 0 < s * (s - k) := by linarith
    exact sub_pos.1 (pos_of_mul_pos_right hpos hs.le)
  have hfactor : w * w - (k * w + c) = (w - s) * (w + s - k) := by linarith
  rw [← sub_pos, hfactor, mul_pos_iff_of_pos_right (by linarith), sub_pos]

theorem reach_pos_real : 0 < (reach : ℝ) := by
  change (0 : ℝ) < (27 : ℕ) / (10 : ℕ)
  norm_num

/-- The horizon is the position at which the width has the value it is derived from. -/
theorem exists_horizon_eq {floor : ℝ} {n : ℕ} (hf : 0 < floor) (hn : 1 ≤ n) :
    ∃ s, 0 < s ∧ s * s = reach * s + (floor + n - 1) ∧
    horizon floor (n : ℝ) = s * s - floor := by
  have hn' : (1 : ℝ) ≤ n := by exact_mod_cast hn
  have hr := reach_pos_real
  have hd : 0 ≤ reach * reach + 4 * (floor + n - 1) := by nlinarith
  refine ⟨(reach + √(reach * reach + 4 * (floor + n - 1))) / 2, ?_, ?_, ?_⟩
  · have := Real.sqrt_nonneg (reach * reach + 4 * (floor + n - 1))
    linarith
  · have := Real.mul_self_sqrt hd
    linarith
  · simp only [horizon, Arithmetic.ofNat, Arithmetic.sqrt, Nat.cast_ofNat, Nat.cast_one]

/-- A hump begins after the last of `n` samples just where it is beyond the horizon. -/
theorem le_ceil_lower_iff {floor centre : ℝ} {n : ℕ} (hf : 0 < floor) (hn : 1 ≤ n)
    (hc : 0 ≤ centre) :
    (n : ℤ) ≤ ⌈lower centre (width floor centre)⌉ ↔ horizon floor (n : ℝ) < centre := by
  obtain ⟨s, hs, hroot, hhorizon⟩ := exists_horizon_eq hf hn
  have hn' : (1 : ℝ) ≤ n := by exact_mod_cast hn
  have hw : width floor centre * width floor centre = centre + floor :=
    Real.mul_self_sqrt (by linarith)
  have hw0 : 0 ≤ width floor centre := Real.sqrt_nonneg _
  have hiff := mul_add_lt_mul_self_iff (by linarith) hs hroot hw0
  rw [hhorizon, Int.le_ceil_iff]
  calc
    ((n : ℤ) : ℝ) - 1 < lower centre (width floor centre) ↔
        reach * width floor centre + (floor + n - 1) <
          width floor centre * width floor centre := by
      rw [hw, lower, Int.cast_natCast]
      constructor <;> intro <;> linarith
    _ ↔ s < width floor centre := hiff
    _ ↔ s * s < width floor centre * width floor centre := mul_self_lt_mul_self_iff hs.le hw0
    _ ↔ s * s - floor < centre := by rw [hw, sub_lt_iff_lt_add]

end Spread

namespace Span

theorem around_eq_none_iff {centre width : ℝ} {n : ℕ} (hn : 1 ≤ n) :
    around centre width n = .ok none ↔ (n : ℤ) ≤ ⌈Spread.lower centre width⌉ := by
  have hcount : (n : ℤ) ≤ (⌈Spread.lower centre width⌉.toNat : ℤ) ↔
      (n : ℤ) ≤ ⌈Spread.lower centre width⌉ := by omega
  rw [← hcount]
  simp only [around, Arithmetic.ceil, Arithmetic.floor, bind, Except.bind, pure, Except.pure]
  split_ifs with h
  · exact ⟨fun _ => h, fun _ => rfl⟩
  · exact ⟨nofun, fun h' => absurd h' h⟩

/-- The samples that an event of an age spans, with samples that stand for `resolution`
milliseconds each. -/
noncomputable def ofAge (floor resolution : ℝ) (n : ℕ) (age : ℝ) :
    Except RangeError (Option Span) :=
  around (age / resolution) (Spread.width floor (age / resolution)) n

theorem ofAge_eq_none_iff {floor resolution age : ℝ} {n : ℕ} (hn : 1 ≤ n) (hr : 0 < resolution)
    (hf : 0 < floor) (ha : 0 ≤ age) :
    ofAge floor resolution n age = .ok none ↔
    Spread.horizon floor (n : ℝ) * resolution < age := by
  rw [ofAge, around_eq_none_iff hn, Spread.le_ceil_lower_iff hf hn (div_nonneg ha hr.le),
    lt_div_iff₀ hr]

/-- In exact arithmetic an event is off the curve just where it is older than the age that the
retention is set to, and as time goes on an event that has left the curve does not come back. -/
theorem ofAge_leaves_once {floor resolution : ℝ} {n : ℕ} (hn : 1 ≤ n) (hr : 0 < resolution)
    (hf : 0 < floor) :
    (∀ age, 0 ≤ age →
      (ofAge floor resolution n age = .ok none ↔
        Spread.horizon floor (n : ℝ) * resolution < age)) ∧
      ∀ time now later, time ≤ now → now ≤ later →
        ofAge floor resolution n (now - time) = .ok none →
          ofAge floor resolution n (later - time) = .ok none := by
  constructor
  · intro age ha
    exact ofAge_eq_none_iff hn hr hf ha
  · intro time now later hnow hlater hleft
    rw [ofAge_eq_none_iff hn hr hf (by linarith)] at hleft ⊢
    linarith

/-- With the usual layout an event is on the curve for 66.9 seconds and off it from 67 seconds
on. -/
theorem ofAge_leaves_once_standard :
    ofAge 10 100 600 66900 ≠ .ok none ∧ ofAge 10 100 600 (67000 - 0) = .ok none ∧
      ofAge 10 100 600 (90000 - 0) = .ok none := by
  obtain ⟨hiff, honce⟩ := ofAge_leaves_once (n := 600) (by norm_num)
    (by norm_num : (0 : ℝ) < 100) (by norm_num : (0 : ℝ) < 10)
  obtain ⟨s, hs, hroot, hhorizon⟩ := Spread.exists_horizon_eq (n := 600)
    (by norm_num : (0 : ℝ) < 10) (by norm_num)
  have hreach : (Spread.reach : ℝ) = 27 / 10 := rfl
  rw [hreach] at hroot
  norm_num at hroot
  have hlo : 26.063 ≤ s := by nlinarith
  have hhi : s < 26.07 := by nlinarith
  rw [hhorizon] at hiff
  refine ⟨?_, ?_, ?_⟩
  · intro hnone
    have := (hiff 66900 (by norm_num)).1 hnone
    linarith
  · exact (hiff _ (by norm_num)).2 (by linarith)
  · exact honce 0 67000 90000 (by norm_num) (by norm_num)
      ((hiff _ (by norm_num)).2 (by linarith))

end Span

end RateCurve
