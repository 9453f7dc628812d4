import RateCurve.Proofs.Curve.Horizon
import RateCurve.Proofs.Double.Decimal

namespace RateCurve
open Double

namespace Spread

section

-- `u` is the relative error of one rounding, `x ^ 2` the sum of the floor and the number of
-- samples, `d` the discriminant, `q` its rounded square root, `k` the reach and `p` the rounded
-- square of the root.
variable {u x d k q p : ℝ}

theorem sqrt_discriminant_ge (hu0 : 0 ≤ u) (hu : u ≤ 1 / 10 ^ 9) (hx : 1 ≤ x)
    (hd : 4 * x ^ 2 * (1 - 5 * u) + 3.1 ≤ d) (hq : √d * (1 - u) - u ≤ q) :
    1.99 * x ≤ q ∧ 4 * x ^ 2 * (1 - 7 * u) + 3 - 3 * u * q ≤ q ^ 2 := by
  have hx2 : 1 ≤ x ^ 2 := one_le_pow₀ hx
  have hux : 0 ≤ u * x ^ 2 := by positivity
  have hux' : u * x ^ 2 ≤ 1 / 10 ^ 9 * x ^ 2 := mul_le_mul_of_nonneg_right hu (by positivity)
  have hroot : 1.999 * x ≤ √d := by
    apply Real.le_sqrt_of_sq_le
    rw [mul_pow]
    linarith
  have hqx : 1.99 * x ≤ q :=
    calc
      1.99 * x ≤ 1.999 * x * (1 - 1 / 10 ^ 9) - 1 / 10 ^ 9 := by linarith
      _ ≤ √d * (1 - u) - u := by
        apply sub_le_sub _ hu
        exact mul_le_mul hroot (by linarith) (by norm_num) (Real.sqrt_nonneg d)
      _ ≤ q := hq
  refine ⟨hqx, ?_⟩
  have hd0 : 0 ≤ d := by linarith
  have hsq : d * (1 - u) ^ 2 ≤ (q + u) ^ 2 := by
    rw [← Real.sq_sqrt hd0, ← mul_pow]
    exact pow_le_pow_left₀ (mul_nonneg (Real.sqrt_nonneg d) (by linarith)) (by linarith) 2
  have hu2 : 0 ≤ u ^ 2 := sq_nonneg u
  have hdu : 0 ≤ d * u ^ 2 := mul_nonneg hd0 hu2
  have hlow : (4 * x ^ 2 * (1 - 5 * u) + 3.1) * (1 - 2 * u) ≤ d * (1 - 2 * u) :=
    mul_le_mul_of_nonneg_right hd (by linarith)
  have hxu : 0 ≤ x ^ 2 * u ^ 2 := by positivity
  have hqu : u ^ 2 ≤ u * q := by
    rw [sq]
    exact mul_le_mul_of_nonneg_left (by linarith) hu0
  linarith

/-- What is left of the square of the root `(k + q) / 2`: the linear term outweighs the
errors. -/
theorem root_sq_ge (hu : u ≤ 1 / 10 ^ 9) (hx : 1 ≤ x) (hux : u * x ≤ 1 / 8)
    (hk : 2.69 ≤ k) (hk' : k ≤ 2.71) (hqx : 1.99 * x ≤ q)
    (hq : 4 * x ^ 2 * (1 - 7 * u) + 3 - 3 * u * q ≤ q ^ 2)
    (hp : ((k + q) / 2) ^ 2 * (1 - 5 * u) - 4 * (u * ((k + q) / 2)) - u ≤ p) :
    x ^ 2 + x + 2.3 ≤ p := by
  have hux2 : u * x ^ 2 ≤ 1 / 8 * x := by
    rw [sq, ← mul_assoc]
    exact mul_le_mul_of_nonneg_right hux (by linarith)
  have huq : u * q ≤ 1 / 10 ^ 9 * q := mul_le_mul_of_nonneg_right hu (by linarith)
  have hy : x ^ 2 * (1 - 7 * u) + 1.34 * q + 2.55 ≤ ((k + q) / 2) ^ 2 := by
    have hk2 : 2.69 ^ 2 ≤ k ^ 2 := pow_le_pow_left₀ (by norm_num) hk 2
    have hkq : 2.69 * q ≤ k * q := mul_le_mul_of_nonneg_right hk (by linarith)
    linarith
  have hxu : 0 ≤ x ^ 2 * u ^ 2 := by positivity
  have huk : u * k ≤ 1 / 10 ^ 9 * 2.71 := mul_le_mul hu hk' (by linarith) (by norm_num)
  calc
    x ^ 2 + x + 2.3 ≤ (x ^ 2 * (1 - 7 * u) + 1.34 * q + 2.55) * (1 - 5 * u) -
        4 * (u * ((k + q) / 2)) - u := by linarith
    _ ≤ ((k + q) / 2) ^ 2 * (1 - 5 * u) - 4 * (u * ((k + q) / 2)) - u := by
      linarith [mul_le_mul_of_nonneg_right hy (by linarith : (0 : ℝ) ≤ 1 - 5 * u)]
    _ ≤ p := hp

/-- The reach past the `n` samples, which grows with the square root `x`, outweighs the errors
of the product with the resolution as well. -/
theorem add_one_mul_le {n r : ℝ} (hu0 : 0 ≤ u) (hu : u ≤ 1 / 10 ^ 9) (hx : 1 ≤ x)
    (hux : u * x ≤ 1 / 8) (hn : n ≤ x ^ 2) (hr : 1 ≤ r) :
    (n + 1) * r ≤ (n + x + 2.3) * r * (1 - 4 * u) - r * u - u := by
  have hun : u * n ≤ 1 / 8 * x :=
    calc
      u * n ≤ u * x ^ 2 := mul_le_mul_of_nonneg_left hn hu0
      _ = u * x * x := by ring
      _ ≤ 1 / 8 * x := mul_le_mul_of_nonneg_right hux (by linarith)
  have hmargin : n + 1 ≤ (n + x + 2.3) * (1 - 4 * u) - 2 * u := by linarith
  have hru : u ≤ r * u := le_mul_of_one_le_left hu0 hr
  calc
    (n + 1) * r ≤ ((n + x + 2.3) * (1 - 4 * u) - 2 * u) * r :=
      mul_le_mul_of_nonneg_right hmargin (by linarith)
    _ ≤ (n + x + 2.3) * r * (1 - 4 * u) - r * u - u := by linarith

end

theorem sq_ge {w z : Float} {y : ℝ} (h : NearestTo z (value w * value w))
    (hz : z.isFinite = true) (hy : 1 ≤ y) (hw0 : 0 ≤ value w)
    (hw : y * (1 - 2 * roundoff) - 2 * roundoff ≤ value w) :
    y ^ 2 * (1 - 5 * roundoff) - 4 * (roundoff * y) - roundoff ≤ value z := by
  have hu0 := roundoff_pos.le
  have hu := roundoff_le
  have huy : roundoff * y ≤ 1 / 10 ^ 9 * y := mul_le_mul_of_nonneg_right hu (by linarith)
  have huy0 : 0 ≤ roundoff * y := mul_nonneg hu0 (by linarith)
  have hsq : y ^ 2 * (1 - 4 * roundoff) - 4 * (roundoff * y) ≤ value w * value w :=
    calc
      y ^ 2 * (1 - 4 * roundoff) - 4 * (roundoff * y) ≤
          (y * (1 - 2 * roundoff) - 2 * roundoff) *
          (y * (1 - 2 * roundoff) - 2 * roundoff) := by
        linarith [sq_nonneg (roundoff * y), mul_nonneg huy0 hu0, sq_nonneg roundoff]
      _ ≤ value w * value w := mul_le_mul hw hw (by linarith) hw0
  have :=
    h.ge_of_le hz (mul_self_nonneg _) (m := 4) (sq_nonneg y) (by linarith) zero_le_four hsq
  linarith

theorem reach_mul_self_mem :
    (reach * reach : Float).isFinite = true ∧ 7.2 ≤ value (reach * reach : Float) ∧
      value (reach * reach : Float) ≤ 8 := by
  have hfinite : (reach * reach : Float).isFinite = true := by decide +kernel
  obtain ⟨hlo, hhi⟩ := value_reach_mem
  have hsq : 7.23 ≤ value (reach : Float) * value (reach : Float) := by nlinarith
  have hsq' : value (reach : Float) * value (reach : Float) ≤ 7.35 := by nlinarith
  have hone : (2 : ℝ) ^ (-1022 : ℤ) ≤ 1 := zpow_le_one_of_nonpos₀ one_le_two (by norm_num)
  obtain ⟨h₁, h₂⟩ :=
    (nearestTo_mul isFinite_reach isFinite_reach).mem_of_le hfinite (by linarith)
  exact ⟨hfinite, by linarith, by linarith⟩

section

variable {floor : Float} {count : ℕ} (hf : 0.0 < floor) (hcount : 1 ≤ count)
  (hle : value floor + count ≤ 2 ^ (100 : ℤ))
include hf hcount hle

theorem count_mem :
    (ofInt count).isFinite = true ∧ 1 ≤ value (ofInt count) ∧
      value (ofInt count) ≤ 2 ^ (100 : ℤ) ∧
      count * (1 - roundoff) - roundoff ≤ value (ofInt count) := by
  have h := nearestTo_ofInt_natCast count
  have hf0 := value_nonneg (nonneg_of_pos hf)
  obtain ⟨hfin, -, hhi⟩ :=
    h.bounds_zpow 100 (by norm_num) (by norm_num) (Nat.cast_nonneg _) (by linarith)
  exact ⟨hfin, one_le_value_ofInt (by exact_mod_cast hcount), hhi,
    h.ge_self hfin (Nat.cast_nonneg _)⟩

theorem sum_mem :
    (floor + ofInt count).isFinite = true ∧ value (floor + ofInt count) ≤ 2 ^ (101 : ℤ) ∧
      (value floor + count) * (1 - 2 * roundoff) - 2 * roundoff ≤
      value (floor + ofInt count) := by
  obtain ⟨hnf, hn1, hnhi, hnlo⟩ := count_mem hf hcount hle
  have hf0 := value_nonneg (nonneg_of_pos hf)
  have hn0 : 0.0 ≤ ofInt count := nonneg_iff.2 ⟨hasValue_of_isFinite hnf, zero_le_one.trans hn1⟩
  have hcount0 : (0 : ℝ) ≤ count := Nat.cast_nonneg count
  have hu0 := roundoff_pos
  have hu := roundoff_le
  have h := nearestTo_add_of_nonneg (nonneg_of_pos hf) hn0
  have hpow : (2 : ℝ) ^ (101 : ℤ) = 2 ^ (100 : ℤ) + 2 ^ (100 : ℤ) := by norm_num
  obtain ⟨hfin, -, hhi⟩ :=
    h.bounds_zpow 101 (by norm_num) (by norm_num) (by linarith) (by linarith)
  have hlo := h.ge_of_le hfin (by linarith) (a := value floor + count) (m := 1)
    (by linarith) hu0.le zero_le_one (by linarith [mul_nonneg hf0 hu0.le])
  exact ⟨hfin, hhi, by linarith⟩

theorem level_mem :
    (level floor (ofInt count)).isFinite = true ∧ 0.0 ≤ level floor (ofInt count) ∧
      value (level floor (ofInt count)) ≤ 2 ^ (101 : ℤ) ∧
      (value floor + count) * (1 - 3 * roundoff) - (1 + 3 * roundoff) ≤
        value (level floor (ofInt count)) := by
  obtain ⟨hsf, hshi, hslo⟩ := sum_mem hf hcount hle
  obtain ⟨hnf, hn1, -, -⟩ := count_mem hf hcount hle
  obtain ⟨-, hs1, -⟩ := sum_bounds hf hnf hn1
  have hf0 := value_nonneg (nonneg_of_pos hf)
  have hcount0 : (0 : ℝ) ≤ count := Nat.cast_nonneg count
  have hu0 := roundoff_pos
  have hu := roundoff_le
  have h : NearestTo (level floor (ofInt count)) (value (floor + ofInt count) - 1) := by
    have := nearestTo_sub hsf (by rfl : (ofInt 1).isFinite = true)
    rwa [value_ofInt_one] at this
  obtain ⟨hfin, h0, hhi⟩ :=
    h.bounds_zpow 101 (by norm_num) (by norm_num) (by linarith) (by linarith)
  have hlo := h.ge_of_le hfin (by linarith) (a := value floor + count)
    (b := 1 + 2 * roundoff) (m := 2) (by linarith) (by linarith) zero_le_two (by linarith)
  exact ⟨hfin, h0, hhi, by linarith⟩

theorem four_level_mem :
    (ofInt 4 * level floor (ofInt count)).isFinite = true ∧
      0 ≤ value (ofInt 4 * level floor (ofInt count)) ∧
      value (ofInt 4 * level floor (ofInt count)) ≤ 2 ^ (103 : ℤ) ∧
      4 * (value floor + count) * (1 - 4 * roundoff) - (4 + 13 * roundoff) ≤
        value (ofInt 4 * level floor (ofInt count)) := by
  obtain ⟨hlf, hl0, hlhi, hllo⟩ := level_mem hf hcount hle
  have hl0 := value_nonneg hl0
  have hf0 := value_nonneg (nonneg_of_pos hf)
  have hcount0 : (0 : ℝ) ≤ count := Nat.cast_nonneg count
  have hu0 := roundoff_pos
  have hu := roundoff_le
  have h := nearestTo_mul (by rfl : (ofInt 4).isFinite = true) hlf
  rw [value_ofInt_ofNat (by norm_num)] at h
  have hpow : (2 : ℝ) ^ (103 : ℤ) = 4 * 2 ^ (101 : ℤ) := by norm_num
  obtain ⟨hfin, h0, hhi⟩ :=
    h.bounds_zpow 103 (by norm_num) (by norm_num) (by linarith) (by linarith)
  have hlo := h.ge_of_le hfin (by linarith) (a := 4 * (value floor + count))
    (b := 4 + 12 * roundoff) (m := 3) (by linarith) (by linarith) zero_le_three (by linarith)
  exact ⟨hfin, value_nonneg h0, hhi, by linarith⟩

theorem discriminant_mem :
    (discriminant floor (ofInt count)).isFinite = true ∧
      value (discriminant floor (ofInt count)) ≤ 2 ^ (104 : ℤ) ∧
      4 * (value floor + count) * (1 - 5 * roundoff) + 3.1 ≤
        value (discriminant floor (ofInt count)) := by
  obtain ⟨hlf, hl0, hlhi, hllo⟩ := four_level_mem hf hcount hle
  obtain ⟨hkf, hklo, hkhi⟩ := reach_mul_self_mem
  have hf0 := value_nonneg (nonneg_of_pos hf)
  have hcount0 : (0 : ℝ) ≤ count := Nat.cast_nonneg count
  have hu0 := roundoff_pos
  have hu := roundoff_le
  have h : NearestTo (discriminant floor (ofInt count)) _ := nearestTo_add hkf hlf
  have hpow : 8 + (2 : ℝ) ^ (103 : ℤ) ≤ 2 ^ (104 : ℤ) := by norm_num
  obtain ⟨hfin, -, hhi⟩ :=
    h.bounds_zpow 104 (by norm_num) (by norm_num) (by linarith) (by linarith)
  have hlo := h.ge_of_le hfin (by linarith) (a := 4 * (value floor + count) + 3.2)
    (b := 13 * roundoff) (m := 4) (by linarith) (by linarith) zero_le_four (by linarith)
  exact ⟨hfin, hhi, by linarith⟩

theorem sqrt_mem :
    (discriminant floor (ofInt count)).sqrt.isFinite = true ∧
      0 ≤ value (discriminant floor (ofInt count)).sqrt ∧
      value (discriminant floor (ofInt count)).sqrt ≤ 2 ^ (52 : ℤ) ∧
      √(value (discriminant floor (ofInt count))) * (1 - roundoff) - roundoff ≤
        value (discriminant floor (ofInt count)).sqrt := by
  obtain ⟨hnf, hn1, -, -⟩ := count_mem hf hcount hle
  obtain ⟨hdf, hdhi, -⟩ := discriminant_mem hf hcount hle
  have hd0 := value_nonneg (discriminant_nonneg hf hnf hn1)
  have h := nearestTo_sqrt hdf hd0
  have hsqrt : √(value (discriminant floor (ofInt count))) ≤ 2 ^ (52 : ℤ) :=
    Real.sqrt_le_iff.2 ⟨by positivity, hdhi.trans (by norm_num)⟩
  obtain ⟨hfin, h0, hhi⟩ :=
    h.bounds_zpow 52 (by norm_num) (by norm_num) (Real.sqrt_nonneg _) hsqrt
  exact ⟨hfin, value_nonneg h0, hhi, h.ge_self hfin (Real.sqrt_nonneg _)⟩

theorem root_mem :
    (root floor (ofInt count)).isFinite = true ∧ 0 ≤ value (root floor (ofInt count)) ∧
      value (root floor (ofInt count)) ≤ 2 ^ (52 : ℤ) ∧
      (value (reach : Float) + value (discriminant floor (ofInt count)).sqrt) / 2 *
        (1 - 2 * roundoff) - 2 * roundoff ≤ value (root floor (ofInt count)) := by
  obtain ⟨hnf, hn1, -, -⟩ := count_mem hf hcount hle
  have hdf := (discriminant_mem hf hcount hle).1
  obtain ⟨hqf, hq0, hqhi, -⟩ := sqrt_mem hf hcount hle
  obtain ⟨hk, hk'⟩ := value_reach_mem
  have hu0 := roundoff_pos
  have hu := roundoff_le
  have hsum := nearestTo_add isFinite_reach hqf
  have hpow : 4 + (2 : ℝ) ^ (52 : ℤ) ≤ 2 ^ (53 : ℤ) := by norm_num
  obtain ⟨htf, ht0, hthi⟩ :=
    hsum.bounds_zpow 53 (by norm_num) (by norm_num) (by linarith) (by linarith)
  have htlo := hsum.ge_self htf (by linarith)
  have ht0 := value_nonneg ht0
  have h := nearestTo_root hf hnf hn1 hdf
  have hpow : (2 : ℝ) ^ (53 : ℤ) = 2 ^ (52 : ℤ) * 2 := by norm_num
  obtain ⟨hfin, h0, hhi⟩ :=
    h.bounds_zpow 52 (by norm_num) (by norm_num) (by linarith) (by linarith)
  have hlo := h.ge_of_le hfin (by linarith) (m := 1)
    (a := (value (reach : Float) + value (discriminant floor (ofInt count)).sqrt) / 2)
    (by linarith) hu0.le zero_le_one (by linarith)
  exact ⟨hfin, value_nonneg h0, hhi, by linarith⟩

theorem sqrt_add_mem :
    1 ≤ √(value floor + count) ∧ √(value floor + count) ^ 2 = value floor + count ∧
      roundoff * √(value floor + count) ≤ 1 / 8 := by
  have hcount1 : (1 : ℝ) ≤ count := by exact_mod_cast hcount
  have hM : 1 ≤ value floor + count := by linarith [value_nonneg (nonneg_of_pos hf)]
  have hx : √(value floor + count) ≤ 2 ^ (50 : ℤ) :=
    Real.sqrt_le_iff.2 ⟨by positivity, hle.trans (by norm_num)⟩
  refine ⟨Real.one_le_sqrt.2 hM, Real.sq_sqrt (by linarith), ?_⟩
  exact (mul_le_mul_of_nonneg_left hx roundoff_pos.le).trans (by unfold roundoff; norm_num)

theorem root_sq_mem :
    (root floor (ofInt count) * root floor (ofInt count)).isFinite = true ∧
      value (root floor (ofInt count) * root floor (ofInt count)) ≤ 2 ^ (104 : ℤ) ∧
      value floor + count + √(value floor + count) + 2.3 ≤
        value (root floor (ofInt count) * root floor (ofInt count)) := by
  obtain ⟨-, -, hdlo⟩ := discriminant_mem hf hcount hle
  obtain ⟨-, hq0, hqhi, hqlo⟩ := sqrt_mem hf hcount hle
  obtain ⟨hrf, hr0, hrhi, hrlo⟩ := root_mem hf hcount hle
  obtain ⟨hk, hk'⟩ := value_reach_mem
  have hu0 := roundoff_pos
  have hu := roundoff_le
  have h := nearestTo_mul hrf hrf
  have hsq : value (root floor (ofInt count)) * value (root floor (ofInt count)) ≤
      2 ^ (104 : ℤ) :=
    (mul_le_mul hrhi hrhi hr0 (by positivity)).trans_eq (by norm_num)
  obtain ⟨hfin, -, hhi⟩ := h.bounds_zpow 104 (by norm_num) (by norm_num) (mul_self_nonneg _) hsq
  refine ⟨hfin, hhi, ?_⟩
  obtain ⟨hx1, hx2, hux⟩ := sqrt_add_mem hf hcount hle
  rw [← hx2] at hdlo
  obtain ⟨hqx, hq2⟩ := sqrt_discriminant_ge hu0.le hu hx1 hdlo hqlo
  have hy :
      1 ≤ (value (reach : Float) + value (discriminant floor (ofInt count)).sqrt) / 2 := by
    linarith
  have hge := root_sq_ge hu hx1 hux hk hk' hqx hq2 (sq_ge h hfin hy hr0 hrlo)
  rwa [hx2] at hge

theorem horizon_mem :
    (horizon floor (ofInt count)).isFinite = true ∧ 0 ≤ value (horizon floor (ofInt count)) ∧
      value (horizon floor (ofInt count)) ≤ 2 ^ (104 : ℤ) ∧
      (count + √(value floor + count) + 2.3) * (1 - roundoff) - roundoff ≤
        value (horizon floor (ofInt count)) := by
  obtain ⟨hsqf, hsqhi, hsqlo⟩ := root_sq_mem hf hcount hle
  have hf0 := value_nonneg (nonneg_of_pos hf)
  have hcount0 : (0 : ℝ) ≤ count := Nat.cast_nonneg count
  have hx0 := Real.sqrt_nonneg (value floor + count)
  have hff : floor.isFinite = true := by
    refine isFinite_iff.2 ⟨(pos_iff.1 hf).1, ?_⟩
    rw [abs_of_nonneg hf0]
    have hlim : (2 : ℝ) ^ (100 : ℤ) < limit := zpow_lt_zpow_right₀ one_lt_two (by norm_num)
    linarith
  have h := nearestTo_sub hsqf hff
  rw [← horizon_eq] at h
  obtain ⟨hfin, h0, hhi⟩ :=
    h.bounds_zpow 104 (by norm_num) (by norm_num) (by linarith) (by linarith)
  have hlo := h.ge_of_le hfin (by linarith) (a := count + √(value floor + count) + 2.3)
    (b := 0) (m := 0) (by linarith) le_rfl le_rfl (by linarith)
  exact ⟨hfin, value_nonneg h0, hhi, by linarith⟩

end

section

variable {floor : Float} {count : ℕ} {j : ℤ} (hj : 56 ≤ j) (hj' : j ≤ 510)
  (hfloor : value floor = 2 ^ (2 * j)) (hcount : (count : ℝ) * 2 ^ (55 : ℤ) ≤ 2 ^ (2 * j))
include hj hj' hfloor hcount

/-- With a floor that is a large power of four all that is added to the floor is lost beside
it. -/
theorem discriminant_eq_zpow (hff : floor.isFinite = true) :
    (discriminant floor (ofInt count)).isFinite = true ∧
      value (discriminant floor (ofInt count)) = 2 ^ (2 * j + 2) := by
  have hp : (0 : ℝ) < 2 ^ (55 : ℤ) := by positivity
  have hcount' : (count : ℝ) ≤ 2 ^ (2 * j - 55) := by
    rw [zpow_sub₀ two_ne_zero]
    exact (le_div_iff₀ hp).2 hcount
  obtain ⟨hnf, hn0, hnhi⟩ := (nearestTo_ofInt_natCast count).bounds_zpow (2 * j - 55) (by omega)
    (by omega) (Nat.cast_nonneg count) hcount'
  have hsum := nearestTo_add hff hnf
  rw [hfloor] at hsum
  obtain ⟨hsf, hs⟩ := hsum.value_zpow_add (by omega) (by omega) (by
    rw [abs_of_nonneg (value_nonneg hn0), ← le_div_iff₀ hp, ← zpow_sub₀ two_ne_zero]
    exact hnhi)
  have hlevel : NearestTo (level floor (ofInt count)) _ :=
    nearestTo_sub hsf (by rfl : (ofInt 1).isFinite = true)
  rw [hs, value_ofInt_one, sub_eq_add_neg] at hlevel
  obtain ⟨hlf, hl⟩ := hlevel.value_zpow_add (by omega) (by omega) (by
    rw [abs_neg, abs_one, one_mul]
    exact zpow_le_zpow_right₀ one_le_two (by omega))
  have hfour := nearestTo_mul (by rfl : (ofInt 4).isFinite = true) hlf
  have hsq : value (ofInt 4) = 2 ^ (2 : ℤ) := by
    rw [value_ofInt_ofNat (by norm_num)]
    norm_num
  rw [hsq, hl, ← zpow_add₀ two_ne_zero] at hfour
  obtain ⟨hcf, hc⟩ := hfour.value_zpow (by omega) (by omega)
  obtain ⟨hkf, hk0, hk⟩ := reach_mul_self_mem
  have h : NearestTo (discriminant floor (ofInt count)) _ := nearestTo_add hkf hcf
  rw [hc, add_comm, add_comm 2] at h
  apply h.value_zpow_add (by omega) (by omega)
  rw [abs_of_nonneg (by linarith)]
  calc
    value (reach * reach : Float) * 2 ^ (55 : ℤ) ≤ 2 ^ (3 : ℤ) * 2 ^ (55 : ℤ) :=
      mul_le_mul_of_nonneg_right (hk.trans_eq (by norm_num)) hp.le
    _ = 2 ^ (58 : ℤ) := by rw [← zpow_add₀ two_ne_zero]; norm_num
    _ ≤ 2 ^ (2 * j + 2) := zpow_le_zpow_right₀ one_le_two (by omega)

theorem horizon_eq_zero (hff : floor.isFinite = true) :
    (horizon floor (ofInt count)).isFinite = true ∧
    value (horizon floor (ofInt count)) = 0 := by
  obtain ⟨hdf, hd⟩ := discriminant_eq_zpow hj hj' hfloor hcount hff
  have hpow (e : ℤ) : (2 : ℝ) ^ e * 2 ^ e = 2 ^ (2 * e) := by
    rw [← zpow_add₀ two_ne_zero, two_mul]
  have hsqrt := nearestTo_sqrt hdf (by rw [hd]; positivity)
  rw [hd, show 2 * j + 2 = 2 * (j + 1) by ring, ← hpow, Real.sqrt_mul_self (by positivity)]
    at hsqrt
  obtain ⟨hqf, hq⟩ := hsqrt.value_zpow (by omega) (by omega)
  have hsum := nearestTo_add isFinite_reach hqf
  rw [hq, add_comm] at hsum
  obtain ⟨htf, ht⟩ := hsum.value_zpow_add (by omega) (by omega) (by
    rw [abs_of_pos (pos_iff.1 reach_pos).2]
    calc
      value (reach : Float) * 2 ^ (55 : ℤ) ≤ 2 ^ (2 : ℤ) * 2 ^ (55 : ℤ) :=
        mul_le_mul_of_nonneg_right (value_reach_le.trans_eq (by norm_num)) (by positivity)
      _ = 2 ^ (57 : ℤ) := by rw [← zpow_add₀ two_ne_zero]; norm_num
      _ ≤ 2 ^ (j + 1) := zpow_le_zpow_right₀ one_le_two (by omega))
  have htwo : value (ofInt 2) = 2 := value_ofInt_ofNat (by norm_num)
  have hroot : NearestTo (root floor (ofInt count)) _ :=
    nearestTo_div htf (by rfl : (ofInt 2).isFinite = true) (by rw [htwo]; exact two_ne_zero)
  rw [ht, htwo, zpow_add_one₀ two_ne_zero, mul_div_cancel_right₀ _ two_ne_zero] at hroot
  obtain ⟨hrf, hr⟩ := hroot.value_zpow (by omega) (by omega)
  have hsq := nearestTo_mul hrf hrf
  rw [hr, hpow] at hsq
  obtain ⟨hpf, hp⟩ := hsq.value_zpow (by omega) (by omega)
  have h := nearestTo_sub hpf hff
  rw [← horizon_eq, hp, hfloor, sub_self] at h
  have hzero : value (horizon floor (ofInt count)) = 0 := by rw [h.value_eq, nearest_zero]
  refine ⟨isFinite_iff.2 ⟨h.hasValue, ?_⟩, hzero⟩
  rw [hzero, abs_zero]
  exact limit_pos

end

end Spread

namespace Geometry
open Spread

variable {g : Geometry} {retention : Float}

theorem window_lt (g : Geometry) : (g.window : ℝ) < (g.count + 1) * g.resolution := by
  have := Nat.lt_mul_div_succ g.window g.resolution_pos
  rw [mul_comm] at this
  exact_mod_cast this

theorem visibleAge_of_isFinite (hn : (ofInt g.count).isFinite = true)
    (hr : (ofInt g.resolution).isFinite = true) :
    g.visibleAge = .ok (horizon g.floor (ofInt g.count) * ofInt g.resolution) := by
  rw [visibleAge, resolution?, ofInt?, if_pos hn, ofInt?, if_pos hr]
  rfl

theorem visibleAge_eq_error_iff {e : RangeError} :
    g.visibleAge = .error e ↔ e = .tooLarge ∧
      (2 ^ 1024 - 2 ^ 970 ≤ (g.count : ℤ) ∨ 2 ^ 1024 - 2 ^ 970 ≤ (g.resolution : ℤ)) := by
  rw [← not_lt, ← not_lt, ← Nat.abs_cast g.count, ← Nat.abs_cast g.resolution,
    ← isFinite_ofInt_iff, ← isFinite_ofInt_iff, Bool.not_eq_true, Bool.not_eq_true]
  cases hn : (ofInt g.count).isFinite with
  | false =>
    have h : g.visibleAge = .error .tooLarge := by
      rw [visibleAge, ofInt?, hn]
      rfl
    rw [h, Except.error.injEq]
    exact ⟨fun he => ⟨he.symm, .inl rfl⟩, fun he => he.1.symm⟩
  | true =>
    cases hr : (ofInt g.resolution).isFinite with
    | false =>
      have h : g.visibleAge = .error .tooLarge := by
        rw [visibleAge, resolution?, ofInt?, if_pos hn, ofInt?, hr]
        rfl
      rw [h, Except.error.injEq]
      exact ⟨fun he => ⟨he.symm, .inr rfl⟩, fun he => he.1.symm⟩
    | true =>
      rw [visibleAge_of_isFinite hn hr]
      constructor
      · intro h
        cases h
      · rintro ⟨-, h | h⟩ <;> cases h

theorem isNaN_visibleAge_iff (h : g.visibleAge = .ok retention) :
    retention.isNaN = true ↔ g.floor.isFinite = false := by
  obtain ⟨n, resolution, hn, hres, rfl⟩ := visibleAge_eq_ok h
  obtain ⟨rfl, hnf⟩ := ofInt?_eq_ok hn
  have hn1 := one_le_value_ofInt (n := g.count) (by exact_mod_cast g.count_pos)
  obtain ⟨hrf, hr1⟩ := one_le_resolution hres
  rw [isNaN_iff, ← Bool.not_eq_true, not_iff_not]
  by_cases hd : (discriminant g.floor (ofInt g.count)).isFinite = true
  · have hhf := (horizon_bounds g.floor_pos hnf hn1 hd).1
    exact iff_of_true (nearestTo_mul hhf hrf).hasValue
      (isFinite_floor_of_isFinite_discriminant g.floor_pos hnf hn1 hd)
  · have hd := Bool.of_not_eq_true hd
    refine ⟨fun hv => isFinite_floor_of_hasValue_horizon g.floor_pos hnf hn1 hd
      (hasValue_of_mul hv), fun hff => ?_⟩
    have hi := horizon_eq_infinity g.floor_pos hnf hn1 hd hff
    exact hasValue_of_infinity (unpack_infinity_mul hi hrf (by linarith))

theorem visibleAge_ge (hle : value g.floor + g.count ≤ 2 ^ (100 : ℤ))
    (h : g.visibleAge = .ok retention) (hr : retention.isFinite = true) :
    (g.count + √(value g.floor + g.count) + 2.3) * g.resolution * (1 - 4 * roundoff) -
      g.resolution * roundoff - roundoff ≤ value retention := by
  obtain ⟨n, resolution, hn, hres, rfl⟩ := visibleAge_eq_ok h
  obtain ⟨rfl, -⟩ := ofInt?_eq_ok hn
  obtain ⟨rfl, hresf⟩ := ofInt?_eq_ok hres
  obtain ⟨hhf, hh0, -, hhlo⟩ := horizon_mem g.floor_pos g.count_pos hle
  have hu0 := roundoff_pos.le
  have hu := roundoff_le
  have hR : (1 : ℝ) ≤ g.resolution := by exact_mod_cast g.resolution_pos
  have hcount0 : (0 : ℝ) ≤ g.count := Nat.cast_nonneg _
  have hx0 := Real.sqrt_nonneg (value g.floor + g.count)
  generalize √(value g.floor + g.count) = x at *
  have hR0 : (0 : ℝ) ≤ g.resolution := by linarith
  have huR : 0 ≤ g.resolution * roundoff := mul_nonneg hR0 hu0
  have hreslo : g.resolution * (1 - 2 * roundoff) ≤ value (ofInt g.resolution) := by
    have := (nearestTo_ofInt_natCast g.resolution).ge_self hresf (Nat.cast_nonneg _)
    linarith [mul_le_mul_of_nonneg_right hR hu0]
  have hprod :
      (g.count + x + 2.3) * g.resolution * (1 - 3 * roundoff) - g.resolution * roundoff ≤
      value (horizon g.floor (ofInt g.count)) * value (ofInt g.resolution) :=
    calc
      (g.count + x + 2.3) * g.resolution * (1 - 3 * roundoff) - g.resolution * roundoff ≤
          ((g.count + x + 2.3) * (1 - roundoff) - roundoff) *
          (g.resolution * (1 - 2 * roundoff)) := by
        have h₁ : 0 ≤ (g.count + x + 2.3) * (g.resolution * roundoff * roundoff) :=
          mul_nonneg (by linarith) (mul_nonneg huR hu0)
        linarith [mul_nonneg huR hu0]
      _ ≤ _ := mul_le_mul hhlo hreslo (mul_nonneg hR0 (by linarith)) hh0
  have hprod0 := mul_nonneg hh0 ((mul_nonneg hR0 (by linarith)).trans hreslo)
  have := (nearestTo_mul hhf hresf).ge_of_le hr hprod0 (m := 3)
    (mul_nonneg (by linarith) hR0) huR zero_le_three hprod
  linarith

/-- Up to `2 ^ 100` the rounding errors are less than what a hump reaches past the last
sample. -/
theorem window_lt_visibleAge (hle : value g.floor + g.count ≤ 2 ^ (100 : ℤ))
    (h : g.visibleAge = .ok retention) (hr : retention.isFinite = true) :
    (g.window : ℝ) < value retention := by
  obtain ⟨hx1, hx2, hux⟩ := sqrt_add_mem g.floor_pos g.count_pos hle
  have hf0 := value_nonneg (nonneg_of_pos g.floor_pos)
  calc
    (g.window : ℝ) < (g.count + 1) * g.resolution := g.window_lt
    _ ≤ _ := add_one_mul_le roundoff_pos.le roundoff_le hx1 hux (by linarith)
      (by exact_mod_cast g.resolution_pos)
    _ ≤ value retention := visibleAge_ge hle h hr

theorem exists_visibleAge (hle : value g.floor + g.count ≤ 2 ^ (100 : ℤ))
    (hres : (g.resolution : ℝ) ≤ 2 ^ (919 : ℤ)) :
    ∃ retention, g.visibleAge = .ok retention ∧ retention.isFinite = true := by
  have hnf := (count_mem g.floor_pos g.count_pos hle).1
  obtain ⟨hhf, hh0, hhhi, -⟩ := horizon_mem g.floor_pos g.count_pos hle
  obtain ⟨hrf, hr0, hrhi⟩ := (nearestTo_ofInt_natCast g.resolution).bounds_zpow 919
    (by norm_num) (by norm_num) (Nat.cast_nonneg _) hres
  have hr0 := value_nonneg hr0
  refine ⟨_, visibleAge_of_isFinite hnf hrf, ?_⟩
  refine ((nearestTo_mul hhf hrf).bounds_zpow 1023 (by norm_num) (by norm_num)
    (mul_nonneg hh0 hr0) ?_).1
  calc
    value (horizon g.floor (ofInt g.count)) * value (ofInt g.resolution) ≤
        2 ^ (104 : ℤ) * 2 ^ (919 : ℤ) := mul_le_mul hhhi hrhi hr0 (by positivity)
    _ = 2 ^ (1023 : ℤ) := by rw [← zpow_add₀ two_ne_zero]; norm_num

theorem visibleAge_eq_zero {j : ℤ} (hj : 56 ≤ j) (hj' : j ≤ 510)
    (hfloor : value g.floor = 2 ^ (2 * j)) (hcount : g.count * 2 ^ (55 : ℤ) ≤ (2 : ℝ) ^ (2 * j))
    (h : g.visibleAge = .ok retention) :
    value retention = 0 := by
  obtain ⟨n, resolution, hn, hres, rfl⟩ := visibleAge_eq_ok h
  obtain ⟨rfl, -⟩ := ofInt?_eq_ok hn
  obtain ⟨rfl, hrf⟩ := ofInt?_eq_ok hres
  have hff : g.floor.isFinite = true := by
    refine isFinite_iff.2 ⟨(pos_iff.1 g.floor_pos).1, ?_⟩
    rw [hfloor, abs_of_pos (by positivity)]
    exact zpow_lt_zpow_right₀ one_lt_two (by omega)
  obtain ⟨hhf, hh⟩ := horizon_eq_zero hj hj' hfloor hcount hff
  rw [(nearestTo_mul hhf hrf).value_eq, hh, zero_mul, nearest_zero]

/-- The retention covers the window while the floor and the number of samples are together at
most `2 ^ 100`. Beside a floor that is a large power of four all of it is lost. -/
theorem retention_covers_window (g : Geometry) :
    (∀ e, g.visibleAge = .error e ↔ e = .tooLarge ∧
      (2 ^ 1024 - 2 ^ 970 ≤ (g.count : ℤ) ∨ 2 ^ 1024 - 2 ^ 970 ≤ (g.resolution : ℤ))) ∧
    (∀ retention, g.visibleAge = .ok retention →
      (retention.isNaN = true ↔ g.floor.isFinite = false)) ∧
    (value g.floor + g.count ≤ 2 ^ (100 : ℤ) →
      (∀ retention, g.visibleAge = .ok retention → retention.isFinite = true →
        (g.window : ℝ) < value retention) ∧
      ((g.resolution : ℝ) ≤ 2 ^ (919 : ℤ) →
        ∃ retention, g.visibleAge = .ok retention ∧ retention.isFinite = true)) ∧
    (∀ j : ℤ, 56 ≤ j → j ≤ 510 → value g.floor = 2 ^ (2 * j) →
      g.count * 2 ^ (55 : ℤ) ≤ (2 : ℝ) ^ (2 * j) →
      ∀ retention, g.visibleAge = .ok retention → value retention = 0) :=
  ⟨fun _ => visibleAge_eq_error_iff, fun _ => isNaN_visibleAge_iff,
    fun hle => ⟨fun _ => window_lt_visibleAge hle, exists_visibleAge hle⟩,
    fun _ hj hj' hfloor hcount _ => visibleAge_eq_zero hj hj' hfloor hcount⟩

theorem retention_covers_window_standard :
    ∃ retention, standard.visibleAge = .ok retention ∧ retention.isFinite = true ∧
      60000 < value retention := by
  have hfloor : value standard.floor = 10 := by
    have h : standard.floor = ofInt 10 := by decide +kernel
    rw [h]
    exact value_ofInt_ofNat (by norm_num)
  have hcount : standard.count = 600 := rfl
  obtain ⟨-, -, hcovers, -⟩ := retention_covers_window standard
  obtain ⟨hlt, hex⟩ := hcovers (by rw [hfloor, hcount]; norm_num)
  have hresolution : (standard.resolution : ℝ) ≤ 2 ^ (919 : ℤ) :=
    calc
      (standard.resolution : ℝ) = 100 := by exact_mod_cast rfl
      _ ≤ 2 ^ (7 : ℤ) := by norm_num
      _ ≤ 2 ^ (919 : ℤ) := zpow_le_zpow_right₀ one_le_two (by norm_num)
  obtain ⟨retention, h, hf⟩ := hex hresolution
  exact ⟨retention, h, hf, by exact_mod_cast hlt retention h hf⟩

/-- The standard samples with a floor of `2 ^ 108`, beside which the retention is lost. -/
def swamped : Geometry :=
  { standard with
    floor := 324518553658426726783156020576256.0
    floor_pos := by decide +kernel }

theorem not_retention_covers_window :
    ¬∀ g : Geometry, ∃ retention, g.visibleAge = .ok retention ∧ retention.isFinite = true ∧
      (g.window : ℝ) < value retention := by
  intro h
  obtain ⟨retention, hr, -, hlt⟩ := h swamped
  have hzero : swamped.visibleAge = .ok 0.0 := by
    rw [visibleAge_of_isFinite (by decide +kernel) (by decide +kernel)]
    exact congrArg _ (by decide +kernel)
  cases hr.symm.trans hzero
  rw [value_zero] at hlt
  exact absurd hlt (not_lt.2 (Nat.cast_nonneg _))

end Geometry

end RateCurve
