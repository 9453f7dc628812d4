import RateCurve.Proofs.Double.Order

namespace RateCurve.Double
open Float.Model Float.Model.UnpackedFloat

theorem pow_eq (b : ℤ) (n : ℕ) : Int.pow b n = b ^ n :=
  rfl

theorem floorScaled_eq (m e : ℤ) : floorScaled m e = ⌊(m : ℝ) * 2 ^ e⌋ := by
  simp only [floorScaled, pow_eq]
  split_ifs with h
  · obtain ⟨n, rfl⟩ := Int.eq_ofNat_of_zero_le h
    rw [zpow_natCast, Int.toNat_natCast]
    exact (Int.floor_eq_iff.2 ⟨by push_cast; exact le_rfl, by push_cast; linarith⟩).symm
  · obtain ⟨n, hn⟩ := Int.eq_ofNat_of_zero_le (by omega : 0 ≤ -e)
    obtain rfl : e = -n := by omega
    rw [neg_neg, Int.toNat_natCast, zpow_neg, zpow_natCast, ← div_eq_mul_inv]
    have := Int.floor_div_natCast (m : ℝ) (2 ^ n)
    rw [Int.floor_intCast] at this
    exact_mod_cast this.symm

theorem ceilScaled_eq (m e : ℤ) : ceilScaled m e = ⌈(m : ℝ) * 2 ^ e⌉ := by
  rw [ceilScaled, floorScaled_eq, Int.cast_neg, neg_mul, Int.floor_neg, neg_neg]

theorem magnitude_eq {m e : ℤ} {a b : ℕ} (h : magnitude m e = (a, b)) :
    0 < b ∧ (a / b : ℝ) = |(m : ℝ) * 2 ^ e| := by
  have hm : ((m.natAbs : ℕ) : ℝ) = |(m : ℝ)| := by
    rw [Nat.cast_natAbs, Int.cast_abs]
  have hp : (0 : ℝ) < 2 ^ e := by positivity
  rw [abs_mul, abs_of_pos hp, ← hm]
  simp only [magnitude, Nat.pow_eq] at h
  split_ifs at h with he
  · cases h
    obtain ⟨n, rfl⟩ := Int.eq_ofNat_of_zero_le he
    refine ⟨Nat.one_pos, ?_⟩
    rw [Int.toNat_natCast, Nat.cast_one, div_one, zpow_natCast, Nat.cast_mul, Nat.cast_pow,
      Nat.cast_ofNat]
  · cases h
    obtain ⟨n, rfl⟩ : ∃ n : ℕ, e = -n := ⟨(-e).toNat, by omega⟩
    refine ⟨Nat.pow_pos two_pos, ?_⟩
    rw [neg_neg, Int.toNat_natCast, zpow_neg, zpow_natCast, div_eq_mul_inv, Nat.cast_pow,
      Nat.cast_ofNat]

section

variable {x y : Float}

theorem parts_of_isFinite (h : x.isFinite = true) :
    ∃ m e, parts x = .ok (m, e) ∧ value x = m * 2 ^ e ∧ (m = 0 ∨ 2 ^ 52 ≤ |m| ∨ e = -1074) := by
  have hs := storable_unpack x
  change x.toModel.unpack.isFinite = true at h
  unfold parts value
  cases hu : x.toModel.unpack with
  | notANumber | infinity s => rw [hu] at h; cases h
  | zero s => exact ⟨0, 0, rfl, by rw [unpackedValue, Int.cast_zero, zero_mul], .inl rfl⟩
  | finite s m e hm =>
    rw [hu] at hs
    refine ⟨s.apply m, e, rfl, by rw [unpackedValue, apply_eq_factor_mul, mul_assoc], .inr ?_⟩
    have habs : |s.apply m| = m := by
      cases s
      · exact (abs_neg _).trans (Nat.abs_cast m)
      · exact Nat.abs_cast m
    rw [habs]
    exact_mod_cast hs.2.2.2

theorem parts_of_not_isFinite (h : x.isFinite = false) : ∃ err, parts x = .error err := by
  change x.toModel.unpack.isFinite = false at h
  unfold parts
  cases hu : x.toModel.unpack with
  | notANumber => exact ⟨_, rfl⟩
  | infinity s => exact ⟨_, rfl⟩
  | zero s | finite s m e hm => rw [hu] at h; cases h

theorem floor_of_isFinite (h : x.isFinite = true) : floor x = .ok ⌊value x⌋ := by
  obtain ⟨m, e, hp, hv, -⟩ := parts_of_isFinite h
  rw [floor, hp, hv, ← floorScaled_eq]
  rfl

theorem ceil_of_isFinite (h : x.isFinite = true) : ceil x = .ok ⌈value x⌉ := by
  obtain ⟨m, e, hp, hv, -⟩ := parts_of_isFinite h
  rw [ceil, hp, hv, ← ceilScaled_eq]
  rfl

theorem truncate_of_nonneg (h : x.isFinite = true) (h0 : 0 ≤ value x) :
    truncate x = .ok ⌊value x⌋ := by
  obtain ⟨m, e, hp, hv, -⟩ := parts_of_isFinite h
  have hm : 0 ≤ m := by
    rw [hv] at h0
    exact_mod_cast nonneg_of_mul_nonneg_left h0 (zpow_pos two_pos e)
  rw [truncate, hp, hv, ← floorScaled_eq]
  change Except.ok (if 0 ≤ m then _ else _) = _
  rw [if_pos hm]

theorem isFinite_of_ceil {n : ℤ} (h : ceil x = .ok n) : x.isFinite = true := by
  by_contra hf
  obtain ⟨err, he⟩ := parts_of_not_isFinite (Bool.of_not_eq_true hf)
  rw [ceil, he] at h
  cases h

theorem ofInt?_eq_ok {n : ℤ} (h : ofInt? n = .ok x) : x = ofInt n ∧ x.isFinite = true := by
  unfold ofInt? at h
  split_ifs at h with hf
  cases h
  exact ⟨rfl, hf⟩

theorem value_ofInt {n : ℤ} (h : |n| ≤ 2 ^ 53) : value (ofInt n) = n := by
  have hle : |(n : ℝ)| ≤ limit := by
    have h' : |(n : ℝ)| ≤ 2 ^ (53 : ℤ) := by exact_mod_cast h
    exact h'.trans (zpow_le_zpow_right₀ one_le_two (by norm_num))
  rw [(nearestTo_ofInt n).value_eq, (OnGrid.intCast h).nearest_eq hle]

theorem value_ofInt_natCast {i : ℕ} (h : i ≤ 2 ^ 53) :
    value (ofInt i) = i ∧ (ofInt i).isFinite = true := by
  have hvalue : value (ofInt i) = i := by
    exact_mod_cast value_ofInt (n := i) (by rw [Nat.abs_cast]; exact_mod_cast h)
  have hle : (i : ℝ) ≤ 2 ^ (53 : ℤ) := by exact_mod_cast h
  refine ⟨hvalue, isFinite_iff.2 ⟨(nearestTo_ofInt i).hasValue, ?_⟩⟩
  rw [hvalue, Nat.abs_cast]
  exact hle.trans_lt (zpow_lt_zpow_right₀ one_lt_two (by norm_num))

theorem value_ofInt_one : value (ofInt 1) = 1 := by
  exact_mod_cast (value_ofInt_natCast (i := 1) (by norm_num)).1

theorem value_ofInt_ofNat {n : ℕ} [n.AtLeastTwo] (h : (OfNat.ofNat n : ℕ) ≤ 2 ^ 53) :
    value (ofInt (OfNat.ofNat n)) = OfNat.ofNat n := by
  exact_mod_cast (value_ofInt_natCast h).1

/-- The integers whose doubles are finite: the first one that is not lies half way between the
largest double and the limit. -/
theorem isFinite_ofInt_iff (n : ℤ) :
    (ofInt n).isFinite = true ↔ |n| < 2 ^ 1024 - 2 ^ 970 := by
  have hbound : limit - 2 ^ (970 : ℤ) = ((2 ^ 1024 - 2 ^ 970 : ℤ) : ℝ) := by
    rw [limit, Int.cast_sub, Int.cast_pow, Int.cast_pow, Int.cast_ofNat]
    rfl
  rw [(nearestTo_ofInt n).isFinite_iff_abs_lt, hbound, ← Int.cast_abs, Int.cast_lt]

theorem one_le_value_ofInt {n : ℤ} (h : 1 ≤ n) : 1 ≤ value (ofInt n) := by
  have := (nearestTo_ofInt n).le (y := 1.0) (by rw [value_one]; exact_mod_cast h)
  rwa [value_one] at this

end

end RateCurve.Double
