import RateCurve.Proofs.Double.Sign

namespace RateCurve.Double
open Float.Model Float.Model.UnpackedFloat

theorem round_eq_zero {x : ℝ} (h0 : 0 ≤ x) (h : x < 2 ^ (-1075 : ℤ)) : round x = 0 := by
  rcases h0.eq_or_lt with rfl | hpos
  · exact round_zero
  have hexp : exponent x = -1074 := by
    have := (Int.lt_zpow_iff_log_lt (b := 2) (by norm_num) hpos).1 (by exact_mod_cast h)
    rw [exponent, abs_of_pos hpos]
    omega
  have hp : (0 : ℝ) < 2 ^ (-1074 : ℤ) := by positivity
  have hsmall : x / 2 ^ (-1074 : ℤ) < 1 / 2 := by
    rw [div_lt_iff₀ hp]
    refine h.trans_eq ?_
    rw [show (-1074 : ℤ) = -1075 + 1 from rfl, zpow_add_one₀ two_ne_zero]
    ring
  have hfloor : ⌊x / 2 ^ (-1074 : ℤ)⌋ = 0 := by
    rw [Int.floor_eq_zero_iff]
    exact ⟨by positivity, hsmall.trans one_half_lt_one⟩
  have hhalf : halfEven (x / 2 ^ (-1074 : ℤ)) = 0 := by
    rw [halfEven_of_lt, hfloor]
    rwa [Int.fract, hfloor, Int.cast_zero, sub_zero]
  rw [round, hexp, hhalf, Int.cast_zero, zero_mul]

theorem nearest_eq_zero {x : ℝ} (h0 : 0 ≤ x) (h : x < 2 ^ (-1075 : ℤ)) : nearest x = 0 := by
  have := limit_pos.le
  rw [nearest, round_eq_zero h0 h, min_eq_right this, max_eq_right (by linarith)]

section Decimal

variable {m : ℕ} {e : ℤ}

theorem limit_le_mul_zpow (hm : 0 < m) (he : 2048 < e) : limit ≤ m * 10 ^ e := by
  have hm' : (1 : ℝ) ≤ m := by exact_mod_cast hm
  have hpow : limit ≤ (10 : ℝ) ^ e :=
    calc
      limit ≤ 2 ^ e := zpow_le_zpow_right₀ one_le_two (by omega)
      _ ≤ 10 ^ e := zpow_le_zpow_left₀ (by omega) zero_le_two (by norm_num)
  exact hpow.trans (le_mul_of_one_le_left (by positivity) hm')

theorem mul_zpow_lt (he : e < -(2048 + m.log2)) : (m : ℝ) * 10 ^ e < 2 ^ (-1075 : ℤ) := by
  have hpow : (10 : ℝ) ^ e ≤ 2 ^ e := by
    obtain ⟨n, rfl⟩ : ∃ n : ℕ, e = -n := ⟨(-e).toNat, by omega⟩
    rw [zpow_neg, zpow_neg, zpow_natCast, zpow_natCast]
    exact inv_anti₀ (by positivity) (pow_le_pow_left₀ zero_le_two (by norm_num) n)
  calc
    (m : ℝ) * 10 ^ e ≤ m * 2 ^ e := mul_le_mul_of_nonneg_left hpow (Nat.cast_nonneg m)
    _ < 2 ^ (m.log2 + 1 + e) := lt_two_pow_log2 m e
    _ ≤ 2 ^ (-1075 : ℤ) := zpow_le_zpow_right₀ one_le_two (by omega)

theorem isRounding_zero (s : Sign) : IsRounding (.zero s) 0 :=
  ⟨rfl, trivial, round_zero.symm⟩

theorem le_log2_shiftLeft_mul {n : ℕ} (hm : 0 < m) (hn : 0 < n) : 52 ≤ (m <<< 53 * n).log2 := by
  have hpos : 0 < m <<< 53 * n := by
    rw [Nat.shiftLeft_eq]
    positivity
  have h1 : 1 ≤ m * n := Nat.mul_pos hm hn
  rw [Nat.le_log2 hpos.ne', Nat.shiftLeft_eq]
  calc
    2 ^ 52 ≤ 2 ^ 53 * (m * n) := by omega
    _ = m * 2 ^ 53 * n := by ring

/-- The factor has so many bits that none is lost in the product before it is rounded. -/
theorem isRounding_mul_pow_ten (n : ℕ) (hm : 0 < m <<< 53) (hn : 0 < 10 ^ n) :
    IsRounding (UnpackedFloat.mul .binary64 (.finite .positive (m <<< 53) (-53) hm)
      (.finite .positive (10 ^ n) 0 hn)) (m * 10 ^ (n : ℤ)) := by
  have hm0 : 0 < m := Nat.pos_of_ne_zero fun h0 => hm.ne' (by rw [h0, Nat.zero_shiftLeft])
  have h :=
    isRounding_mul_finite .positive .positive (-53) 0 hm hn
      (.inl (le_log2_shiftLeft_mul hm0 hn))
  have heq : ((m <<< 53 : ℕ) : ℝ) * 2 ^ (-53 : ℤ) = m := by
    rw [cast_shiftLeft, mul_assoc, ← zpow_natCast, ← zpow_add₀ two_ne_zero]
    norm_num
  rw [heq, factor, one_mul, one_mul, zpow_zero, mul_one, Nat.cast_pow, Nat.cast_ofNat,
    ← zpow_natCast] at h
  exact h

theorem isRounding_div_pow_ten (n : ℕ) (hm : 0 < m) (hn : 0 < 10 ^ n) :
    IsRounding (UnpackedFloat.div .binary64 (.finite .positive m 0 hm)
      (.finite .positive (10 ^ n) 0 hn)) (m * 10 ^ (-n : ℤ)) := by
  have hvalue {k : ℕ} (hk : 0 < k) : unpackedValue (.finite .positive k 0 hk) = k := by
    rw [unpackedValue, factor, one_mul, zpow_zero, mul_one]
  have hne : unpackedValue (.finite .positive (10 ^ n) 0 hn) ≠ 0 := by
    rw [hvalue]
    exact_mod_cast hn.ne'
  have h := isRounding_div (u := .finite .positive m 0 hm) rfl rfl hne
  rwa [hvalue, hvalue, Nat.cast_pow, Nat.cast_ofNat, div_eq_mul_inv, ← zpow_natCast,
    ← zpow_neg] at h

theorem nearestTo_ofDecimal (m : ℕ) (e : ℤ) : NearestTo (ofDecimal m e) (m * 10 ^ e) := by
  have hmodel : ofDecimal m e = .ofModel (.pack (.ofScientific .binary64 m e)) := rfl
  have hbits : ((2 : ℤ) ^ Format.binary64.exponentBits) = 2048 := rfl
  have hzero : NearestTo (.ofModel (.pack (.zero .positive))) 0 :=
    (isRounding_zero .positive).nearestTo
  rw [hmodel, UnpackedFloat.ofScientific, hbits]
  split_ifs with h0 hbig hsmall hpos
  · rwa [h0, Nat.cast_zero, zero_mul]
  · exact nearestTo_of_limit_le (unpack_pack_infinity .positive)
      (limit_le_mul_zpow (Nat.pos_of_ne_zero h0) hbig)
  · refine ⟨hzero.hasValue, ?_⟩
    rw [hzero.value_eq, nearest_zero, nearest_eq_zero (by positivity) (mul_zpow_lt hsmall)]
  · have h := isRounding_mul_pow_ten (m := m) e.toNat
      (by rw [Nat.shiftLeft_eq]; have := Nat.pos_of_ne_zero h0; positivity) (by positivity)
    rw [Int.toNat_of_nonneg hpos] at h
    exact h.nearestTo
  · have h := isRounding_div_pow_ten (m := m) (-e).toNat (Nat.pos_of_ne_zero h0) (by positivity)
    rw [Int.toNat_of_nonneg (by omega), neg_neg] at h
    exact h.nearestTo

end Decimal

section

variable {x y : Float}

theorem factor_mul_inj {s t : Sign} {a b : ℝ} (ha : 0 < a) (hb : 0 < b)
    (h : factor s * a = factor t * b) : s = t ∧ a = b := by
  cases s with
  | positive =>
    cases t with
    | positive => exact ⟨rfl, by rwa [factor, one_mul, one_mul] at h⟩
    | negative =>
      rw [factor, factor, one_mul, neg_one_mul] at h
      linarith
  | negative =>
    cases t with
    | positive =>
      rw [factor, factor, one_mul, neg_one_mul] at h
      linarith
    | negative => exact ⟨rfl, by rwa [factor, neg_one_mul, neg_one_mul, neg_inj] at h⟩

theorem unpackedValue_finite_ne {s : Sign} {m : ℕ} {e : ℤ} {hm : 0 < m}
    (h : Storable (.finite s m e hm)) (t : Sign) :
    unpackedValue (.finite s m e hm) ≠ unpackedValue (.infinity t) := by
  intro heq
  have hpos : (0 : ℝ) < m * 2 ^ e := by positivity
  exact (mul_zpow_lt_limit h.1 h.2.2.1).ne (factor_mul_inj hpos limit_pos heq).2

theorem unpacked_eq_of_value_eq {u v : UnpackedFloat} (hu : Storable u) (hv : Storable v)
    (hu' : u ≠ .notANumber) (hv' : v ≠ .notANumber) (h : unpackedValue u = unpackedValue v)
    (h0 : unpackedValue u ≠ 0) : u = v := by
  have hl := limit_pos
  rcases u with s | _ | s | ⟨s, m, e, hm⟩
  case notANumber => exact absurd rfl hu'
  case zero => exact absurd rfl h0
  all_goals rcases v with t | _ | t | ⟨t, n, f, hn⟩
  case infinity.notANumber | finite.notANumber => exact absurd rfl hv'
  case infinity.zero | finite.zero => exact absurd h h0
  case infinity.finite => exact absurd h.symm (unpackedValue_finite_ne hv s)
  case finite.infinity => exact absurd h (unpackedValue_finite_ne hu t)
  case infinity.infinity =>
    obtain ⟨rfl, -⟩ := factor_mul_inj hl hl h
    rfl
  case finite.finite =>
    have hpos : (0 : ℝ) < m * 2 ^ e := by positivity
    have hpos' : (0 : ℝ) < n * 2 ^ f := by positivity
    obtain ⟨rfl, heq⟩ := factor_mul_inj hpos hpos' h
    have hcmp := compare_then_eq_cmp hu hv
    rw [heq, cmp_self_eq_eq, Ordering.then_eq_eq, compare_eq_iff_eq, compare_eq_iff_eq] at hcmp
    obtain ⟨rfl, rfl⟩ := hcmp
    rfl

theorem eq_of_value_eq (hx : HasValue x) (hy : HasValue y) (h : value x = value y)
    (h0 : value x ≠ 0) : x = y := by
  have := unpacked_eq_of_value_eq (storable_unpack x) (storable_unpack y) hx hy h h0
  rw [← pack_unpack x, this, pack_unpack]

theorem NearestTo.eq_of_value_eq {r : ℝ} (h : NearestTo y r) (hx : HasValue x)
    (hr : nearest r = value x) (h0 : value x ≠ 0) : y = x :=
  Double.eq_of_value_eq h.hasValue hx (h.value_eq.trans hr) (by rwa [h.value_eq, hr])

theorem ofDecimal_congr {m m' : ℕ} {e e' : ℤ} (h : ofDecimal m e = x) (h0 : value x ≠ 0)
    (heq : (m : ℝ) * 10 ^ e = m' * 10 ^ e') : ofDecimal m' e' = x := by
  have hm := nearestTo_ofDecimal m e
  rw [h] at hm
  apply (nearestTo_ofDecimal m' e').eq_of_value_eq hm.hasValue _ h0
  rw [← heq, hm.value_eq]

end

theorem halfEven_eq_of_abs_sub_lt {x : ℝ} {n : ℤ} (h : |x - n| < 1 / 2) : halfEven x = n := by
  obtain ⟨hlo, hhi⟩ := abs_lt.1 h
  have hx := abs_le.1 (abs_halfEven_sub_le x)
  have h₁ : ((halfEven x : ℤ) : ℝ) < (n + 1 : ℤ) := by push_cast; linarith
  have h₂ : ((n - 1 : ℤ) : ℝ) < halfEven x := by push_cast; linarith
  have h₁ : halfEven x < n + 1 := by exact_mod_cast h₁
  have h₂ : n - 1 < halfEven x := by exact_mod_cast h₂
  omega

theorem OnGrid.exists_eq_mul_zpow {x : ℝ} (h : OnGrid x) : ∃ k : ℤ, x = k * 2 ^ exponent x :=
  ⟨halfEven (x / 2 ^ exponent x), h.round_eq.symm⟩

/-- Numbers that are closer to each other than a part in `2 ^ 54` round to the same one. -/
theorem OnGrid.round_eq_of_abs_sub_lt {x y : ℝ} (h : OnGrid x) (hx : 0 < x) (hy : 0 < y)
    (hlx : |y - x| * 2 ^ (54 : ℤ) < x) (hly : |y - x| * 2 ^ (54 : ℤ) < y) : round y = x := by
  obtain ⟨k, hk⟩ := h.exists_eq_mul_zpow
  have hclose {z : ℝ} (hz : 0 < z) (hlt : |y - x| * 2 ^ (54 : ℤ) < z) :
      |y - x| < 2 ^ (exponent z - 1) := by
    have := hlt.trans (lt_zpow_exponent hz)
    rw [show 53 + exponent z = exponent z - 1 + 54 by ring, zpow_add₀ two_ne_zero] at this
    exact lt_of_mul_lt_mul_right this (by positivity)
  have hexp : exponent y ≤ exponent x := by
    by_contra hlt
    -- Otherwise there is a power of two between the two, with which the spacing around `x` fits
    -- in.
    have hypow := zpow_exponent_le hy (by have := le_exponent x; omega)
    have hp : (0 : ℝ) < 2 ^ exponent x := by positivity
    have hk53 : k + 1 ≤ 2 ^ 53 := by
      have hlt : (k : ℝ) * 2 ^ exponent x < 2 ^ (53 : ℤ) * 2 ^ exponent x := by
        rw [← hk, ← zpow_add₀ two_ne_zero]
        exact lt_zpow_exponent hx
      exact_mod_cast lt_of_mul_lt_mul_right hlt hp.le
    have hgap : x + 2 ^ exponent x ≤ y :=
      calc
        x + 2 ^ exponent x = ((k + 1 : ℤ) : ℝ) * 2 ^ exponent x := by
          rw [Int.cast_add, Int.cast_one, add_mul, one_mul, ← hk]
        _ ≤ 2 ^ (53 : ℤ) * 2 ^ exponent x :=
          mul_le_mul_of_nonneg_right (by exact_mod_cast hk53) hp.le
        _ = 2 ^ (53 + exponent x) := (zpow_add₀ two_ne_zero _ _).symm
        _ ≤ 2 ^ (52 + exponent y) := zpow_le_zpow_right₀ one_le_two (by omega)
        _ ≤ y := hypow
    have hnear := hclose hx hlx
    have : (2 : ℝ) ^ (exponent x - 1) ≤ 2 ^ exponent x :=
      zpow_le_zpow_right₀ one_le_two (by omega)
    rw [abs_of_nonneg (by linarith)] at hnear
    linarith
  -- So the spacing around `y` divides `x`, and half of it is more than the distance.
  obtain ⟨n, hn⟩ : ∃ n : ℕ, exponent x = exponent y + n :=
    ⟨(exponent x - exponent y).toNat, by omega⟩
  have hp : (0 : ℝ) < 2 ^ exponent y := by positivity
  have hxk : x = ((k * 2 ^ n : ℤ) : ℝ) * 2 ^ exponent y := by
    push_cast
    rw [mul_assoc, ← zpow_natCast, ← zpow_add₀ two_ne_zero, add_comm, ← hn, ← hk]
  have hnear := hclose hy hly
  generalize k * 2 ^ n = j at hxk
  have hhalf : |y / 2 ^ exponent y - j| < 1 / 2 := by
    have hdiv : y / 2 ^ exponent y - j = (y - x) / 2 ^ exponent y := by
      rw [hxk]
      field_simp
    rw [hdiv, abs_div, abs_of_pos hp, div_lt_iff₀ hp]
    refine hnear.trans_eq ?_
    rw [zpow_sub_one₀ two_ne_zero]
    ring
  rw [round, halfEven_eq_of_abs_sub_lt hhalf, ← hxk]

theorem NearestTo.value_zpow_add {x : Float} {e : ℤ} {y : ℝ} (h : NearestTo x (2 ^ e + y))
    (hlo : -1074 ≤ e) (hhi : e < 1024) (hy : |y| * 2 ^ (55 : ℤ) ≤ 2 ^ e) :
    x.isFinite = true ∧ value x = 2 ^ e := by
  have hp : (0 : ℝ) < 2 ^ e := by positivity
  have hlim : (2 : ℝ) ^ e < limit := zpow_lt_zpow_right₀ one_lt_two hhi
  have hhalf : |y| * 2 ^ (54 : ℤ) ≤ 2 ^ e / 2 := by
    rw [show (55 : ℤ) = 54 + 1 from rfl, zpow_add_one₀ two_ne_zero] at hy
    linarith
  have hquarter : |y| * 2 ≤ |y| * 2 ^ (54 : ℤ) :=
    mul_le_mul_of_nonneg_left (by norm_num) (abs_nonneg y)
  have hr : 2 ^ e / 2 < 2 ^ e + y := by linarith [neg_abs_le y]
  have hround : round (2 ^ e + y) = 2 ^ e := by
    apply (OnGrid.zpow hlo).round_eq_of_abs_sub_lt hp (by linarith) <;>
      rw [add_sub_cancel_left] <;>
      linarith
  have hvalue : value x = 2 ^ e := by
    rw [h.value_eq, nearest, hround, min_eq_right hlim.le,
      max_eq_right (by linarith [limit_pos])]
  refine ⟨isFinite_iff.2 ⟨h.hasValue, ?_⟩, hvalue⟩
  rwa [hvalue, abs_of_pos hp]

theorem NearestTo.value_zpow {x : Float} {e : ℤ} (h : NearestTo x (2 ^ e)) (hlo : -1074 ≤ e)
    (hhi : e < 1024) : x.isFinite = true ∧ value x = 2 ^ e := by
  rw [← add_zero (2 ^ e)] at h
  apply h.value_zpow_add hlo hhi
  rw [abs_zero, zero_mul]
  positivity

end RateCurve.Double
