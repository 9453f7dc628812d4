import RateCurve.Proofs.Double.Value

namespace RateCurve.Double
open Float.Model Float.Model.UnpackedFloat

/-- A double is the one nearest to a real number. -/
structure NearestTo (x : Float) (r : ℝ) : Prop where
  hasValue : HasValue x
  value_eq : value x = nearest r

theorem unpackedValue_bounded {u : UnpackedFloat} (hf : u.isFinite = true) (hc : Canonical u) :
    unpackedValue (bounded u) = max (-limit) (min limit (unpackedValue u)) := by
  have hl := limit_pos
  cases u with
  | notANumber => cases hf
  | infinity s => cases hf
  | zero s =>
    simp only [bounded, unpackedValue]
    rw [min_eq_right hl.le, max_eq_right (by linarith)]
  | finite s m e hm =>
    obtain ⟨hm53, he, hn⟩ := hc
    simp only [bounded]
    split_ifs with hbig
    · -- Beyond the largest exponent a number has all its bits and lies beyond the limit.
      have hm52 : (2 : ℝ) ^ (52 : ℤ) ≤ m := by exact_mod_cast hn.resolve_right (by omega)
      have hle : limit ≤ m * 2 ^ e :=
        calc
          limit ≤ 2 ^ (52 + e) := zpow_le_zpow_right₀ one_le_two (by omega)
          _ = 2 ^ (52 : ℤ) * 2 ^ e := zpow_add₀ two_ne_zero _ _
          _ ≤ m * 2 ^ e := mul_le_mul_of_nonneg_right hm52 (by positivity)
      cases s <;> simp only [unpackedValue, factor, one_mul, neg_mul]
      · rw [min_eq_right (by linarith), max_eq_left (by linarith)]
      · rw [min_eq_left hle, max_eq_right (by linarith)]
    · have hlt : |unpackedValue (.finite s m e hm)| < limit := by
        have hp : (0 : ℝ) ≤ m * 2 ^ e := by positivity
        simpa only [unpackedValue, abs_factor_mul, abs_of_nonneg hp] using
          mul_zpow_lt_limit hm53 (not_lt.1 hbig)
      obtain ⟨hlo, hhi⟩ := abs_lt.1 hlt
      rw [min_eq_right hhi.le, max_eq_right hlo.le]

theorem IsRounding.nearestTo {u : UnpackedFloat} {r : ℝ} (h : IsRounding u r) :
    NearestTo (.ofModel (.pack u)) r := by
  have hu : (Float.ofModel (.pack u)).toModel.unpack = bounded u := unpack_pack h.canonical
  refine ⟨?_, ?_⟩
  · rw [HasValue, hu]
    have hf := h.isFinite
    cases u with
    | notANumber => cases hf
    | infinity s => cases hf
    | zero s =>
      intro hzero
      cases hzero
    | finite s m e hm =>
      simp only [bounded]
      intro hfinite
      split_ifs at hfinite
  · rw [value, hu, unpackedValue_bounded h.isFinite h.canonical, h.value_eq]
    rfl

theorem Storable.canonical {u : UnpackedFloat} (h : Storable u) : Canonical u := by
  cases u with
  | finite s m e hm => exact ⟨h.1, h.2.1, h.2.2.2⟩
  | _ => trivial

theorem Storable.onGrid {u : UnpackedFloat} (h : Storable u) : OnGrid (unpackedValue u) := by
  have h0 : OnGrid 0 := by exact_mod_cast OnGrid.intCast (n := 0) (by norm_num)
  have hl : ∀ s, OnGrid (factor s * limit) := by
    intro s
    cases s
    · simpa only [factor, neg_mul, one_mul] using onGrid_limit.neg
    · simpa only [factor, one_mul] using onGrid_limit
  cases u with
  | notANumber => exact h0
  | infinity s => exact hl s
  | zero s => exact h0
  | finite s m e hm =>
    have hm53 : |(m : ℤ)| ≤ 2 ^ 53 := by
      rw [Nat.abs_cast]
      exact_mod_cast h.1.le
    have hpos : OnGrid (m * 2 ^ e) := ⟨m, e, hm53, h.2.1, by push_cast; rfl⟩
    cases s
    · simpa only [unpackedValue, factor, neg_mul, one_mul] using hpos.neg
    · simpa only [unpackedValue, factor, one_mul] using hpos

theorem onGrid_value (x : Float) : OnGrid (value x) :=
  (storable_unpack x).onGrid

theorem Storable.abs_unpackedValue_le {u : UnpackedFloat} (h : Storable u) :
    |unpackedValue u| ≤ limit := by
  have hl := limit_pos.le
  cases u with
  | notANumber | zero s => simpa only [unpackedValue, abs_zero]
  | infinity s => rw [unpackedValue, abs_factor_mul, abs_of_nonneg hl]
  | finite s m e hm =>
    have hp : (0 : ℝ) ≤ m * 2 ^ e := by positivity
    rw [unpackedValue, abs_factor_mul, abs_of_nonneg hp]
    exact (mul_zpow_lt_limit h.1 h.2.2.1).le

theorem abs_value_le (x : Float) : |value x| ≤ limit :=
  (storable_unpack x).abs_unpackedValue_le

theorem isRounding_self {u : UnpackedFloat} (h : Storable u) (hf : u.isFinite = true) :
    IsRounding u (unpackedValue u) :=
  ⟨hf, h.canonical, h.onGrid.round_eq.symm⟩

theorem apply_eq_factor_mul (s : Sign) (m : ℕ) : ((s.apply m : ℤ) : ℝ) = factor s * m := by
  cases s <;> simp only [Sign.apply, factor, Int.cast_neg, Int.cast_natCast, neg_mul, one_mul]

theorem decreaseExponent_eq {m : ℕ} {e t : ℤ} (h : t ≤ e) :
    ((decreaseExponent m e t).1 : ℝ) * 2 ^ t = m * 2 ^ e := by
  have : (decreaseExponent m e t).2 = t := by
    simp only [decreaseExponent]
    omega
  have hv := mul_zpow_decreaseExponent m e t
  rwa [this] at hv

theorem isRounding_add {u v : UnpackedFloat} (hu : Storable u) (hv : Storable v)
    (hu' : u.isFinite = true) (hv' : v.isFinite = true) :
    IsRounding (UnpackedFloat.add .binary64 u v) (unpackedValue u + unpackedValue v) := by
  rcases u with s | _ | s | ⟨s, m, e, hm⟩
  case infinity | notANumber => cases hu'
  all_goals rcases v with t | _ | t | ⟨t, n, f, hn⟩
  case zero.infinity | zero.notANumber | finite.infinity | finite.notANumber => cases hv'
  case zero.zero =>
    simp only [unpackedValue, add_zero]
    cases s <;> cases t <;> exact ⟨rfl, trivial, round_zero.symm⟩
  case zero.finite =>
    simp only [unpackedValue, zero_add]
    exact isRounding_self hv rfl
  case finite.zero =>
    simp only [unpackedValue, add_zero]
    exact isRounding_self hu rfl
  case finite.finite =>
    have h := isRounding_normalize (s.apply (decreaseExponent m e (min e f)).1 +
      t.apply (decreaseExponent n f (min e f)).1) (min e f) .positive
    rwa [Int.cast_add, add_mul, apply_eq_factor_mul, apply_eq_factor_mul, mul_assoc, mul_assoc,
      decreaseExponent_eq (min_le_left e f), decreaseExponent_eq (min_le_right e f)] at h

theorem unpackedSub_eq (u v : UnpackedFloat) :
    UnpackedFloat.sub .binary64 u v = UnpackedFloat.add .binary64 u v.neg := by
  have happly (s : Sign) (n : ℤ) : (-s).apply n = -s.apply n := by
    cases s
    · exact (neg_neg n).symm
    · rfl
  rcases u with s | _ | s | ⟨s, m, e, hm⟩ <;> rcases v with t | _ | t | ⟨t, n, f, hn⟩
  case finite.finite =>
    simp only [UnpackedFloat.sub, UnpackedFloat.add, UnpackedFloat.neg, happly,
      Int.sub_eq_add_neg]
  all_goals rfl

theorem storable_neg {u : UnpackedFloat} (h : Storable u) : Storable u.neg := by
  cases u with
  | finite s m e hm => exact h
  | _ => trivial

theorem unpackedValue_neg (u : UnpackedFloat) : unpackedValue u.neg = -unpackedValue u := by
  have hneg (s : Sign) : factor (-s) = -factor s := by
    cases s
    · exact (neg_neg 1).symm
    · rfl
  cases u <;> simp only [UnpackedFloat.neg, unpackedValue, hneg, neg_mul, neg_zero]

theorem factor_mul (s t : Sign) : factor (s * t) = factor s * factor t := by
  cases s <;> cases t <;> simp only [factor, mul_one, mul_neg, neg_neg]

/-- A product is rounded once, if it has enough bits or its exponent is small. -/
theorem isRounding_mul_finite (s t : Sign) {m n : ℕ} (e f : ℤ) (hm : 0 < m) (hn : 0 < n)
    (h : 52 ≤ (m * n).log2 ∨ e + f ≤ -1074) :
    IsRounding (UnpackedFloat.mul .binary64 (.finite s m e hm) (.finite t n f hn))
      (factor s * (m * 2 ^ e) * (factor t * (n * 2 ^ f))) := by
  have hpos : 0 < m * n := Nat.mul_pos hm hn
  have hx : (0 : ℝ) < (m * n : ℕ) * 2 ^ (e + f) := by positivity
  have hself : Truncates (.ofMantissaAndAccuracy (m * n) .exact)
      ((m * n : ℕ) * 2 ^ (e + f) / 2 ^ (e + f)) := by
    rw [mul_div_cancel_right₀ _ (by positivity)]
    exact truncates_exact _
  have hexp := exponent_eq_targetExponent hx hself (by omega)
  have hle : e + f ≤ exponent ((m * n : ℕ) * 2 ^ (e + f)) := by
    rw [← hexp, targetExponent_eq]
    omega
  have h := isRounding_roundWithAccuracy (s * t) hx hself hle
  have heq : factor s * (m * 2 ^ e) * (factor t * (n * 2 ^ f)) =
      factor (s * t) * ((m * n : ℕ) * 2 ^ (e + f)) := by
    rw [factor_mul, zpow_add₀ two_ne_zero]
    push_cast
    ring
  rw [heq]
  exact h

theorem isRounding_mul {u v : UnpackedFloat} (hu : Storable u) (hv : Storable v)
    (hu' : u.isFinite = true) (hv' : v.isFinite = true) :
    IsRounding (UnpackedFloat.mul .binary64 u v) (unpackedValue u * unpackedValue v) := by
  rcases u with s | _ | s | ⟨s, m, e, hm⟩
  case infinity | notANumber => cases hu'
  all_goals rcases v with t | _ | t | ⟨t, n, f, hn⟩
  case zero.infinity | zero.notANumber | finite.infinity | finite.notANumber => cases hv'
  case zero.zero | zero.finite =>
    simp only [unpackedValue, zero_mul]
    exact ⟨rfl, trivial, round_zero.symm⟩
  case finite.zero =>
    simp only [unpackedValue, mul_zero]
    exact ⟨rfl, trivial, round_zero.symm⟩
  case finite.finite =>
    apply isRounding_mul_finite s t e f hm hn
    -- If a factor has all its bits, so has the product; otherwise its exponent is very small.
    have hpos : 0 < m * n := Nat.mul_pos hm hn
    rcases hu.2.2.2 with hm52 | he
    · exact .inl ((Nat.le_log2 hpos.ne').2 (hm52.trans (Nat.le_mul_of_pos_right m hn)))
    · rcases hv.2.2.2 with hn52 | hf
      · exact .inl ((Nat.le_log2 hpos.ne').2 (hn52.trans (Nat.le_mul_of_pos_left n hm)))
      · exact .inr (by omega)

theorem truncates_accuracyOfFraction {q num den : ℕ} (h : num < den) :
    Truncates (.ofMantissaAndAccuracy q (accuracyOfFraction num den)) (q + num / den) := by
  have hd : (0 : ℝ) < den := by exact_mod_cast (Nat.zero_le num).trans_lt h
  have h' : (num : ℝ) < den := by exact_mod_cast h
  unfold accuracyOfFraction
  split_ifs with h0
  · rw [h0, Nat.cast_zero, zero_div, add_zero]
    exact truncates_exact q
  · have hn : (0 : ℝ) < num := by exact_mod_cast Nat.pos_of_ne_zero h0
    have hpos : (0 : ℝ) < num / den := by positivity
    have hone : (num : ℝ) / den < 1 := (div_lt_one hd).2 h'
    rcases lt_trichotomy (2 * num) den with hlt | heq | hgt
    · have : (num : ℝ) / den < 1 / 2 := by
        rw [div_lt_div_iff₀ hd two_pos]
        exact_mod_cast (by omega : num * 2 < 1 * den)
      rw [Nat.compare_eq_lt.2 hlt]
      simp only [Truncates, ExtendedMantissa.ofMantissaAndAccuracy, Bool.false_eq_true, if_true,
        if_false]
      constructor <;> linarith
    · have : (num : ℝ) / den = 1 / 2 := by
        rw [div_eq_div_iff hd.ne' two_ne_zero]
        exact_mod_cast (by omega : num * 2 = 1 * den)
      rw [Nat.compare_eq_eq.2 heq]
      simp only [Truncates, ExtendedMantissa.ofMantissaAndAccuracy, Bool.false_eq_true, if_true,
        if_false, this]
    · have : 1 / 2 < (num : ℝ) / den := by
        rw [div_lt_div_iff₀ two_pos hd]
        exact_mod_cast (by omega : 1 * den < num * 2)
      rw [Nat.compare_eq_gt.2 hgt]
      simp only [Truncates, ExtendedMantissa.ofMantissaAndAccuracy, if_true]
      constructor <;> linarith

/-- What division of natural numbers leaves of a quotient. -/
theorem truncates_div (q : ℕ) {n : ℕ} (hn : 0 < n) :
    Truncates (.ofMantissaAndAccuracy (q / n) (accuracyOfFraction (q % n) n)) (q / n : ℝ) := by
  have hn' : (n : ℝ) ≠ 0 := by exact_mod_cast hn.ne'
  have hsplit : (q : ℝ) / n = (q / n : ℕ) + (q % n : ℕ) / n := by
    rw [eq_comm, add_div_eq_mul_add_div _ _ hn']
    congr 1
    exact_mod_cast Nat.div_add_mod' q n
  rw [hsplit]
  exact truncates_accuracyOfFraction (Nat.mod_lt q hn)

theorem cast_shiftLeft (m i : ℕ) : ((m <<< i : ℕ) : ℝ) = m * 2 ^ i := by
  rw [Nat.shiftLeft_eq, Nat.cast_mul, Nat.cast_pow, Nat.cast_ofNat]

theorem shiftLeft_div_eq (m : ℕ) {n : ℕ} {e f k : ℤ} (hk : k ≤ e - f) :
    ((m <<< (e - f - k).toNat : ℕ) : ℝ) / n = m * 2 ^ e / (n * 2 ^ f) / 2 ^ k := by
  have hek : (2 : ℝ) ^ (e - f - k).toNat * (2 ^ f * 2 ^ k) = 2 ^ e := by
    rw [← zpow_natCast, ← zpow_add₀ two_ne_zero, ← zpow_add₀ two_ne_zero]
    congr 1
    omega
  rw [cast_shiftLeft, ← hek]
  field_simp

theorem sqrt_shiftLeft_eq (m : ℕ) {e k : ℤ} (hk : 2 * k ≤ e) :
    √((m <<< (e - 2 * k).toNat : ℕ) : ℝ) = √(m * 2 ^ e) / 2 ^ k := by
  have hek : (2 : ℝ) ^ (e - 2 * k).toNat * (2 ^ k) ^ 2 = 2 ^ e := by
    rw [← zpow_natCast, ← zpow_natCast (2 ^ k : ℝ), ← zpow_mul, ← zpow_add₀ two_ne_zero]
    congr 1
    omega
  have hm : (0 : ℝ) ≤ m * 2 ^ (e - 2 * k).toNat := by positivity
  rw [cast_shiftLeft, ← hek, ← mul_assoc, Real.sqrt_mul hm, Real.sqrt_sq (by positivity),
    mul_div_cancel_right₀ _ (by positivity)]

theorem two_pow_log2_le {m : ℕ} (hm : 0 < m) (e : ℤ) : (2 : ℝ) ^ (m.log2 + e) ≤ m * 2 ^ e := by
  have h : (2 : ℝ) ^ m.log2 ≤ m := by exact_mod_cast Nat.log2_self_le hm.ne'
  rw [zpow_add₀ two_ne_zero, zpow_natCast]
  exact mul_le_mul_of_nonneg_right h (by positivity)

theorem lt_two_pow_log2 (m : ℕ) (e : ℤ) : (m : ℝ) * 2 ^ e < 2 ^ (m.log2 + 1 + e) := by
  have h : (m : ℝ) < 2 ^ (m.log2 + 1) := by exact_mod_cast Nat.lt_log2_self
  rw [zpow_add₀ two_ne_zero, show (m.log2 : ℤ) + 1 = ((m.log2 + 1 : ℕ) : ℤ) from rfl,
    zpow_natCast]
  exact mul_lt_mul_of_pos_right h (by positivity)

theorem sub_le_exponent {x : ℝ} {n : ℤ} (hx : 0 < x) (h : 2 ^ n ≤ x) :
    max (n - 52) (-1074) ≤ exponent x := by
  have := (Int.zpow_le_iff_le_log (b := 2) (by norm_num) hx).1 (by exact_mod_cast h)
  rw [exponent, abs_of_pos hx]
  omega

theorem isRounding_div {u v : UnpackedFloat} (hu' : u.isFinite = true) (hv' : v.isFinite = true)
    (hv0 : unpackedValue v ≠ 0) :
    IsRounding (UnpackedFloat.div .binary64 u v) (unpackedValue u / unpackedValue v) := by
  rcases u with s | _ | s | ⟨s, m, e, hm⟩
  case infinity | notANumber => cases hu'
  all_goals rcases v with t | _ | t | ⟨t, n, f, hn⟩
  case zero.infinity | zero.notANumber | finite.infinity | finite.notANumber => cases hv'
  case zero.zero | finite.zero => exact absurd rfl hv0
  case zero.finite =>
    rw [unpackedValue, zero_div]
    exact ⟨rfl, trivial, round_zero.symm⟩
  case finite.finite =>
    have hx : (0 : ℝ) < m * 2 ^ e / (n * 2 ^ f) := by positivity
    set x : ℝ := m * 2 ^ e / (n * 2 ^ f) with hxdef
    set k : ℤ :=
      min (e - f) (Format.binary64.targetExponent (totalExponent m e - totalExponent n f))
      with hk
    have htrunc := truncates_div (m <<< (e - f - k).toNat) hn
    rw [shiftLeft_div_eq m (min_le_left _ _), ← hxdef] at htrunc
    have hle : k ≤ exponent x := by
      refine le_trans ?_ (sub_le_exponent (n := m.log2 + e - (n.log2 + 1 + f)) hx ?_)
      · rw [hk]
        simp only [Format.targetExponent, totalExponent, Format.mantissaBits,
        Format.minExponent]
        omega
      · rw [hxdef, zpow_sub₀ two_ne_zero]
        exact div_le_div₀ (by positivity) (two_pow_log2_le hm e) (by positivity)
          (lt_two_pow_log2 n f).le
    have h := isRounding_roundWithAccuracy (s / t) hx htrunc hle
    have heq : factor s * (m * 2 ^ e) / (factor t * (n * 2 ^ f)) = factor (s / t) * x := by
      change _ = factor (s * t) * x
      rw [factor_mul, hxdef]
      cases t <;> simp only [factor] <;> ring
    rw [unpackedValue, unpackedValue, heq]
    exact h

theorem truncates_sqrt (m : ℕ) :
    Truncates (.ofMantissaAndAccuracy (Nat.sqrt m)
      (if m - Nat.sqrt m * Nat.sqrt m = 0 then .exact
        else .inexact (if m - Nat.sqrt m * Nat.sqrt m ≤ Nat.sqrt m then .lt else .gt)))
      √m := by
  have hlo := Nat.sqrt_le m
  have hsucc := Real.real_sqrt_lt_nat_sqrt_succ (a := m)
  generalize Nat.sqrt m = r at hlo hsucc ⊢
  split_ifs with h0 hle
  · have : m = r * r := by omega
    rw [this, Nat.cast_mul, Real.sqrt_mul_self (Nat.cast_nonneg r)]
    exact truncates_exact r
  · have hgt : (r : ℝ) ^ 2 < m := by exact_mod_cast (by rw [pow_two]; omega : r ^ 2 < m)
    have hlt : (m : ℝ) < (r + 1 / 2) ^ 2 := by
      have : (m : ℝ) ≤ r * r + r := by exact_mod_cast (by omega : m ≤ r * r + r)
      linarith
    simp only [Truncates, ExtendedMantissa.ofMantissaAndAccuracy, Bool.false_eq_true, if_true,
      if_false, add_zero]
    exact ⟨Real.lt_sqrt_of_sq_lt hgt, (Real.sqrt_lt' (by positivity)).2 hlt⟩
  · have hgt : (r + 1 / 2 : ℝ) ^ 2 < m := by
      have : (r * r + r + 1 : ℝ) ≤ m := by exact_mod_cast (by omega : r * r + r + 1 ≤ m)
      linarith
    simp only [Truncates, ExtendedMantissa.ofMantissaAndAccuracy, if_true]
    exact ⟨Real.lt_sqrt_of_sq_lt hgt, by linarith⟩

theorem isRounding_sqrt {u : UnpackedFloat} (hu' : u.isFinite = true)
    (hu0 : 0 ≤ unpackedValue u) :
    IsRounding (UnpackedFloat.sqrt .binary64 u) √(unpackedValue u) := by
  rcases u with s | _ | s | ⟨s, m, e, hm⟩
  case infinity | notANumber => cases hu'
  case zero =>
    rw [unpackedValue, Real.sqrt_zero]
    exact ⟨rfl, trivial, round_zero.symm⟩
  case finite =>
    have hpos : (0 : ℝ) < m * 2 ^ e := by positivity
    cases s with
    | negative =>
      simp only [unpackedValue, factor, neg_mul, one_mul] at hu0
      linarith
    | positive =>
      have hx : 0 < √(m * 2 ^ e) := Real.sqrt_pos.2 hpos
      set k : ℤ :=
        min (e.ediv 2) (Format.binary64.targetExponent ((totalExponent m e + 1).ediv 2))
        with hk
      have hke : 2 * k ≤ e := by
        have : k ≤ e / 2 := min_le_left _ _
        omega
      have htrunc := truncates_sqrt (m <<< (e - 2 * k).toNat)
      rw [sqrt_shiftLeft_eq m hke] at htrunc
      have hle : k ≤ exponent √(m * 2 ^ e) := by
        refine le_trans ?_ (sub_le_exponent (n := (m.log2 + e) / 2) hx ?_)
        · refine (min_le_right _ _).trans (le_of_eq ?_)
          change Format.binary64.targetExponent ((totalExponent m e + 1) / 2) = _
          simp only [Format.targetExponent, totalExponent, Format.mantissaBits,
            Format.minExponent]
          omega
        · apply Real.le_sqrt_of_sq_le
          refine le_trans ?_ (two_pow_log2_le hm e)
          rw [← zpow_natCast, ← zpow_mul]
          exact zpow_le_zpow_right₀ one_le_two (by push_cast; omega)
      have h := isRounding_roundWithAccuracy .positive hx htrunc hle
      simp only [unpackedValue, factor, one_mul] at h ⊢
      exact h

end RateCurve.Double
