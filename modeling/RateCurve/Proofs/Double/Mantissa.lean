import RateCurve.Proofs.Double.Rounding

namespace RateCurve.Double
open Float.Model Float.Model.UnpackedFloat

/-- A mantissa with its residual bits is what truncation leaves of a real number: the round bit
counts one half, and the sticky bit says that there is more, but not another half. -/
def Truncates (em : ExtendedMantissa) (x : ℝ) : Prop :=
  let kept : ℝ := em.mantissa + if em.roundBit then 1 / 2 else 0
  if em.stickyBit then kept < x ∧ x < kept + 1 / 2 else x = kept

theorem truncates_exact (m : ℕ) : Truncates (.ofMantissaAndAccuracy m .exact) m := by
  simp only [Truncates, ExtendedMantissa.ofMantissaAndAccuracy, Bool.false_eq_true,
    if_false, add_zero]

theorem Truncates.le {em : ExtendedMantissa} {x : ℝ} (h : Truncates em x) :
    em.mantissa ≤ x := by
  rcases em with ⟨m, r, s⟩
  cases r <;> cases s <;> simp only [Truncates, Bool.false_eq_true, if_true, if_false]
    at h ⊢ <;>
    linarith

theorem Truncates.lt {em : ExtendedMantissa} {x : ℝ} (h : Truncates em x) :
    x < em.mantissa + 1 := by
  rcases em with ⟨m, r, s⟩
  cases r <;> cases s <;> simp only [Truncates, Bool.false_eq_true, if_true, if_false]
    at h ⊢ <;>
    linarith

theorem Truncates.floor_eq {em : ExtendedMantissa} {x : ℝ} (h : Truncates em x) :
    ⌊x⌋ = (em.mantissa : ℤ) :=
  Int.floor_eq_iff.2 ⟨by exact_mod_cast h.le, by exact_mod_cast h.lt⟩

theorem Truncates.shiftRightOne {em : ExtendedMantissa} {x : ℝ} (h : Truncates em x) :
    Truncates em.shiftRightOne (x / 2) := by
  rcases em with ⟨m, r, s⟩
  obtain ⟨k, b, rfl, hb⟩ : ∃ k b, m = 2 * k + b ∧ (b = 0 ∨ b = 1) :=
    ⟨m / 2, m % 2, by omega, by omega⟩
  -- The bit that leaves the mantissa is the new round bit; the old one joins the sticky bit.
  have hk : (2 * k + b) / 2 = k := by omega
  have hm : (2 * k + b) % 2 = b := by omega
  rcases hb with rfl | rfl <;> cases r <;> cases s <;>
    simp only [Truncates, ExtendedMantissa.shiftRightOne, hk, hm, bne_self_eq_false,
    Nat.cast_add,
      Nat.cast_mul, Nat.cast_ofNat, Nat.cast_zero, Nat.cast_one, Bool.or_true, Bool.or_false,
      Bool.false_eq_true, if_true, if_false, one_ne_zero, bne_iff_ne, ne_eq,
      not_false_eq_true] at h ⊢ <;>
    first | constructor <;> linarith | linarith

theorem Truncates.shiftRight {em : ExtendedMantissa} {x : ℝ} (h : Truncates em x) (k : ℕ) :
    Truncates (em >>> k) (x / 2 ^ k) := by
  change Truncates (k.repeat ExtendedMantissa.shiftRightOne em) _
  induction k with
  | zero =>
    rw [pow_zero, div_one]
    exact h
  | succ k ih =>
    rw [pow_succ, ← div_div]
    exact ih.shiftRightOne

/-- Rounding by the residual bits is rounding to the nearest integer. -/
theorem Truncates.roundedMantissa_eq {em : ExtendedMantissa} {x : ℝ} (h : Truncates em x) :
    (em.roundedMantissa : ℤ) = halfEven x := by
  have hf := h.floor_eq
  have hx : Int.fract x = x - em.mantissa := by rw [Int.fract, hf, Int.cast_natCast]
  rcases em with ⟨m, r, s⟩
  cases r <;> cases s <;>
    simp only [Truncates, Bool.false_eq_true, if_true, if_false,
    ExtendedMantissa.roundedMantissa,
      ExtendedMantissa.accuracy, Accuracy.roundToNearestEven] at h hf hx ⊢
  · rw [halfEven_of_lt (by linarith), hf]
  · rw [halfEven_of_lt (by linarith), hf]
  · rw [halfEven_of_eq (by linarith), hf]
    omega
  · rw [halfEven_of_gt (by linarith), hf]
    omega

def factor : Sign → ℝ
  | .negative => -1
  | .positive => 1

/-- The real number that an unpacked double stands for. An infinity stands for the first power
of two beyond the doubles, so that doubles are in the order of their values. -/
noncomputable def unpackedValue : UnpackedFloat → ℝ
  | .notANumber => 0
  | .infinity s => factor s * limit
  | .zero _ => 0
  | .finite s m e _ => factor s * (m * 2 ^ e)

/-- The mantissa has all its bits unless the exponent is the least one. -/
def Canonical : UnpackedFloat → Prop
  | .finite _ m e _ => m < 2 ^ 53 ∧ -1074 ≤ e ∧ (2 ^ 52 ≤ m ∨ e = -1074)
  | _ => True

/-- An unpacked double is a real number rounded, if the exponent is not bounded. -/
structure IsRounding (u : UnpackedFloat) (x : ℝ) : Prop where
  isFinite : u.isFinite = true
  canonical : Canonical u
  value_eq : unpackedValue u = round x

theorem targetExponent_eq (m : ℕ) (e : ℤ) :
    Format.binary64.targetExponent (totalExponent m e) = max (m.log2 + e - 52) (-1074) := by
  simp only [Format.targetExponent, totalExponent, Format.mantissaBits, Format.minExponent]
  omega

theorem shiftToTargetExponent_of_le {m : ℕ} {e : ℤ} (hm : m < 2 ^ 53) (he : -1074 ≤ e) :
    shiftToTargetExponent .binary64 m e .exact = (⟨m, false, false⟩, e) := by
  have hl : m.log2 ≤ 52 := by
    rcases eq_or_ne m 0 with rfl | h0
    · decide
    · exact Nat.le_of_lt_succ ((Nat.log2_lt h0).2 hm)
  have hk : (Format.binary64.targetExponent (totalExponent m e) - e).toNat = 0 := by
    rw [targetExponent_eq]
    omega
  simp only [shiftToTargetExponent, shiftToExponent, hk, Nat.cast_zero, add_zero]
  rfl

theorem shiftToTargetExponent_carry {e : ℤ} (he : -1074 ≤ e) :
    shiftToTargetExponent .binary64 (2 ^ 53) e .exact = (⟨2 ^ 52, false, false⟩, e + 1) := by
  have hk : (Format.binary64.targetExponent (totalExponent (2 ^ 53) e) - e).toNat = 1 := by
    rw [targetExponent_eq, Nat.log2_two_pow]
    omega
  simp only [shiftToTargetExponent, shiftToExponent, hk, Nat.cast_one]
  rfl

theorem mantissa_ofMantissaAndAccuracy (m : ℕ) (a : Accuracy) :
    (ExtendedMantissa.ofMantissaAndAccuracy m a).mantissa = m := by
  rcases a with _ | ⟨_ | _ | _⟩ <;> rfl

theorem exponent_eq_targetExponent {m : ℕ} {e : ℤ} {a : Accuracy} {x : ℝ} (hx : 0 < x)
    (h : Truncates (.ofMantissaAndAccuracy m a) (x / 2 ^ e)) (hm : m = 0 → e ≤ -1074) :
    Format.binary64.targetExponent (totalExponent m e) = exponent x := by
  have hp : (0 : ℝ) < 2 ^ e := by positivity
  have hlo := h.le
  have hhi := h.lt
  rw [mantissa_ofMantissaAndAccuracy, le_div_iff₀ hp] at hlo
  rw [mantissa_ofMantissaAndAccuracy, div_lt_iff₀ hp] at hhi
  rw [targetExponent_eq, exponent, abs_of_pos hx]
  rcases eq_or_ne m 0 with rfl | h0
  · rw [Nat.cast_zero, zero_add, one_mul] at hhi
    have := (Int.lt_zpow_iff_log_lt (b := 2) (by norm_num) hx).1 (by exact_mod_cast hhi)
    have := hm rfl
    simp only [Nat.log2_zero]
    omega
  · have hl : Int.log 2 x = m.log2 + e := by
      apply le_antisymm
      · apply Int.lt_add_one_iff.1
        refine (Int.lt_zpow_iff_log_lt (b := 2) (by norm_num) hx).1 (hhi.trans_le ?_)
        have hs : m + 1 ≤ 2 ^ (m.log2 + 1) := Nat.lt_log2_self
        have hs' : (m : ℝ) + 1 ≤ 2 ^ (m.log2 + 1) := by exact_mod_cast hs
        rw [Nat.cast_ofNat,
          show (m.log2 : ℤ) + e + 1 = ((m.log2 + 1 : ℕ) : ℤ) + e by push_cast; ring,
          zpow_add₀ two_ne_zero, zpow_natCast]
        exact mul_le_mul_of_nonneg_right hs' hp.le
      · refine (Int.zpow_le_iff_le_log (b := 2) (by norm_num) hx).1 (le_trans ?_ hlo)
        have hs' : (2 : ℝ) ^ m.log2 ≤ m := by exact_mod_cast Nat.log2_self_le h0
        rw [Nat.cast_ofNat, zpow_add₀ two_ne_zero, zpow_natCast]
        exact mul_le_mul_of_nonneg_right hs' hp.le
    rw [hl]

theorem le_of_mantissa_eq_zero {m : ℕ} {e : ℤ} {a : Accuracy} {x : ℝ} (hx : 0 < x)
    (h : Truncates (.ofMantissaAndAccuracy m a) (x / 2 ^ e)) (he : e ≤ exponent x)
    (hm : m = 0) :
    e ≤ -1074 := by
  by_contra hlt
  have hlow := zpow_exponent_le hx (by omega)
  have hhi := h.lt
  rw [mantissa_ofMantissaAndAccuracy, hm, div_lt_iff₀ (by positivity), Nat.cast_zero, zero_add,
    one_mul] at hhi
  have : (2 : ℝ) ^ e ≤ 2 ^ (52 + exponent x) := zpow_le_zpow_right₀ one_le_two (by omega)
  linarith

/-- The mantissa that rounding arrives at before a carry is normalized. -/
theorem roundedMantissa_shiftToTargetExponent {m : ℕ} {e : ℤ} {a : Accuracy} {x : ℝ}
    (hx : 0 < x) (h : Truncates (.ofMantissaAndAccuracy m a) (x / 2 ^ e))
    (he : e ≤ exponent x) :
    ((shiftToTargetExponent .binary64 m e a).1.roundedMantissa : ℤ) =
        halfEven (x / 2 ^ exponent x) ∧
      (shiftToTargetExponent .binary64 m e a).2 = exponent x := by
  have ht := exponent_eq_targetExponent hx h (le_of_mantissa_eq_zero hx h he)
  have hk : e + ((exponent x - e).toNat : ℤ) = exponent x := by omega
  simp only [shiftToTargetExponent, shiftToExponent, ht, hk, and_true]
  have hs := h.shiftRight (exponent x - e).toNat
  rw [div_div, ← zpow_natCast, ← zpow_add₀ two_ne_zero, hk] at hs
  exact hs.roundedMantissa_eq

/-- The rounding of the mantissas of doubles rounds to the nearest number. -/
theorem isRounding_roundWithAccuracy {m : ℕ} {e : ℤ} {a : Accuracy} {x : ℝ} (s : Sign)
    (hx : 0 < x) (h : Truncates (.ofMantissaAndAccuracy m a) (x / 2 ^ e))
    (he : e ≤ exponent x) :
    IsRounding (roundWithAccuracy .binary64 s m e a) (factor s * x) := by
  obtain ⟨hr, hexp⟩ := roundedMantissa_shiftToTargetExponent hx h he
  have hround : round (factor s * x) = factor s * round x := by
    cases s
    · simp only [factor, neg_mul, one_mul, round_neg]
    · simp only [factor, one_mul]
  have hbound := round_le_zpow hx
  have hle := le_exponent x
  have hp : (0 : ℝ) < 2 ^ exponent x := by positivity
  -- From here on only the rounded mantissa `r` counts.
  generalize hfirst : shiftToTargetExponent .binary64 m e a = first at hr hexp
  obtain ⟨em, e₁⟩ := first
  subst hexp
  generalize hrm : em.roundedMantissa = r at hr
  have hval : round x = (r : ℝ) * 2 ^ exponent x := by
    rw [round, ← hr, Int.cast_natCast]
  have hr53 : r ≤ 2 ^ 53 := by
    rw [hval, zpow_add₀ two_ne_zero] at hbound
    have := le_of_mul_le_mul_right hbound hp
    exact_mod_cast this
  unfold roundWithAccuracy
  simp only [hfirst, hrm]
  rcases hr53.lt_or_eq with hlt | rfl
  · simp only [shiftToTargetExponent_of_le hlt hle]
    split_ifs with h0
    · refine ⟨rfl, trivial, ?_⟩
      rw [hround, hval, h0, Nat.cast_zero, zero_mul, mul_zero]
      rfl
    · refine ⟨rfl, ⟨hlt, hle, ?_⟩, ?_⟩
      · rcases hle.lt_or_eq with hgt | heq
        · have hlow := zpow_le_round hx hgt
          rw [hval, zpow_add₀ two_ne_zero] at hlow
          have := le_of_mul_le_mul_right hlow hp
          exact .inl (by exact_mod_cast this)
        · exact .inr heq.symm
      · rw [hround, hval]
        rfl
  · have hne : (2 ^ 52 : ℕ) ≠ 0 := by decide
    simp only [shiftToTargetExponent_carry hle, hne, dite_false]
    refine ⟨rfl, ⟨by decide, by omega, .inl le_rfl⟩, ?_⟩
    rw [hround, hval, unpackedValue, zpow_add_one₀ two_ne_zero]
    push_cast
    ring

theorem mul_zpow_decreaseExponent (m : ℕ) (e t : ℤ) :
    ((decreaseExponent m e t).1 : ℝ) * 2 ^ (decreaseExponent m e t).2 = m * 2 ^ e := by
  simp only [decreaseExponent, Nat.shiftLeft_eq, Nat.cast_mul, Nat.cast_pow, Nat.cast_ofNat]
  rw [← zpow_natCast, mul_assoc, ← zpow_add₀ two_ne_zero, add_sub_cancel]

theorem decreaseExponent_le (m : ℕ) (e t : ℤ) : (decreaseExponent m e t).2 ≤ t := by
  simp only [decreaseExponent]
  omega

theorem decreaseExponent_pos {m : ℕ} (hm : 0 < m) (e t : ℤ) :
    0 < (decreaseExponent m e t).1 := by
  simp only [decreaseExponent, Nat.shiftLeft_eq]
  positivity

theorem isRounding_round (s : Sign) {m : ℕ} (hm : 0 < m) (e : ℤ) :
    IsRounding (UnpackedFloat.round .binary64 s m e) (factor s * (m * 2 ^ e)) := by
  have hx : (0 : ℝ) < m * 2 ^ e := by positivity
  have hself (n : ℕ) (f : ℤ) :
      Truncates (.ofMantissaAndAccuracy n .exact) (n * 2 ^ f / 2 ^ f) := by
    rw [mul_div_cancel_right₀ _ (by positivity)]
    exact truncates_exact n
  have ht := exponent_eq_targetExponent hx (hself m e) (by omega)
  have hv := mul_zpow_decreaseExponent m e (exponent (m * 2 ^ e))
  have hle := decreaseExponent_le m e (exponent (m * 2 ^ e))
  have hpos := decreaseExponent_pos hm e (exponent (m * 2 ^ e))
  change IsRounding (roundWithAccuracy .binary64 s
    (decreaseExponent m e (Format.binary64.targetExponent (totalExponent m e))).1
    (decreaseExponent m e (Format.binary64.targetExponent (totalExponent m e))).2 .exact) _
  rw [ht]
  generalize decreaseExponent m e (exponent (m * 2 ^ e)) = d at hv hle hpos ⊢
  rw [← hv] at hx hle ⊢
  exact isRounding_roundWithAccuracy s hx (hself d.1 d.2) hle

theorem isRounding_normalize (m e : ℤ) (zs : Sign) :
    IsRounding (UnpackedFloat.normalize .binary64 m e zs) (m * 2 ^ e) := by
  unfold UnpackedFloat.normalize
  rcases lt_trichotomy m 0 with h | rfl | h
  · rw [Int.compare_eq_lt.2 h]
    obtain ⟨n, rfl⟩ : ∃ n : ℕ, m = -n := ⟨(-m).toNat, by omega⟩
    have := isRounding_round .negative (m := n) (by omega) e
    simpa only [neg_neg, Int.toNat_natCast, Int.cast_neg, Int.cast_natCast, factor, neg_mul,
      one_mul] using this
  · rw [show compare (0 : ℤ) 0 = .eq from rfl, Int.cast_zero, zero_mul]
    exact ⟨rfl, trivial, round_zero.symm⟩
  · rw [Int.compare_eq_gt.2 h]
    obtain ⟨n, rfl⟩ : ∃ n : ℕ, m = n := ⟨m.toNat, by omega⟩
    have := isRounding_round .positive (m := n) (by omega) e
    simpa only [Int.toNat_natCast, Int.cast_natCast, factor, one_mul] using this

end RateCurve.Double
