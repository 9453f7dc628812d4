import RateCurve.Proofs.Double.Precision
import RateCurve.Proofs.Double.Sign

namespace RateCurve.Double
open Float.Model Float.Model.UnpackedFloat

theorem one_le_abs_sub_add_abs_sub {m n : ℤ} (h : m ≠ n) (x : ℝ) : 1 ≤ |m - x| + |n - x| := by
  have hone : (1 : ℝ) ≤ |(m : ℝ) - n| := by
    exact_mod_cast Int.one_le_abs (sub_ne_zero.2 h)
  have htri := abs_sub_le (m : ℝ) x n
  rw [abs_sub_comm x] at htri
  exact hone.trans htri

theorem abs_halfEven_sub_le_abs_sub (x : ℝ) (n : ℤ) : |halfEven x - x| ≤ |n - x| := by
  rcases eq_or_ne n (halfEven x) with rfl | hne
  · exact le_rfl
  · have hhalf := abs_halfEven_sub_le x
    have hone := one_le_abs_sub_add_abs_sub hne x
    linarith

/-- Another integer is as near only at half way between the two, and there the even one is
taken. -/
theorem even_halfEven {x : ℝ} {n : ℤ} (hne : n ≠ halfEven x) (h : |n - x| = |halfEven x - x|) :
    Even (halfEven x) := by
  have hhalf : 1 / 2 ≤ |halfEven x - x| := by
    have hone := one_le_abs_sub_add_abs_sub hne x
    linarith
  have hx := Int.floor_add_fract x
  have h0 := Int.fract_nonneg x
  have h1 := Int.fract_lt_one x
  have hfract : Int.fract x = 1 / 2 := by
    rcases lt_trichotomy (Int.fract x) (1 / 2) with hlt | heq | hgt
    · rw [halfEven_of_lt hlt, abs_sub_comm, abs_of_nonneg (by linarith)] at hhalf
      linarith
    · exact heq
    · rw [halfEven_of_gt hgt, Int.cast_add, Int.cast_one, abs_of_nonneg (by linarith)] at hhalf
      linarith
  rw [halfEven_of_eq hfract, Int.even_iff]
  omega

theorem abs_intCast_mul_zpow_sub (n e : ℤ) (x : ℝ) :
    |n * 2 ^ e - x| = |n - x / 2 ^ e| * 2 ^ e := by
  have hp : (0 : ℝ) < 2 ^ e := by positivity
  rw [← abs_of_pos hp, ← abs_mul, abs_of_pos hp, sub_mul, div_mul_cancel₀ _ hp.ne']

theorem abs_round_sub_le_of_mul_zpow (x : ℝ) (n : ℤ) :
    |round x - x| ≤ |n * 2 ^ exponent x - x| := by
  rw [round, abs_intCast_mul_zpow_sub, abs_intCast_mul_zpow_sub]
  exact mul_le_mul_of_nonneg_right (abs_halfEven_sub_le_abs_sub _ n) (by positivity)

/-- A number on the grid is a multiple of the spacing around another number, or it is farther
away than the power of two at which that spacing begins. -/
theorem OnGrid.eq_mul_zpow_or_lt_of_pos {x y : ℝ} (hx : 0 < x) (hy : OnGrid y) :
    (∃ n : ℤ, y = n * 2 ^ exponent x) ∨ ∃ n : ℤ, |n * 2 ^ exponent x - x| < |y - x| := by
  obtain ⟨m, e, hm, he, rfl⟩ := hy
  rcases le_or_gt (exponent x) e with hle | hlt
  · obtain ⟨k, rfl⟩ : ∃ k : ℕ, e = exponent x + k := ⟨(e - exponent x).toNat, by omega⟩
    refine .inl ⟨m * 2 ^ k, ?_⟩
    rw [zpow_add₀ two_ne_zero, zpow_natCast]
    push_cast
    ring
  · have hpow : (2 : ℝ) ^ (52 + exponent x) = ((2 ^ 52 : ℤ) : ℝ) * 2 ^ exponent x := by
      rw [zpow_add₀ two_ne_zero]
      norm_num
    have hbegin : (2 : ℝ) ^ (52 + exponent x) ≤ x := zpow_exponent_le hx (by omega)
    have hle : (m : ℝ) * 2 ^ e ≤ 2 ^ (52 + exponent x) :=
      calc
        (m : ℝ) * 2 ^ e ≤ 2 ^ (53 : ℤ) * 2 ^ e :=
          mul_le_mul_of_nonneg_right (by exact_mod_cast (le_abs_self m).trans hm)
            (by positivity)
        _ = 2 ^ (53 + e) := (zpow_add₀ two_ne_zero _ _).symm
        _ ≤ 2 ^ (52 + exponent x) := zpow_le_zpow_right₀ one_le_two (by omega)
    rcases hle.eq_or_lt with heq | hlt'
    · exact .inl ⟨2 ^ 52, heq.trans hpow⟩
    · refine .inr ⟨2 ^ 52, ?_⟩
      rw [← hpow, abs_sub_comm, abs_of_nonneg (by linarith), abs_sub_comm,
        abs_of_pos (by linarith)]
      linarith

theorem OnGrid.eq_mul_zpow_or_lt {y : ℝ} (hy : OnGrid y) (x : ℝ) :
    (∃ n : ℤ, y = n * 2 ^ exponent x) ∨ ∃ n : ℤ, |n * 2 ^ exponent x - x| < |y - x| := by
  rcases lt_trichotomy x 0 with hneg | rfl | hpos
  · rcases hy.neg.eq_mul_zpow_or_lt_of_pos (neg_pos.2 hneg) with ⟨n, hn⟩ | ⟨n, hn⟩
    · rw [exponent_neg] at hn
      exact .inl ⟨-n, by rw [Int.cast_neg, neg_mul, ← hn, neg_neg]⟩
    · rw [exponent_neg, neg_sub_neg, abs_sub_comm x] at hn
      refine .inr ⟨-n, ?_⟩
      rwa [Int.cast_neg, neg_mul, ← neg_add', abs_neg, ← sub_neg_eq_add]
  · rcases eq_or_ne y 0 with rfl | h0
    · exact .inl ⟨0, by rw [Int.cast_zero, zero_mul]⟩
    · refine .inr ⟨0, ?_⟩
      rw [Int.cast_zero, zero_mul, sub_zero, sub_zero, abs_zero]
      exact abs_pos.2 h0
  · exact hy.eq_mul_zpow_or_lt_of_pos hpos

theorem abs_round_sub_le_abs_sub {x y : ℝ} (hy : OnGrid y) : |round x - x| ≤ |y - x| := by
  rcases hy.eq_mul_zpow_or_lt x with ⟨n, rfl⟩ | ⟨n, hlt⟩
  · exact abs_round_sub_le_of_mul_zpow x n
  · exact (abs_round_sub_le_of_mul_zpow x n).trans hlt.le

theorem even_of_abs_sub_eq {x y : ℝ} (hy : OnGrid y) (hne : y ≠ round x)
    (h : |y - x| = |round x - x|) : Even (halfEven (x / 2 ^ exponent x)) := by
  rcases hy.eq_mul_zpow_or_lt x with ⟨n, rfl⟩ | ⟨n, hlt⟩
  · have hp : (0 : ℝ) < 2 ^ exponent x := by positivity
    refine even_halfEven (n := n) (fun hn => hne (by rw [round, hn])) ?_
    rw [round, abs_intCast_mul_zpow_sub, abs_intCast_mul_zpow_sub] at h
    exact mul_right_cancel₀ hp.ne' h
  · rw [h] at hlt
    exact absurd (abs_round_sub_le_of_mul_zpow x n) hlt.not_ge

theorem abs_lt_zpow_exponent (x : ℝ) : |x| < 2 ^ (53 + exponent x) := by
  rcases eq_or_ne x 0 with rfl | h0
  · rw [abs_zero]
    positivity
  · have := lt_zpow_exponent (abs_pos.2 h0)
    rwa [exponent_abs] at this

/-- A number has at most 53 bits above the spacing around it. -/
theorem abs_halfEven_le (x : ℝ) : |halfEven (x / 2 ^ exponent x)| ≤ 2 ^ 53 := by
  have hp : (0 : ℝ) < 2 ^ exponent x := by positivity
  have hlt := abs_lt_zpow_exponent x
  rw [zpow_add₀ two_ne_zero, ← div_lt_iff₀ hp, ← abs_of_pos hp, ← abs_div] at hlt
  obtain ⟨hlo, hhi⟩ := abs_lt.1 hlt
  exact abs_le.2 ⟨le_halfEven (by exact_mod_cast hlo.le),
    halfEven_le (by exact_mod_cast hhi.le)⟩

/-- The double nearest to a real number among the finite ones. Of two that are equally near it
is the one with the even mantissa. -/
structure IsNearestEven (x : Float) (r : ℝ) : Prop where
  isFinite : x.isFinite = true
  abs_sub_le : ∀ y : Float, y.isFinite = true → |value x - r| ≤ |value y - r|
  even : ∀ y : Float, y.isFinite = true → value y ≠ value x → |value y - r| = |value x - r| →
    ∃ m e, parts x = .ok (m, e) ∧ Even m

section

variable {x : Float} {r : ℝ}

/-- An even multiple of a power of two that is a double has an even mantissa. -/
theorem even_parts (h : x.isFinite = true) {n e : ℤ} (hn : Even n) (hle : |n| ≤ 2 ^ 53)
    (he : -1074 ≤ e) (hv : value x = n * 2 ^ e) : ∃ m f, parts x = .ok (m, f) ∧ Even m := by
  obtain ⟨m, f, hp, hm, hbits⟩ := parts_of_isFinite h
  refine ⟨m, f, hp, ?_⟩
  have heq : (m : ℝ) * 2 ^ f = n * 2 ^ e := hm.symm.trans hv
  rcases le_or_gt f e with hfe | hef
  · obtain ⟨k, rfl⟩ : ∃ k : ℕ, e = f + k := ⟨(e - f).toNat, by omega⟩
    have hp : (0 : ℝ) < 2 ^ f := by positivity
    rw [zpow_add₀ two_ne_zero, zpow_natCast, mul_comm ((2 : ℝ) ^ f), ← mul_assoc] at heq
    have hmn : m = n * 2 ^ k := by exact_mod_cast mul_right_cancel₀ hp.ne' heq
    rw [hmn]
    exact hn.mul_right _
  · -- The multiple has one bit more than the mantissa, which is then a power of two.
    obtain ⟨k, rfl⟩ : ∃ k : ℕ, f = e + (k + 1) := ⟨(f - e - 1).toNat, by omega⟩
    have hp : (0 : ℝ) < 2 ^ e := by positivity
    rw [zpow_add₀ two_ne_zero, mul_comm ((2 : ℝ) ^ e), ← mul_assoc] at heq
    have hnm : n = m * 2 ^ (k + 1) := by exact_mod_cast (mul_right_cancel₀ hp.ne' heq).symm
    rcases hbits with rfl | hbits | hbits
    · exact Even.zero
    · have hpos : (0 : ℤ) < 2 ^ (k + 1) := by positivity
      rw [hnm, abs_mul, abs_of_pos hpos, pow_succ, ← mul_assoc] at hle
      have hk : |m| ≤ |m| * 2 ^ k :=
        le_mul_of_one_le_right (abs_nonneg m) (one_le_pow₀ one_le_two)
      have hm52 : |m| = 2 ^ 52 := by omega
      rw [← even_abs, hm52]
      decide
    · omega

theorem NearestTo.isNearestEven (h : NearestTo x r) (hf : x.isFinite = true) :
    IsNearestEven x r := by
  have hv := h.value_eq_round hf
  refine ⟨hf, fun y _ => ?_, fun y _ hne htie => ?_⟩
  · rw [hv]
    exact abs_round_sub_le_abs_sub (onGrid_value y)
  · rw [hv] at hne htie
    exact even_parts hf (even_of_abs_sub_eq (onGrid_value y) hne htie) (abs_halfEven_le r)
      (le_exponent r) hv

theorem NearestTo.isFinite_iff_abs_round_lt (h : NearestTo x r) :
    x.isFinite = true ↔ |round r| < limit := by
  constructor
  · intro hf
    rw [← h.value_eq_round hf]
    exact (isFinite_iff.1 hf).2
  · intro hlt
    obtain ⟨hlo, hhi⟩ := abs_lt.1 hlt
    refine isFinite_iff.2 ⟨h.hasValue, ?_⟩
    rwa [h.value_eq, nearest, min_eq_right hhi.le, max_eq_right hlo.le]

end

/-- A double is what an integer is rounded to. It has the sign of the integer, so that zero is
not negative. -/
structure Rounds (x : Float) (n : ℤ) : Prop extends IsNearestEven x n where
  isNegative_iff : isNegative x = true ↔ n < 0

section

variable {n : ℤ}

theorem value_ofInt_neg (h : n < 0) : value (ofInt n) < 0 := by
  have hle : (n : ℝ) ≤ value (-1.0) := by
    rw [value_neg, value_one]
    exact_mod_cast Int.le_sub_one_iff.2 h
  have := (nearestTo_ofInt n).ge hle
  rw [value_neg, value_one] at this
  linarith

theorem nonneg_ofInt (h : 0 ≤ n) : 0.0 ≤ ofInt n :=
  (nearestTo_ofInt n).nonneg (by exact_mod_cast h)

theorem ofInt_lt_zero_iff : ofInt n < 0.0 ↔ n < 0 := by
  rw [lt_iff, value_zero, and_iff_right (nearestTo_ofInt n).hasValue,
    and_iff_right hasValue_zero]
  refine ⟨fun h => ?_, value_ofInt_neg⟩
  by_contra hn
  exact h.not_ge (value_nonneg (nonneg_ofInt (not_lt.1 hn)))

theorem isNegative_ofInt_iff : isNegative (ofInt n) = true ↔ n < 0 := by
  have hv := (nearestTo_ofInt n).hasValue
  rcases lt_trichotomy n 0 with hneg | rfl | hpos
  · refine iff_of_true ?_ hneg
    by_contra hs
    have hunsigned : Unsigned (ofInt n) := ⟨hv, Bool.of_not_eq_true hs⟩
    exact (value_ofInt_neg hneg).not_ge (value_nonneg hunsigned.nonneg)
  · have hzero : isNegative (ofInt 0) = false := by rfl
    exact iff_of_false (by rw [hzero]; exact Bool.false_ne_true) (lt_irrefl 0)
  · have hunsigned :=
      unsigned_of_pos (pos_iff.2 ⟨hv, one_pos.trans_le (one_le_value_ofInt hpos)⟩)
    exact iff_of_false (by rw [hunsigned.2]; exact Bool.false_ne_true) hpos.not_gt

theorem rounds_ofInt (h : (ofInt n).isFinite = true) : Rounds (ofInt n) n :=
  { (nearestTo_ofInt n).isNearestEven h with isNegative_iff := isNegative_ofInt_iff }

/-- The first integer that is rounded to the limit lies half way between the largest double and
it. -/
theorem limit_le_round_iff : limit ≤ Double.round n ↔ 2 ^ 1024 - 2 ^ 970 ≤ n := by
  rcases lt_or_ge n 0 with hneg | h0
  · have hround : Double.round n ≤ 0 := by
      have : (0 : ℝ) ≤ -n := by exact_mod_cast (neg_pos.2 hneg).le
      have := round_nonneg this
      rw [round_neg] at this
      linarith
    exact iff_of_false (hround.trans_lt limit_pos).not_ge (by omega)
  · have hiff := (nearestTo_ofInt n).isFinite_iff_abs_round_lt
    rw [isFinite_ofInt_iff, abs_of_nonneg h0,
      abs_of_nonneg (round_nonneg (by exact_mod_cast h0))] at hiff
    rw [← not_lt, ← hiff, not_lt]

end

end RateCurve.Double
