import Mathlib

namespace RateCurve.Double

/-- The base of the doubles, as a numeral of the real numbers. -/
instance atLeastTwo_two : Nat.AtLeastTwo 2 :=
  ⟨le_rfl⟩

/-- The integer nearest to a real number, and the even one of two that are equally near. -/
noncomputable def halfEven (x : ℝ) : ℤ :=
  if Int.fract x < 1 / 2 then ⌊x⌋
  else if 1 / 2 < Int.fract x then ⌊x⌋ + 1
  else ⌊x⌋ + ⌊x⌋ % 2

theorem halfEven_of_lt {x : ℝ} (h : Int.fract x < 1 / 2) : halfEven x = ⌊x⌋ :=
  if_pos h

theorem halfEven_of_gt {x : ℝ} (h : 1 / 2 < Int.fract x) : halfEven x = ⌊x⌋ + 1 := by
  rw [halfEven, if_neg (not_lt_of_gt h), if_pos h]

theorem halfEven_of_eq {x : ℝ} (h : Int.fract x = 1 / 2) : halfEven x = ⌊x⌋ + ⌊x⌋ % 2 := by
  rw [halfEven, if_neg (by rw [h]; exact lt_irrefl _), if_neg (by rw [h]; exact lt_irrefl _)]

@[simp]
theorem halfEven_intCast (n : ℤ) : halfEven n = n := by
  rw [halfEven_of_lt (by rw [Int.fract_intCast]; norm_num), Int.floor_intCast]

theorem floor_le_halfEven (x : ℝ) : ⌊x⌋ ≤ halfEven x := by
  unfold halfEven
  split_ifs <;> omega

theorem halfEven_le_floor_add_one (x : ℝ) : halfEven x ≤ ⌊x⌋ + 1 := by
  unfold halfEven
  split_ifs <;> omega

theorem halfEven_mono {x y : ℝ} (h : x ≤ y) : halfEven x ≤ halfEven y := by
  have hx := Int.floor_add_fract x
  have hy := Int.floor_add_fract y
  rcases (Int.floor_mono h).lt_or_eq with hlt | heq
  · exact (halfEven_le_floor_add_one x).trans
      ((Int.add_one_le_iff.2 hlt).trans (floor_le_halfEven y))
  · -- Beside the same integer the fractions are in the order of the numbers.
    have hf : Int.fract x ≤ Int.fract y := by
      rw [heq] at hx
      linarith
    unfold halfEven
    rw [heq]
    split_ifs <;> first | omega | exfalso; linarith

theorem halfEven_neg (x : ℝ) : halfEven (-x) = -halfEven x := by
  by_cases h0 : Int.fract x = 0
  · have hx : x = (⌊x⌋ : ℝ) := by
      have := Int.floor_add_fract x
      linarith
    rw [hx, ← Int.cast_neg, halfEven_intCast, halfEven_intCast]
  · have hf : Int.fract (-x) = 1 - Int.fract x := Int.fract_neg h0
    have hn : ⌊-x⌋ = -⌊x⌋ - 1 := by
      have h₁ := Int.floor_add_fract x
      have h₂ := Int.floor_add_fract (-x)
      have : ((⌊-x⌋ : ℤ) : ℝ) = ((-⌊x⌋ - 1 : ℤ) : ℝ) := by
        push_cast
        linarith
      exact_mod_cast this
    rcases lt_trichotomy (Int.fract x) (1 / 2) with h | h | h
    · rw [halfEven_of_lt h, halfEven_of_gt (by rw [hf]; linarith), hn]
      ring
    · rw [halfEven_of_eq h, halfEven_of_eq (by rw [hf]; linarith), hn]
      omega
    · rw [halfEven_of_gt h, halfEven_of_lt (by rw [hf]; linarith), hn]
      ring

theorem abs_halfEven_sub_le (x : ℝ) : |halfEven x - x| ≤ 1 / 2 := by
  have hx := Int.floor_add_fract x
  have h₀ := Int.fract_nonneg x
  have h₁ := Int.fract_lt_one x
  rw [abs_le]
  rcases lt_trichotomy (Int.fract x) (1 / 2) with h | h | h
  · rw [halfEven_of_lt h]
    constructor <;> linarith
  · rw [halfEven_of_eq h]
    have hm : ⌊x⌋ % 2 = 0 ∨ ⌊x⌋ % 2 = 1 := by omega
    rcases hm with hm | hm <;> rw [hm] <;> push_cast <;> constructor <;> linarith
  · rw [halfEven_of_gt h]
    push_cast
    constructor <;> linarith

theorem le_halfEven {n : ℤ} {x : ℝ} (h : n ≤ x) : n ≤ halfEven x := by
  simpa only [halfEven_intCast] using halfEven_mono h

theorem halfEven_le {n : ℤ} {x : ℝ} (h : x ≤ n) : halfEven x ≤ n := by
  simpa only [halfEven_intCast] using halfEven_mono h

/-- The exponent of the spacing of the doubles around a real number. -/
noncomputable def exponent (x : ℝ) : ℤ :=
  max (Int.log 2 |x| - 52) (-1074)

theorem exponent_neg (x : ℝ) : exponent (-x) = exponent x := by
  rw [exponent, exponent, abs_neg]

@[simp]
theorem exponent_abs (x : ℝ) : exponent |x| = exponent x := by
  rw [exponent, exponent, abs_abs]

theorem le_exponent (x : ℝ) : -1074 ≤ exponent x :=
  le_max_right _ _

theorem exponent_mono {x y : ℝ} (hx : 0 < x) (h : x ≤ y) : exponent x ≤ exponent y := by
  have hy := hx.trans_le h
  rw [exponent, exponent, abs_of_pos hx, abs_of_pos hy]
  exact max_le_max (sub_le_sub_right (Int.log_mono_right hx h) 52) le_rfl

theorem lt_zpow_exponent {x : ℝ} (hx : 0 < x) : x < 2 ^ (53 + exponent x) := by
  have h := Int.lt_zpow_succ_log_self (b := 2) (by norm_num) x
  apply h.trans_le
  rw [Nat.cast_ofNat]
  apply zpow_le_zpow_right₀ one_le_two
  have := le_max_left (Int.log 2 |x| - 52) (-1074)
  rw [abs_of_pos hx] at this
  rw [exponent, abs_of_pos hx]
  omega

theorem zpow_exponent_le {x : ℝ} (hx : 0 < x) (h : -1074 < exponent x) :
    2 ^ (52 + exponent x) ≤ x := by
  have hl := Int.zpow_log_le_self (b := 2) (by norm_num) hx
  rw [Nat.cast_ofNat] at hl
  refine le_trans (zpow_le_zpow_right₀ one_le_two ?_) hl
  rw [exponent, abs_of_pos hx] at h ⊢
  omega

/-- The number nearest to a real number among those that have 53 bits and the exponents of
doubles, with no bound on large exponents. -/
noncomputable def round (x : ℝ) : ℝ :=
  halfEven (x / 2 ^ exponent x) * 2 ^ exponent x

@[simp]
theorem round_zero : round 0 = 0 := by
  have h : halfEven 0 = 0 := by exact_mod_cast halfEven_intCast 0
  rw [round, zero_div, h, Int.cast_zero, zero_mul]

theorem round_neg (x : ℝ) : round (-x) = -round x := by
  rw [round, round, exponent_neg, neg_div, halfEven_neg, Int.cast_neg, neg_mul]

theorem round_nonneg {x : ℝ} (hx : 0 ≤ x) : 0 ≤ round x := by
  have h : (0 : ℤ) ≤ halfEven (x / 2 ^ exponent x) :=
    le_halfEven (by rw [Int.cast_zero]; positivity)
  have h' : (0 : ℝ) ≤ halfEven (x / 2 ^ exponent x) := by exact_mod_cast h
  rw [round]
  positivity

theorem round_le_zpow {x : ℝ} (hx : 0 < x) : round x ≤ 2 ^ (53 + exponent x) := by
  have hp : (0 : ℝ) < 2 ^ exponent x := by positivity
  have h : halfEven (x / 2 ^ exponent x) ≤ 2 ^ 53 := by
    apply halfEven_le
    rw [div_le_iff₀ hp]
    have := (lt_zpow_exponent hx).le
    rw [zpow_add₀ two_ne_zero] at this
    exact_mod_cast this
  have h' : ((halfEven (x / 2 ^ exponent x) : ℤ) : ℝ) ≤ 2 ^ 53 := by exact_mod_cast h
  rw [round, zpow_add₀ two_ne_zero]
  exact mul_le_mul_of_nonneg_right (by exact_mod_cast h') hp.le

theorem zpow_le_round {x : ℝ} (hx : 0 < x) (h : -1074 < exponent x) :
    2 ^ (52 + exponent x) ≤ round x := by
  have hp : (0 : ℝ) < 2 ^ exponent x := by positivity
  have h : (2 ^ 52 : ℤ) ≤ halfEven (x / 2 ^ exponent x) := by
    apply le_halfEven
    rw [le_div_iff₀ hp]
    have := zpow_exponent_le hx h
    rw [zpow_add₀ two_ne_zero] at this
    exact_mod_cast this
  have h' : (2 ^ 52 : ℝ) ≤ (halfEven (x / 2 ^ exponent x) : ℤ) := by exact_mod_cast h
  rw [round, zpow_add₀ two_ne_zero]
  exact mul_le_mul_of_nonneg_right (by exact_mod_cast h') hp.le

theorem round_mono_of_pos {x y : ℝ} (hx : 0 < x) (h : x ≤ y) : round x ≤ round y := by
  rcases (exponent_mono hx h).lt_or_eq with hlt | heq
  · -- There is a power of two between numbers of different exponents.
    have hy := zpow_le_round (hx.trans_le h) ((le_exponent x).trans_lt hlt)
    refine (round_le_zpow hx).trans (le_trans (zpow_le_zpow_right₀ one_le_two ?_) hy)
    omega
  · have hp : (0 : ℝ) < 2 ^ exponent y := by positivity
    have hm := halfEven_mono (div_le_div_of_nonneg_right h hp.le)
    rw [round, round, heq]
    exact mul_le_mul_of_nonneg_right (by exact_mod_cast hm) hp.le

theorem round_mono {x y : ℝ} (h : x ≤ y) : round x ≤ round y := by
  rcases lt_trichotomy x 0 with hx | rfl | hx
  · rcases lt_or_ge y 0 with hy | hy
    · have := round_mono_of_pos (neg_pos.2 hy) (neg_le_neg h)
      rw [round_neg, round_neg] at this
      exact neg_le_neg_iff.1 this
    · have := round_nonneg (neg_pos.2 hx).le
      rw [round_neg] at this
      exact (neg_nonneg.1 this).trans (round_nonneg hy)
  · rw [round_zero]
    exact round_nonneg h
  · exact round_mono_of_pos hx h

theorem abs_round_sub_le (x : ℝ) : |round x - x| ≤ 2 ^ exponent x / 2 := by
  have hp : (0 : ℝ) < 2 ^ exponent x := by positivity
  have h := abs_halfEven_sub_le (x / 2 ^ exponent x)
  have he :
      round x - x = (halfEven (x / 2 ^ exponent x) - x / 2 ^ exponent x) * 2 ^ exponent x := by
    rw [round, sub_mul, div_mul_cancel₀ _ hp.ne']
  rw [he, abs_mul, abs_of_pos hp]
  linarith [mul_le_mul_of_nonneg_right h hp.le]

/-- The numbers that have 53 bits and an exponent of doubles. -/
def OnGrid (x : ℝ) : Prop :=
  ∃ m e : ℤ, |m| ≤ 2 ^ 53 ∧ -1074 ≤ e ∧ x = m * 2 ^ e

theorem OnGrid.neg {x : ℝ} (h : OnGrid x) : OnGrid (-x) := by
  obtain ⟨m, e, hm, he, rfl⟩ := h
  exact ⟨-m, e, by rwa [abs_neg], he, by push_cast; ring⟩

theorem OnGrid.intCast {n : ℤ} (h : |n| ≤ 2 ^ 53) : OnGrid n :=
  ⟨n, 0, h, by norm_num, by rw [zpow_zero, mul_one]⟩

theorem OnGrid.natCast_mul_zpow {m : ℕ} {e : ℤ} (hm : m ≤ 2 ^ 53) (he : -1074 ≤ e) :
    OnGrid (m * 2 ^ e) :=
  ⟨m, e, by rw [Nat.abs_cast]; exact_mod_cast hm, he, by rw [Int.cast_natCast]⟩

theorem OnGrid.zpow {e : ℤ} (h : -1074 ≤ e) : OnGrid (2 ^ e) :=
  ⟨1, e, by norm_num, h, by rw [Int.cast_one, one_mul]⟩

theorem round_intCast_mul_zpow {m e : ℤ} (hm : |m| < 2 ^ 53) (he : -1074 ≤ e) :
    round (m * 2 ^ e) = m * 2 ^ e := by
  rcases eq_or_ne m 0 with rfl | h0
  · rw [Int.cast_zero, zero_mul, round_zero]
  have hp : (0 : ℝ) < 2 ^ e := by positivity
  have hpos : 0 < |(m : ℝ) * 2 ^ e| := by positivity
  have hlt : |(m : ℝ) * 2 ^ e| < 2 ^ (53 + e) := by
    rw [abs_mul, abs_of_pos hp, zpow_add₀ two_ne_zero]
    exact mul_lt_mul_of_pos_right (by exact_mod_cast hm) hp
  have hexp : exponent ((m : ℝ) * 2 ^ e) ≤ e := by
    have := (Int.lt_zpow_iff_log_lt (b := 2) (by norm_num) hpos).1 (by exact_mod_cast hlt)
    rw [exponent]
    omega
  -- The number is a multiple of the spacing around it.
  obtain ⟨k, hk⟩ : ∃ k : ℕ, e = exponent ((m : ℝ) * 2 ^ e) + k :=
    ⟨(e - exponent ((m : ℝ) * 2 ^ e)).toNat, by omega⟩
  have hq : (m : ℝ) * 2 ^ e / 2 ^ exponent ((m : ℝ) * 2 ^ e) = ((m * 2 ^ k : ℤ) : ℝ) := by
    rw [div_eq_iff (by positivity)]
    push_cast
    rw [mul_assoc, ← zpow_natCast, ← zpow_add₀ two_ne_zero, add_comm, ← hk]
  rw [round, hq, halfEven_intCast, ← hq, div_mul_cancel₀ _ (by positivity)]

theorem OnGrid.round_eq {x : ℝ} (h : OnGrid x) : round x = x := by
  obtain ⟨m, e, hm, he, rfl⟩ := h
  rcases hm.lt_or_eq with hm | hm
  · exact round_intCast_mul_zpow hm he
  · -- The mantissa `2 ^ 53` has one bit too many and is even.
    have hs : m = 2 ^ 53 ∨ m = -2 ^ 53 := (abs_eq (by norm_num)).1 hm
    have heq : (m : ℝ) * 2 ^ e = ((m / 2 : ℤ) : ℝ) * 2 ^ (e + 1) := by
      rw [zpow_add_one₀ two_ne_zero]
      rcases hs with rfl | rfl <;> norm_num <;> ring
    rw [heq]
    refine round_intCast_mul_zpow ?_ (by omega)
    rcases hs with rfl | rfl <;> norm_num

/-- The least power of two beyond the doubles. -/
noncomputable def limit : ℝ :=
  2 ^ (1024 : ℤ)

theorem limit_pos : 0 < limit := by
  unfold limit
  positivity

theorem abs_limit_le : |limit| ≤ limit :=
  (abs_of_pos limit_pos).le

theorem abs_zpow_le_limit {e : ℤ} (h : e ≤ 1024) : |(2 : ℝ) ^ e| ≤ limit := by
  rw [abs_of_pos (by positivity)]
  exact zpow_le_zpow_right₀ one_le_two h

theorem one_lt_limit : 1 < limit :=
  one_lt_zpow₀ one_lt_two (by norm_num)

theorem onGrid_limit : OnGrid limit :=
  OnGrid.zpow (by norm_num)

/-- The number that the double nearest to a real number stands for. -/
noncomputable def nearest (x : ℝ) : ℝ :=
  max (-limit) (min limit (round x))

theorem nearest_mono {x y : ℝ} (h : x ≤ y) : nearest x ≤ nearest y :=
  max_le_max le_rfl (min_le_min le_rfl (round_mono h))

theorem abs_nearest_le (x : ℝ) : |nearest x| ≤ limit := by
  have := limit_pos
  rw [abs_le]
  exact ⟨le_max_left _ _, max_le (by linarith) (min_le_left _ _)⟩

theorem OnGrid.nearest_eq {x : ℝ} (h : OnGrid x) (hx : |x| ≤ limit) : nearest x = x := by
  obtain ⟨hlo, hhi⟩ := abs_le.1 hx
  rw [nearest, h.round_eq, min_eq_right hhi, max_eq_right hlo]

@[simp]
theorem nearest_zero : nearest 0 = 0 := by
  have := limit_pos.le
  rw [nearest, round_zero, min_eq_right this, max_eq_right (by linarith)]

theorem nearest_nonneg {x : ℝ} (hx : 0 ≤ x) : 0 ≤ nearest x := by
  simpa only [nearest_zero] using nearest_mono hx

theorem nearest_neg (x : ℝ) : nearest (-x) = -nearest x := by
  have hle : -limit ≤ limit := by linarith [limit_pos]
  rw [nearest, nearest, round_neg, max_min_distrib_left, max_eq_right hle,
    ← min_neg_neg, neg_neg, ← max_neg_neg]

theorem abs_nearest (x : ℝ) : |nearest x| = nearest |x| := by
  rcases le_total 0 x with hx | hx
  · rw [abs_of_nonneg (nearest_nonneg hx), abs_of_nonneg hx]
  · have h0 := nearest_nonneg (neg_nonneg.2 hx)
    rw [nearest_neg] at h0
    rw [abs_of_nonpos (neg_nonneg.1 h0), abs_of_nonpos hx, nearest_neg]

/-- A number on the grid keeps its place beside what is rounded. -/
theorem OnGrid.le_nearest {x y : ℝ} (h : OnGrid x) (hx : |x| ≤ limit) (hxy : x ≤ y) :
    x ≤ nearest y := by
  simpa only [h.nearest_eq hx] using nearest_mono hxy

theorem OnGrid.nearest_le {x y : ℝ} (h : OnGrid y) (hy : |y| ≤ limit) (hxy : x ≤ y) :
    nearest x ≤ y := by
  simpa only [h.nearest_eq hy] using nearest_mono hxy

end RateCurve.Double
