import RateCurve.Proofs.Double.Nearest

namespace RateCurve.Double
open Float.Model Float.Model.UnpackedFloat

@[simp]
theorem value_zero : value 0.0 = 0 := by
  rw [value, show (0.0 : Float).toModel.unpack = .zero .positive by rfl, unpackedValue]

theorem hasValue_zero : HasValue 0.0 := by
  rw [HasValue, show (0.0 : Float).toModel.unpack = .zero .positive by rfl]
  intro h
  cases h

@[simp]
theorem value_one : value 1.0 = 1 := by
  rw [value,
    show (1.0 : Float).toModel.unpack = .finite .positive (2 ^ 52) (-52) (by decide) by rfl,
    unpackedValue, factor]
  norm_num

theorem isFinite_one : (1.0 : Float).isFinite = true := by
  rfl

section

variable {x y : Float} {r s : ℝ}

theorem nonneg_iff : 0.0 ≤ x ↔ HasValue x ∧ 0 ≤ value x := by
  rw [le_iff, value_zero, and_iff_right hasValue_zero]

theorem pos_iff : 0.0 < x ↔ HasValue x ∧ 0 < value x := by
  rw [lt_iff, value_zero, and_iff_right hasValue_zero]

protected theorem le_refl (h : HasValue x) : x ≤ x :=
  le_iff.2 ⟨h, h, le_rfl⟩

protected theorem le_trans {z : Float} (hxy : x ≤ y) (hyz : y ≤ z) : x ≤ z := by
  obtain ⟨hx, -, hxy⟩ := le_iff.1 hxy
  obtain ⟨-, hz, hyz⟩ := le_iff.1 hyz
  exact le_iff.2 ⟨hx, hz, hxy.trans hyz⟩

protected theorem le_of_lt (h : x < y) : x ≤ y := by
  obtain ⟨hx, hy, hlt⟩ := lt_iff.1 h
  exact le_iff.2 ⟨hx, hy, hlt.le⟩

protected theorem le_of_not_lt (hx : HasValue x) (hy : HasValue y) (h : ¬x < y) : y ≤ x :=
  le_iff.2 ⟨hy, hx, not_lt.1 fun hlt => h (lt_iff.2 ⟨hx, hy, hlt⟩)⟩

theorem isFinite_zero : (0.0 : Float).isFinite = true := by
  rfl

theorem zero_nonneg : (0.0 : Float) ≤ 0.0 :=
  nonneg_iff.2 ⟨hasValue_zero, value_zero.ge⟩

theorem one_nonneg : (0.0 : Float) ≤ 1.0 :=
  nonneg_iff.2 ⟨hasValue_of_isFinite isFinite_one, value_one.symm ▸ zero_le_one⟩

theorem beq_zero_iff : (x == 0.0) = true ↔ HasValue x ∧ value x = 0 := by
  rw [beq_iff, value_zero, and_iff_right hasValue_zero]

theorem hasValue_of_nonneg (h : 0.0 ≤ x) : HasValue x :=
  (nonneg_iff.1 h).1

theorem value_nonneg (h : 0.0 ≤ x) : 0 ≤ value x :=
  (nonneg_iff.1 h).2

theorem nonneg_of_pos (h : 0.0 < x) : 0.0 ≤ x :=
  nonneg_iff.2 ⟨(pos_iff.1 h).1, (pos_iff.1 h).2.le⟩

theorem not_isFinite_iff (h : 0.0 ≤ x) : x.isFinite = false ↔ value x = limit := by
  refine ⟨fun hf => ?_, fun hv => ?_⟩
  · have := unpack_eq_infinity_of_nonneg (hasValue_of_nonneg h) hf (value_nonneg h)
    rw [value_of_infinity this, factor, one_mul]
  · by_contra hf
    have := (isFinite_iff.1 (Bool.of_not_eq_false hf)).2
    rw [hv, abs_of_pos limit_pos] at this
    exact lt_irrefl _ this

theorem value_of_not_isFinite (hx : HasValue x) (hf : x.isFinite = false) :
    value x = limit ∨ value x = -limit := by
  obtain ⟨s, hs⟩ := unpack_eq_infinity hx hf
  rw [value_of_infinity hs]
  cases s
  · exact .inr (neg_one_mul _)
  · exact .inl (one_mul _)

theorem value_ne_zero_of_not_isFinite (hx : HasValue x) (hf : x.isFinite = false) :
    value x ≠ 0 := by
  have := limit_pos
  rcases value_of_not_isFinite hx hf with h | h <;> rw [h]
  · exact this.ne'
  · exact (neg_lt_zero.2 this).ne

theorem NearestTo.onGrid_le (h : NearestTo x r) {b : ℝ} (hb : OnGrid b) (hbl : |b| ≤ limit)
    (hbr : b ≤ r) : b ≤ value x := by
  rw [h.value_eq]
  exact hb.le_nearest hbl hbr

theorem NearestTo.le_onGrid (h : NearestTo x r) {b : ℝ} (hb : OnGrid b) (hbl : |b| ≤ limit)
    (hrb : r ≤ b) : value x ≤ b := by
  rw [h.value_eq]
  exact hb.nearest_le hbl hrb

theorem NearestTo.le (h : NearestTo x r) (hy : value y ≤ r) : value y ≤ value x :=
  h.onGrid_le (onGrid_value y) (abs_value_le y) hy

theorem NearestTo.ge (h : NearestTo x r) (hy : r ≤ value y) : value x ≤ value y :=
  h.le_onGrid (onGrid_value y) (abs_value_le y) hy

theorem NearestTo.mono (hx : NearestTo x r) (hy : NearestTo y s) (h : r ≤ s) :
    value x ≤ value y := by
  rw [hx.value_eq, hy.value_eq]
  exact nearest_mono h

theorem NearestTo.abs_mono (hx : NearestTo x r) (hy : NearestTo y s) (h : |r| ≤ |s|) :
    |value x| ≤ |value y| := by
  rw [hx.value_eq, hy.value_eq, abs_nearest, abs_nearest]
  exact nearest_mono h

theorem NearestTo.nonneg (h : NearestTo x r) (hr : 0 ≤ r) : 0.0 ≤ x := by
  refine nonneg_iff.2 ⟨h.hasValue, ?_⟩
  rw [h.value_eq]
  exact nearest_nonneg hr

theorem NearestTo.isFinite (h : NearestTo x r) {a b : Float} (ha : a.isFinite = true)
    (hb : b.isFinite = true) (har : value a ≤ r) (hrb : r ≤ value b) : x.isFinite = true := by
  have hlo := h.le har
  have hhi := h.ge hrb
  have ha' := (abs_lt.1 (isFinite_iff.1 ha).2).1
  have hb' := (abs_lt.1 (isFinite_iff.1 hb).2).2
  exact isFinite_iff.2 ⟨h.hasValue, abs_lt.2 ⟨ha'.trans_le hlo, hhi.trans_lt hb'⟩⟩

theorem NearestTo.isFinite_of_abs_le (h : NearestTo x r) {b : ℝ} (hb : OnGrid b)
    (hbl : b < limit) (hr : |r| ≤ b) : x.isFinite = true := by
  have hb0 : |b| ≤ limit := by
    rw [abs_of_nonneg ((abs_nonneg r).trans hr)]
    exact hbl.le
  obtain ⟨hlo, hhi⟩ := abs_le.1 hr
  exact isFinite_iff.2 ⟨h.hasValue, lt_of_le_of_lt
    (abs_le.2 ⟨h.onGrid_le hb.neg (by rwa [abs_neg]) hlo, h.le_onGrid hb hb0 hhi⟩) hbl⟩

theorem NearestTo.bounds (h : NearestTo x r) {b : ℝ} (hb : OnGrid b) (hbl : b < limit)
    (h0 : 0 ≤ r) (hrb : r ≤ b) : x.isFinite = true ∧ 0.0 ≤ x ∧ value x ≤ b := by
  have hb0 : |b| ≤ limit := by
    rw [abs_of_nonneg (h0.trans hrb)]
    exact hbl.le
  exact ⟨h.isFinite_of_abs_le hb hbl (by rwa [abs_of_nonneg h0]), h.nonneg h0,
    h.le_onGrid hb hb0 hrb⟩

theorem NearestTo.bounds_zpow (h : NearestTo x r) (e : ℤ) (he : -1074 ≤ e) (he' : e < 1024)
    (h0 : 0 ≤ r) (hr : r ≤ 2 ^ e) : x.isFinite = true ∧ 0.0 ≤ x ∧ value x ≤ 2 ^ e :=
  h.bounds (.zpow he) (zpow_lt_zpow_right₀ one_lt_two he') h0 hr

theorem neg_mul_self_le (hx : x.isFinite = true) (hy : y.isFinite = true)
    (h : |value x| ≤ |value y|) :
    -y * y ≤ -x * x := by
  have hx' := nearestTo_mul ((isFinite_neg x).trans hx) hx
  have hy' := nearestTo_mul ((isFinite_neg y).trans hy) hy
  refine le_iff.2 ⟨hy'.hasValue, hx'.hasValue, hy'.mono hx' ?_⟩
  rw [value_neg, value_neg, neg_mul, neg_mul, neg_le_neg_iff]
  exact abs_le_iff_mul_self_le.1 h

theorem abs_value_le_of_isFinite (h : x.isFinite = true) :
    |value x| ≤ limit - 2 ^ (971 : ℤ) := by
  have hs := storable_unpack x
  change x.toModel.unpack.isFinite = true at h
  unfold value
  cases hu : x.toModel.unpack with
  | notANumber | infinity s => rw [hu] at h; cases h
  | zero s =>
    rw [unpackedValue, abs_zero, sub_nonneg]
    exact zpow_le_zpow_right₀ one_le_two (by norm_num)
  | finite s m e hm =>
    rw [hu] at hs
    have hp : (0 : ℝ) ≤ m * 2 ^ e := by positivity
    have hm' : (m : ℝ) ≤ 2 ^ (53 : ℤ) - 1 := by
      have : m + 1 ≤ 2 ^ 53 := hs.1
      have : (m : ℝ) + 1 ≤ 2 ^ (53 : ℤ) := by exact_mod_cast this
      linarith
    rw [unpackedValue, abs_factor_mul, abs_of_nonneg hp]
    calc
      (m : ℝ) * 2 ^ e ≤ (2 ^ (53 : ℤ) - 1) * 2 ^ (971 : ℤ) :=
        mul_le_mul hm' (zpow_le_zpow_right₀ one_le_two hs.2.2.1) (by positivity)
          ((Nat.cast_nonneg m).trans hm')
      _ = limit - 2 ^ (971 : ℤ) := by
        rw [sub_mul, one_mul, ← zpow_add₀ two_ne_zero]
        rfl

/-- What is nearer to the largest double than to the limit is rounded to a finite double. -/
theorem NearestTo.isFinite_of_abs_lt (h : NearestTo x r) (hr : |r| < limit - 2 ^ (970 : ℤ)) :
    x.isFinite = true := by
  have hround : |round r| < limit := by
    rcases eq_or_ne r 0 with rfl | h0
    · rw [round_zero, abs_zero]
      exact limit_pos
    · have hexp : exponent r ≤ 971 := by
        have hlt : |r| < 2 ^ (1024 : ℤ) := hr.trans_le (sub_le_self _ (by positivity))
        have : Int.log 2 |r| < 1024 :=
          (Int.lt_zpow_iff_log_lt (by norm_num) (abs_pos.2 h0)).1 (by rwa [Nat.cast_ofNat])
        rw [exponent]
        omega
      have herr : |round r - r| ≤ 2 ^ (970 : ℤ) :=
        calc
          |round r - r| ≤ 2 ^ exponent r / 2 := abs_round_sub_le r
          _ ≤ 2 ^ (971 : ℤ) / 2 :=
            div_le_div_of_nonneg_right (zpow_le_zpow_right₀ one_le_two hexp) zero_le_two
          _ = 2 ^ (970 : ℤ) := by
            rw [show (971 : ℤ) = 970 + 1 from rfl, zpow_add_one₀ two_ne_zero,
              mul_div_cancel_right₀ _ two_ne_zero]
      have := abs_sub_abs_le_abs_sub (round r) r
      linarith
  obtain ⟨hlo, hhi⟩ := abs_lt.1 hround
  refine isFinite_iff.2 ⟨h.hasValue, ?_⟩
  rw [h.value_eq, nearest, min_eq_right hhi.le, max_eq_right hlo.le]
  exact hround

/-- Half way between the largest double and the limit a number is rounded to the limit, which is
even. -/
theorem round_limit_sub : round (limit - 2 ^ (970 : ℤ)) = limit := by
  have hp : (0 : ℝ) < 2 ^ (970 : ℤ) := by positivity
  have hge : (2 : ℝ) ^ (1023 : ℤ) ≤ limit - 2 ^ (970 : ℤ) := by
    rw [limit, show (1024 : ℤ) = 1023 + 1 from rfl, zpow_add_one₀ two_ne_zero, mul_two,
      le_sub_iff_add_le]
    exact add_le_add le_rfl (zpow_le_zpow_right₀ one_le_two (by norm_num))
  have hpos : 0 < limit - 2 ^ (970 : ℤ) := lt_of_lt_of_le (by positivity) hge
  have hexp : exponent (limit - 2 ^ (970 : ℤ)) = 971 := by
    have hlo : 1023 ≤ Int.log 2 (limit - 2 ^ (970 : ℤ)) :=
      (Int.zpow_le_iff_le_log (b := 2) (by norm_num) hpos).1 (by rwa [Nat.cast_ofNat])
    have hhi : Int.log 2 (limit - 2 ^ (970 : ℤ)) < 1024 :=
      (Int.lt_zpow_iff_log_lt (b := 2) (by norm_num) hpos).1 (by
        rw [Nat.cast_ofNat]
        exact sub_lt_self _ hp)
    rw [exponent, abs_of_pos hpos]
    omega
  have hdiv : (limit - 2 ^ (970 : ℤ)) / 2 ^ (971 : ℤ) = ((2 ^ 53 - 1 : ℤ) : ℝ) + 1 / 2 := by
    rw [limit, sub_div, ← zpow_sub₀ two_ne_zero, ← zpow_sub₀ two_ne_zero]
    norm_num
  have hfract : Int.fract (((2 ^ 53 - 1 : ℤ) : ℝ) + 1 / 2) = 1 / 2 := by
    rw [Int.fract_intCast_add]
    exact Int.fract_eq_self.2 ⟨by norm_num, by norm_num⟩
  have hfloor : ⌊((2 ^ 53 - 1 : ℤ) : ℝ) + 1 / 2⌋ = 2 ^ 53 - 1 := by
    rw [Int.floor_intCast_add]
    norm_num
  rw [round, hexp, hdiv, halfEven_of_eq hfract, hfloor, limit,
    show (1024 : ℤ) = 53 + 971 from rfl, zpow_add₀ two_ne_zero]
  norm_num

theorem NearestTo.isFinite_iff_abs_lt (h : NearestTo x r) :
    x.isFinite = true ↔ |r| < limit - 2 ^ (970 : ℤ) := by
  refine ⟨fun hf => ?_, h.isFinite_of_abs_lt⟩
  by_contra hge
  have hle := nearest_mono (not_lt.1 hge)
  have hlt := (isFinite_iff.1 hf).2
  rw [h.value_eq, abs_nearest] at hlt
  rw [nearest, round_limit_sub, min_self, max_eq_right (by linarith [limit_pos])] at hle
  exact hlt.not_ge hle

theorem zpow_le_value (h : 0.0 < x) : 2 ^ (-1074 : ℤ) ≤ value x := by
  obtain ⟨m, e, -, he, hv⟩ := onGrid_value x
  have hpos := (pos_iff.1 h).2
  have hp : (0 : ℝ) < 2 ^ e := by positivity
  rw [hv] at hpos ⊢
  have hm : 1 ≤ m := by exact_mod_cast (pos_iff_pos_of_mul_pos hpos).2 hp
  calc
    (2 : ℝ) ^ (-1074 : ℤ) ≤ 2 ^ e := zpow_le_zpow_right₀ one_le_two he
    _ = (1 : ℤ) * 2 ^ e := by rw [Int.cast_one, one_mul]
    _ ≤ m * 2 ^ e := mul_le_mul_of_nonneg_right (by exact_mod_cast hm) hp.le

theorem nearestTo_of_limit_le (hx : x.toModel.unpack = .infinity .positive) (h : limit ≤ r) :
    NearestTo x r := by
  refine ⟨hasValue_of_infinity hx, ?_⟩
  have := onGrid_limit.le_nearest abs_limit_le h
  rw [value_of_infinity hx, factor, one_mul]
  exact le_antisymm this (abs_le.1 (abs_nearest_le r)).2

theorem nearestTo_add_of_nonneg (hx : 0.0 ≤ x) (hy : 0.0 ≤ y) :
    NearestTo (x + y) (value x + value y) := by
  have hx0 := value_nonneg hx
  have hy0 := value_nonneg hy
  have hinf {z : Float} (hz : 0.0 ≤ z) (hf : ¬z.isFinite = true) :
      z.toModel.unpack = .infinity .positive ∧ value z = limit :=
    ⟨unpack_eq_infinity_of_nonneg (hasValue_of_nonneg hz) (Bool.of_not_eq_true hf)
        (value_nonneg hz),
      (not_isFinite_iff hz).1 (Bool.of_not_eq_true hf)⟩
  by_cases hxf : x.isFinite = true
  · by_cases hyf : y.isFinite = true
    · exact nearestTo_add hxf hyf
    · obtain ⟨hyi, hyl⟩ := hinf hy hyf
      exact nearestTo_of_limit_le (unpack_infinity_add hxf hyi) (by linarith)
  · obtain ⟨hxi, hxl⟩ := hinf hx hxf
    refine nearestTo_of_limit_le (unpack_add_of_infinity hxi ?_) (by linarith)
    by_cases hyf : y.isFinite = true
    · exact .inl hyf
    · exact .inr (hinf hy hyf).1

theorem nonneg_add (hx : 0.0 ≤ x) (hy : 0.0 ≤ y) : 0.0 ≤ x + y :=
  (nearestTo_add_of_nonneg hx hy).nonneg (by linarith [value_nonneg hx, value_nonneg hy])

theorem value_add_eq_zero_iff (hx : 0.0 ≤ x) (hy : 0.0 ≤ y) :
    value (x + y) = 0 ↔ value x = 0 ∧ value y = 0 := by
  have h := nearestTo_add_of_nonneg hx hy
  have hx0 := value_nonneg hx
  have hy0 := value_nonneg hy
  constructor
  · intro h0
    have h₁ := h.le (y := x) (by linarith)
    have h₂ := h.le (y := y) (by linarith)
    exact ⟨by linarith, by linarith⟩
  · rintro ⟨h₁, h₂⟩
    rw [h.value_eq, h₁, h₂, add_zero, nearest_zero]

theorem hasValue_sub (hx : HasValue x) (hy : y.isFinite = true) : HasValue (x - y) := by
  by_cases hf : x.isFinite = true
  · exact (nearestTo_sub hf hy).hasValue
  · obtain ⟨s, hs⟩ := unpack_eq_infinity hx (Bool.of_not_eq_true hf)
    exact hasValue_of_infinity (s := s) (unpack_sub_of_infinity hs hy)

theorem hasValue_finite_sub (hx : x.isFinite = true) (hy : HasValue y) : HasValue (x - y) := by
  by_cases hf : y.isFinite = true
  · exact (nearestTo_sub hx hf).hasValue
  · obtain ⟨s, hs⟩ := unpack_eq_infinity hy (Bool.of_not_eq_true hf)
    exact hasValue_of_infinity (unpack_infinity_sub hx hs)

theorem hasValue_of_sub (h : HasValue (x - y)) : HasValue y := by
  have hmodel : (x - y).toModel = .pack (.sub .binary64 x.toModel.unpack y.toModel.unpack) :=
    rfl
  intro hy
  apply h
  rw [hmodel, hy]
  cases x.toModel.unpack <;> exact unpack_pack (u := .notANumber) trivial

theorem not_hasValue_infinity_sub {s : Sign} (hx : x.toModel.unpack = .infinity s)
    (hy : y.toModel.unpack = .infinity s) : ¬HasValue (x - y) := by
  have hmodel : (x - y).toModel = .pack (.sub .binary64 x.toModel.unpack y.toModel.unpack) :=
    rfl
  rw [HasValue, hmodel, hx, hy, not_not]
  cases s <;> exact unpack_pack (u := .notANumber) trivial

theorem isFinite_unpackedSub {u v : UnpackedFloat}
    (h : ¬(u.isFinite = true ∧ v.isFinite = true)) :
    (UnpackedFloat.sub .binary64 u v).isFinite = false := by
  rcases u with s | _ | s | ⟨s, m, e, hm⟩ <;> rcases v with t | _ | t | ⟨t, n, f, hn⟩
  case infinity.infinity => cases s <;> cases t <;> rfl
  case zero.zero | zero.finite | finite.zero | finite.finite => exact absurd ⟨rfl, rfl⟩ h
  all_goals rfl

theorem isFinite_of_sub (h : (x - y).isFinite = true) :
    x.isFinite = true ∧ y.isFinite = true := by
  have hmodel : (x - y).toModel = .pack (.sub .binary64 x.toModel.unpack y.toModel.unpack) :=
    rfl
  by_contra hn
  have hsub := isFinite_unpackedSub hn
  change (x - y).toModel.unpack.isFinite = true at h
  rw [hmodel] at h
  revert h
  cases hw : UnpackedFloat.sub .binary64 x.toModel.unpack y.toModel.unpack with
  | notANumber =>
    rw [unpack_pack (u := .notANumber) trivial]
    exact Bool.false_ne_true
  | infinity s =>
    rw [unpack_pack_infinity]
    exact Bool.false_ne_true
  | zero s | finite s m e hm => rw [hw] at hsub; cases hsub

theorem hasValue_of_mul (h : HasValue (x * y)) : HasValue x := by
  have hmodel : (x * y).toModel = .pack (.mul .binary64 x.toModel.unpack y.toModel.unpack) :=
    rfl
  intro hx
  apply h
  rw [hmodel, hx]
  exact unpack_pack (u := .notANumber) trivial

theorem sub_mono_left {z : Float} (hx : x.isFinite = true) (hy : y.isFinite = true) (h : x ≤ y)
    (hz : HasValue z) : x - z ≤ y - z := by
  obtain ⟨-, -, hle⟩ := le_iff.1 h
  by_cases hf : z.isFinite = true
  · have h₁ := nearestTo_sub hx hf
    have h₂ := nearestTo_sub hy hf
    exact le_iff.2 ⟨h₁.hasValue, h₂.hasValue, h₁.mono h₂ (sub_le_sub_right hle _)⟩
  · obtain ⟨s, hs⟩ := unpack_eq_infinity hz (Bool.of_not_eq_true hf)
    have h₁ := unpack_infinity_sub hx hs
    have h₂ := unpack_infinity_sub hy hs
    refine le_iff.2 ⟨hasValue_of_infinity h₁, hasValue_of_infinity h₂, ?_⟩
    rw [value_of_infinity h₁, value_of_infinity h₂]

theorem mul_eq_infinity {u v : UnpackedFloat} (hu : u ≠ .notANumber) (hv : v ≠ .notANumber)
    (hu0 : unpackedValue u ≠ 0) (hv0 : unpackedValue v ≠ 0)
    (h : ¬(u.isFinite = true ∧ v.isFinite = true)) :
    ∃ s, UnpackedFloat.mul .binary64 u v = .infinity s := by
  rcases u with s | _ | s | ⟨s, m, e, hm⟩
  case notANumber => exact absurd rfl hu
  case zero => exact absurd rfl hu0
  all_goals rcases v with t | _ | t | ⟨t, n, f, hn⟩
  case infinity.notANumber | finite.notANumber => exact absurd rfl hv
  case infinity.zero | finite.zero => exact absurd rfl hv0
  case finite.finite => exact absurd ⟨rfl, rfl⟩ h
  all_goals exact ⟨_, rfl⟩

theorem hasValue_mul (hx : HasValue x) (hy : HasValue y)
    (h : x.isFinite = true ∧ y.isFinite = true ∨ value x ≠ 0 ∧ value y ≠ 0) :
    HasValue (x * y) := by
  by_cases hf : x.isFinite = true ∧ y.isFinite = true
  · exact (nearestTo_mul hf.1 hf.2).hasValue
  · obtain ⟨hx0, hy0⟩ := h.resolve_left hf
    obtain ⟨s, hs⟩ := mul_eq_infinity hx hy hx0 hy0 hf
    have hmodel : (x * y).toModel = .pack (.mul .binary64 x.toModel.unpack y.toModel.unpack) :=
      rfl
    exact hasValue_of_infinity (s := s) (by rw [hmodel, hs, unpack_pack_infinity])

end

end RateCurve.Double
