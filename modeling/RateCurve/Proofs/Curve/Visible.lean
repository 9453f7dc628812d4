import RateCurve.Proofs.Curve.Failure

namespace RateCurve
open Double

theorem value_eight : value 8.0 = 8 := by
  rw [value,
    show (8.0 : Float).toModel.unpack = .finite .positive (2 ^ 52) (-49) (by decide) by rfl,
    unpackedValue, factor]
  norm_num

theorem onGrid_eleven_quarters : OnGrid (11 / 4) ∧ (11 / 4 : ℝ) < limit := by
  constructor
  · have := OnGrid.natCast_mul_zpow (m := 11) (e := -2) (by norm_num) (by norm_num)
    norm_num at this
    exact this
  · calc
      (11 / 4 : ℝ) ≤ 2 ^ (2 : ℤ) := by norm_num
      _ < limit := zpow_lt_zpow_right₀ one_lt_two (by norm_num)

/-- Up to `2.75` widths from its centre a bell does not vanish, unless it is very wide. -/
theorem bell_pos_of_abs_le {centre sharpness x : Float}
    (hz : NearestTo ((x - centre) * sharpness) (value (x - centre) * value sharpness))
    (hle : |value (x - centre) * value sharpness| ≤ 11 / 4) (hsf : sharpness.isFinite = true)
    (hs : 2 ^ (-513 : ℤ) ≤ value sharpness) : 0.0 < bell centre sharpness x := by
  obtain ⟨hgrid, hlim⟩ := onGrid_eleven_quarters
  have hlim' : |(11 / 4 : ℝ)| ≤ limit := by
    rw [abs_of_pos (by norm_num)]
    exact hlim.le
  have hzf := hz.isFinite_of_abs_le hgrid hlim hle
  obtain ⟨hlo, hhi⟩ := abs_le.1 hle
  have hzlo := hz.onGrid_le hgrid.neg (by rwa [abs_neg]) hlo
  have hzhi := hz.le_onGrid hgrid hlim' hhi
  simp only [bell]
  generalize (x - centre) * sharpness = z at hzf hzlo hzhi ⊢
  have hzz := nearestTo_mul ((isFinite_neg z).trans hzf) hzf
  rw [value_neg] at hzz
  have hexp : -8.0 ≤ -z * z := by
    refine le_iff.2 ⟨hasValue_neg.2 (hasValue_of_isFinite (by rfl)), hzz.hasValue, ?_⟩
    apply hzz.le
    rw [value_neg, value_eight]
    nlinarith
  have h := nearestTo_mul (Exponential.isFinite_exp hzz.hasValue) hsf
  have hprod : (2 : ℝ) ^ (-525 : ℤ) ≤ value (Exponential.exp (-z * z)) * value sharpness :=
    calc
      (2 : ℝ) ^ (-525 : ℤ) = 2 ^ (-12 : ℤ) * 2 ^ (-513 : ℤ) := by
        rw [← zpow_add₀ two_ne_zero]
        norm_num
      _ ≤ _ := mul_le_mul (Exponential.le_exp hexp) hs (by positivity)
        (value_nonneg (Exponential.exp_mem hzz.hasValue).1)
  have hpos := h.onGrid_le (.zpow (by norm_num)) (abs_zpow_le_limit (by norm_num)) hprod
  exact pos_iff.2 ⟨h.hasValue, lt_of_lt_of_le (by positivity) hpos⟩

section

variable {floor centre : Float} (hf : 0.0 < floor) (hc : 0.0 ≤ centre)
  (hs : (centre + floor).isFinite = true)

include hf hc hs

theorem width_mem :
    0.999 * √(value (centre + floor)) ≤ value (Spread.width floor centre) ∧
      value (Spread.width floor centre) ≤ 1.001 * √(value (centre + floor)) := by
  have h : NearestTo (Spread.width floor centre) √(value (centre + floor)) :=
    nearestTo_sqrt hs (pos_iff.1 (sum_pos hf hc)).2.le
  apply h.mem_of_le (width_bounds hf hc hs).1
  exact (zpow_le_zpow_right₀ one_le_two (by norm_num)).trans (zpow_le_sqrt_sum hf hc)

theorem zpow_le_width : 2 ^ (-1022 : ℤ) ≤ value (Spread.width floor centre) :=
  (zpow_le_zpow_right₀ one_le_two (by norm_num)).trans (width_bounds hf hc hs).2.1

theorem arm_mem :
    2.6 * value (Spread.width floor centre) ≤ value (Spread.reach * Spread.width floor centre) ∧
      value (Spread.reach * Spread.width floor centre) ≤
        2.72 * value (Spread.width floor centre) := by
  obtain ⟨hk, hk'⟩ := Spread.value_reach_mem
  have hw0 := value_width_pos hf hc hs
  have h₁ := mul_le_mul_of_nonneg_right hk hw0.le
  have h₂ := mul_le_mul_of_nonneg_right hk' hw0.le
  have hw := zpow_le_width hf hc hs
  have h := nearestTo_mul Spread.isFinite_reach (width_bounds hf hc hs).1
  obtain ⟨hlo, hhi⟩ := h.mem_of_le (reach_bounds hf hc hs).1 (by linarith)
  constructor <;> linarith

theorem zpow_le_arm :
    2 ^ (-1022 : ℤ) ≤ value (Spread.reach * Spread.width floor centre) := by
  linarith [value_width_pos hf hc hs, zpow_le_width hf hc hs, (arm_mem hf hc hs).1]

theorem sqrt_centre_le_arm :
    √(value centre) ≤ value (Spread.reach * Spread.width floor centre) := by
  have hle : value centre ≤ value (centre + floor) :=
    (nearestTo_sum hf hc).le (by linarith [value_nonneg (nonneg_of_pos hf)])
  have hsqrt := Real.sqrt_le_sqrt hle
  linarith [Real.sqrt_nonneg (value centre), (width_mem hf hc hs).1, (arm_mem hf hc hs).1]

theorem sharpness_mem :
    0.999 / value (Spread.width floor centre) ≤ value (1.0 / Spread.width floor centre) ∧
      value (1.0 / Spread.width floor centre) ≤ 1.001 / value (Spread.width floor centre) := by
  have hw0 := value_width_pos hf hc hs
  have h := nearestTo_div isFinite_one (width_bounds hf hc hs).1 hw0.ne'
  rw [value_one] at h
  rw [← mul_one_div 0.999, ← mul_one_div 1.001]
  apply h.mem_of_le (sharpness_bounds hf hc hs).1
  exact (zpow_le_zpow_right₀ one_le_two (by norm_num)).trans (zpow_le_inv_width hf hc hs)

variable (hcf : centre.isFinite = true)

include hcf

theorem lower_le_of_le_one (h1 : value centre ≤ 1) :
    value (Spread.lower centre (Spread.width floor centre)) ≤ 0 := by
  have hc0 := value_nonneg hc
  have hle : value centre ≤ √(value centre) :=
    Real.le_sqrt_of_sq_le (pow_le_of_le_one hc0 h1 two_ne_zero)
  have harm := sqrt_centre_le_arm hf hc hs
  rw [← value_zero]
  apply (nearestTo_sub hcf (reach_bounds hf hc hs).1).ge
  rw [value_zero]
  linarith

theorem lower_le_centre :
    value (Spread.lower centre (Spread.width floor centre)) ≤ value centre := by
  obtain ⟨hrf, hr0, -⟩ := reach_bounds hf hc hs
  exact (nearestTo_sub hcf hrf).ge (by linarith [value_nonneg hr0])

theorem centre_le_upper :
    value centre ≤ value (Spread.upper centre (Spread.width floor centre)) := by
  obtain ⟨hrf, hr0, -⟩ := reach_bounds hf hc hs
  exact (nearestTo_add hcf hrf).le (by linarith [value_nonneg hr0])

theorem lower_le_floor_centre (h1 : 1 ≤ value centre) (hn : ⌊value centre⌋ ≤ 2 ^ 53) :
    value (Spread.lower centre (Spread.width floor centre)) ≤ ⌊value centre⌋ := by
  have harm := sqrt_centre_le_arm hf hc hs
  have hone : 1 ≤ √(value centre) := Real.one_le_sqrt.2 h1
  have hn0 : 0 ≤ ⌊value centre⌋ := Int.floor_nonneg.2 (zero_le_one.trans h1)
  have hgrid : |⌊value centre⌋| ≤ 2 ^ 53 := by rwa [abs_of_nonneg hn0]
  have hvalue := value_ofInt hgrid
  rw [← hvalue]
  apply (nearestTo_sub hcf (reach_bounds hf hc hs).1).ge
  rw [hvalue]
  linarith [Int.lt_floor_add_one (value centre)]

/-- There is a sample in the reach of a hump that does not begin too far away. -/
theorem ceil_lower_le_floor_upper
    (hfar : ⌈value (Spread.lower centre (Spread.width floor centre))⌉ ≤ 2 ^ 53) :
    max 0 ⌈value (Spread.lower centre (Spread.width floor centre))⌉ ≤
      ⌊value (Spread.upper centre (Spread.width floor centre))⌋ := by
  have hc0 := value_nonneg hc
  have hupper := centre_le_upper hf hc hs hcf
  apply max_le
  · exact Int.floor_nonneg.2 (hc0.trans hupper)
  -- A hump at a position up to one begins before the first sample, and any other one before the
  -- sample at or before its position.
  rcases le_total (value centre) 1 with h1 | h1
  · have hlower := lower_le_of_le_one hf hc hs hcf h1
    exact (Int.ceil_le.2 (by exact_mod_cast hlower)).trans
      (Int.floor_nonneg.2 (hc0.trans hupper))
  · rcases le_total ⌊value centre⌋ (2 ^ 53) with hn | hn
    · have hlower := lower_le_floor_centre hf hc hs hcf h1 hn
      exact (Int.ceil_le.2 hlower).trans (Int.floor_mono hupper)
    · exact hfar.trans (hn.trans (Int.floor_mono hupper))

theorem centre_le_of_lower_le
    (hfar : value (Spread.lower centre (Spread.width floor centre)) ≤ 2 ^ 53) :
    value centre ≤ 2 ^ 28 * value (Spread.reach * Spread.width floor centre) := by
  have harm := sqrt_centre_le_arm hf hc hs
  have hsq := Real.mul_self_sqrt (value_nonneg hc)
  have hsqrt0 := Real.sqrt_nonneg (value centre)
  rcases le_total √(value centre) (2 ^ 27) with hsmall | hlarge
  · have := mul_le_mul_of_nonneg_right hsmall hsqrt0
    linarith
  · -- Beyond `2 ^ 54` a hump that begins early enough reaches almost to zero.
    have hdiff : value centre - value (Spread.reach * Spread.width floor centre) ≤ 2 ^ 54 := by
      by_contra hgt
      have hgrid : OnGrid (2 ^ 54) := by exact_mod_cast OnGrid.zpow (e := 54) (by norm_num)
      have hlim : |(2 : ℝ) ^ 54| ≤ limit := by
        exact_mod_cast abs_zpow_le_limit (e := 54) (by norm_num)
      have hge : (2 : ℝ) ^ 54 ≤ value (Spread.lower centre (Spread.width floor centre)) :=
        (nearestTo_sub hcf (reach_bounds hf hc hs).1).onGrid_le hgrid hlim (not_le.1 hgt).le
      linarith
    linarith

theorem ends_mem (hfar : value (Spread.lower centre (Spread.width floor centre)) ≤ 2 ^ 53) :
    value centre - 1.001 * value (Spread.reach * Spread.width floor centre) ≤
        value (Spread.lower centre (Spread.width floor centre)) ∧
      value (Spread.upper centre (Spread.width floor centre)) ≤
        value centre + 1.001 * value (Spread.reach * Spread.width floor centre) := by
  obtain ⟨hrf, -, -⟩ := reach_bounds hf hc hs
  have hlo := (nearestTo_sub hcf hrf).abs_sub_le (isFinite_lower hf hc hcf hs)
  have hhi := (nearestTo_add hcf hrf).abs_sub_le (isFinite_upper hf hc hcf hs)
  have hcentre := centre_le_of_lower_le hf hc hs hcf hfar
  have hc0 := value_nonneg hc
  have hm := zpow_le_arm hf hc hs
  rw [Spread.lower, Spread.upper]
  generalize value (Spread.reach * Spread.width floor centre) = m at *
  have hm0 : 0 < m := lt_of_lt_of_le (by positivity) hm
  have herr {x : ℝ} (hx : |x| ≤ 2 ^ 29 * m) : (|x| + 2 ^ (-1022 : ℤ)) * 2 ^ (-53 : ℤ) ≤
      m / 1000 :=
    calc
      (|x| + 2 ^ (-1022 : ℤ)) * 2 ^ (-53 : ℤ) ≤ (2 ^ 29 * m + m) * 2 ^ (-53 : ℤ) :=
        mul_le_mul_of_nonneg_right (add_le_add hx hm) (by positivity)
      _ = m * ((2 ^ 29 + 1) * 2 ^ (-53 : ℤ)) := by ring
      _ ≤ m * (1 / 1000) := mul_le_mul_of_nonneg_left (by norm_num) hm0.le
      _ = m / 1000 := by ring
  have hlo := (abs_le.1 (hlo.trans (herr (abs_le.2 ⟨by linarith, by linarith⟩)))).1
  have hhi := (abs_le.1 (hhi.trans (herr (abs_le.2 ⟨by linarith, by linarith⟩)))).2
  constructor <;> linarith

theorem offset_mem {i : ℕ} (hi : i ≤ 2 ^ 53)
    (hlo : value (Spread.lower centre (Spread.width floor centre)) ≤ i)
    (hhi : i ≤ value (Spread.upper centre (Spread.width floor centre))) :
    (ofInt i - centre).isFinite = true ∧
      |value (ofInt i - centre)| ≤
        1.003 * value (Spread.reach * Spread.width floor centre) := by
  have hi' : (i : ℝ) ≤ 2 ^ 53 := by exact_mod_cast hi
  obtain ⟨hvalue, hif⟩ := value_ofInt_natCast hi
  have h := nearestTo_sub hif hcf
  -- The difference lies between the two numbers that it is taken of, so it is finite.
  have hdf : (ofInt i - centre).isFinite = true := by
    apply h.isFinite ((isFinite_neg centre).trans hcf) hif
    · rw [value_neg, hvalue]
      linarith [Nat.cast_nonneg (α := ℝ) i]
    · linarith [value_nonneg hc]
  obtain ⟨hends, hends'⟩ := ends_mem hf hc hs hcf (hlo.trans hi')
  have hm := zpow_le_arm hf hc hs
  have herr := h.abs_sub_le hdf
  rw [hvalue] at herr
  generalize value (Spread.reach * Spread.width floor centre) = m at *
  have hm0 : 0 < m := lt_of_lt_of_le (by positivity) hm
  have hle : |i - value centre| ≤ 1.001 * m := abs_le.2 ⟨by linarith, by linarith⟩
  have herr' : (|i - value centre| + 2 ^ (-1022 : ℤ)) * 2 ^ (-53 : ℤ) ≤
      (1.001 * m + m) * (1 / 2000) :=
    mul_le_mul (add_le_add hle hm) (by norm_num) (by positivity) (by linarith)
  obtain ⟨hlo, hhi⟩ := abs_le.1 (herr.trans herr')
  obtain ⟨hlo', hhi'⟩ := abs_le.1 hle
  exact ⟨hdf, abs_le.2 ⟨by linarith, by linarith⟩⟩

theorem abs_offset_mul_sharpness_le {i : ℕ} (hi : i ≤ 2 ^ 53)
    (hlo : value (Spread.lower centre (Spread.width floor centre)) ≤ i)
    (hhi : i ≤ value (Spread.upper centre (Spread.width floor centre))) :
    |value (ofInt i - centre) * value (1.0 / Spread.width floor centre)| ≤ 11 / 4 := by
  have hw0 := value_width_pos hf hc hs
  obtain ⟨-, hd⟩ := offset_mem hf hc hs hcf hi hlo hhi
  obtain ⟨-, hs0, -⟩ := sharpness_bounds hf hc hs
  have hshi := (sharpness_mem hf hc hs).2
  have harm := (arm_mem hf hc hs).2
  rw [abs_mul, abs_of_nonneg (value_nonneg (nonneg_of_pos hs0))]
  calc
    |value (ofInt i - centre)| * value (1.0 / Spread.width floor centre) ≤
        1.003 * (2.72 * value (Spread.width floor centre)) *
          (1.001 / value (Spread.width floor centre)) :=
      mul_le_mul (hd.trans (by linarith)) hshi (value_nonneg (nonneg_of_pos hs0))
        (by linarith)
    _ = 1.003 * 2.72 * 1.001 := by field_simp
    _ ≤ 11 / 4 := by norm_num

theorem isFinite_offset_mul_sharpness {i : ℕ} (hi : i ≤ 2 ^ 53)
    (hlo : value (Spread.lower centre (Spread.width floor centre)) ≤ i)
    (hhi : i ≤ value (Spread.upper centre (Spread.width floor centre))) :
    ((ofInt i - centre) * (1.0 / Spread.width floor centre)).isFinite = true := by
  have hd := (offset_mem hf hc hs hcf hi hlo hhi).1
  obtain ⟨hgrid, hlim⟩ := onGrid_eleven_quarters
  exact (nearestTo_mul hd (sharpness_bounds hf hc hs).1).isFinite_of_abs_le hgrid hlim
    (abs_offset_mul_sharpness_le hf hc hs hcf hi hlo hhi)

theorem bell_pos {i : ℕ} (hi : i ≤ 2 ^ 53)
    (hlo : value (Spread.lower centre (Spread.width floor centre)) ≤ i)
    (hhi : i ≤ value (Spread.upper centre (Spread.width floor centre))) :
    0.0 < bell centre (1.0 / Spread.width floor centre) (ofInt i) := by
  have hdf := (offset_mem hf hc hs hcf hi hlo hhi).1
  have hsf := (sharpness_bounds hf hc hs).1
  have hslo := (sharpness_mem hf hc hs).1
  apply bell_pos_of_abs_le (nearestTo_mul hdf hsf)
    (abs_offset_mul_sharpness_le hf hc hs hcf hi hlo hhi) hsf
  calc
    (2 : ℝ) ^ (-513 : ℤ) = 1 / 2 * 2 ^ (-512 : ℤ) := by
      rw [show (-513 : ℤ) = -1 + -512 by norm_num, zpow_add₀ two_ne_zero]
      norm_num
    _ ≤ 0.999 * (1 / value (Spread.width floor centre)) :=
      mul_le_mul (by norm_num) (zpow_le_inv_width hf hc hs) (by positivity) (by norm_num)
    _ = 0.999 / value (Spread.width floor centre) := mul_one_div _ _
    _ ≤ value (1.0 / Spread.width floor centre) := hslo

end

namespace Hump

/-- A hump is visible if it spans a sample and does not vanish at any that it spans. -/
structure Visible (h : Hump) : Prop where
  first_le_last : (h.span.first : ℤ) ≤ h.span.last
  pos : ∀ i ∈ h.span.toList, 0.0 < h.height i

theorem visible_of_at? {g : Geometry} {centre : Float} {h : Hump} (hn : g.count ≤ 2 ^ 53)
    (hf : centre.isFinite = true) (h0 : 0.0 ≤ centre) (hat : at? g centre = .ok (some h)) :
    h.Visible := by
  have hn' : (g.count : ℤ) ≤ 2 ^ 53 := by exact_mod_cast hn
  have hs := (at?_isOk_iff hf h0).1 ⟨_, hat⟩
  rw [Curve.at?_eq, around_eq g.floor_pos h0 hf hs] at hat
  split_ifs at hat with hcount
  · cases hat
  cases hat
  have hends := ceil_lower_le_floor_upper g.floor_pos h0 hs hf
  have hbell := fun i => bell_pos g.floor_pos h0 hs hf (i := i)
  generalize Spread.lower centre (Spread.width g.floor centre) = lower at *
  generalize Spread.upper centre (Spread.width g.floor centre) = upper at *
  rw [not_le, Int.toNat_eq_max, max_comm, max_lt_iff] at hcount
  have hends := hends (by omega)
  constructor
  · simp only [Int.toNat_eq_max]
    omega
  · intro i hi
    obtain ⟨hfirst, hlast⟩ := Span.mem_toList.1 hi
    simp only at hfirst hlast
    apply hbell i
    · omega
    · exact (Int.ceil_le.1 (Int.toNat_le.1 hfirst)).trans_eq (Int.cast_natCast i)
    · exact (Int.cast_natCast i).symm.trans_le (Int.le_floor.1 (hlast.trans (min_le_right _ _)))

end Hump

namespace Curve

variable {g : Geometry} {now activity : Json} {c : Curve}

theorem count_le_of_makeRoom [Machine] (h : g.makeRoom = .ok ()) : g.count ≤ 2 ^ 53 := by
  rw [Geometry.makeRoom, mapError_eq_ok, Capacity.makeRoom] at h
  split_ifs at h with hrange hmemory
  have hle : Machine.memory ≤ 2 ^ 56 := Machine.memory_le
  push_cast at hmemory
  omega

/-- A sample that some hump marks is not zero, whatever else is added to it. -/
theorem draw_pos {count i : ℕ} {hs : List Hump} {hump : Hump}
    (h0 : ∀ hump ∈ hs, ∀ i, 0.0 ≤ hump.height i) (hmem : hump ∈ hs) (hi : i ∈ hump.span.toList)
    (hpos : 0.0 < hump.height i) (hcount : i < count) :
    ∃ x, (draw count hs)[i]? = some x ∧ 0.0 < x := by
  have hadds := nonneg_of_adds? h0 (i := i)
  have hheight : hump.height i ∈ hs.filterMap (·.adds? i) :=
    List.mem_filterMap.2 ⟨hump, hmem, if_pos (Span.mem_toList.1 hi)⟩
  have hsum := nonneg_foldl_add hadds zero_nonneg
  refine ⟨_, getElem?_draw hcount hs, pos_iff.2 ⟨hasValue_of_nonneg hsum, ?_⟩⟩
  apply lt_of_le_of_ne (value_nonneg hsum)
  intro hzero
  have hall := ((value_foldl_add_eq_zero_iff hadds zero_nonneg).1 hzero.symm).2
  exact (pos_iff.1 hpos).2.ne' (hall _ hheight)

theorem visible_of_age? {resolution age : Float} {event : Json} {hump : Hump}
    (hn : g.count ≤ 2 ^ 53) (hr : g.resolution? = .ok resolution)
    (ha : age? now event = some age)
    (hat : Hump.at? g (age * (1.0 / resolution)) = .ok (some hump)) : hump.Visible := by
  obtain ⟨hf, h0⟩ := age?_bounds ha
  obtain ⟨hcf, hc0⟩ := centre_bounds hr hf h0
  exact Hump.visible_of_at? hn hcf hc0 hat

theorem empty_iff_forall_not_isSeen [Machine] (h : build g now activity = .ok c) :
    ∃ resolution events, g.resolution? = .ok resolution ∧ activity.elements? = some events ∧
      (c.empty = true ↔ ∀ event ∈ events, isSeen g (1.0 / resolution) now event = false) := by
  have hempty := build_empty_iff h
  obtain ⟨resolution, events, hs, hr, he, hh, hroom, rfl⟩ := build_eq_ok_iff.1 h
  refine ⟨resolution, events, hr, he, ?_⟩
  rw [hempty, ← humps_eq_nil_iff hh]
  constructor
  · intro hzero
    apply List.eq_nil_iff_forall_not_mem.2
    intro hump hmem
    obtain ⟨event, -, age, ha, hat⟩ := exists_at?_of_mem_humps hh hmem
    obtain ⟨hf, h0⟩ := age?_bounds ha
    have hn := count_le_of_makeRoom hroom
    obtain ⟨hle, hpos⟩ := visible_of_age? hn hr ha hat
    have hfirst := Span.mem_toList.2 ⟨le_rfl, hle⟩
    have hcount := (Hump.safe (centre_bounds hr hf h0).2).lt_count _ hat _ hfirst
    obtain ⟨x, hx, hx0⟩ :=
      draw_pos (humps_height_nonneg hr hh) hmem hfirst (hpos _ hfirst) hcount
    exact (pos_iff.1 hx0).2.ne' (hzero x (Array.mem_of_getElem? hx))
  · rintro rfl x hx
    rw [Array.eq_of_mem_replicate hx, value_zero]

/-- An event on the curve always leaves a mark: there is a sample in its reach, and at none of
them does its bell vanish. So a curve is empty just if no event is seen on it. -/
theorem seen_leaves_mark [Machine] (g : Geometry) (now : Json) :
    (g.count ≤ 2 ^ 53 → ∀ resolution event age hump, g.resolution? = .ok resolution →
        age? now event = some age → Hump.at? g (age * (1.0 / resolution)) = .ok (some hump) →
        hump.Visible) ∧
      ∀ activity c, build g now activity = .ok c →
        ∃ resolution events, g.resolution? = .ok resolution ∧ activity.elements? = some events ∧
          (c.empty = true ↔ ∀ event ∈ events, isSeen g (1.0 / resolution) now event = false) :=
  ⟨fun hn _ _ _ _ hr ha hat => visible_of_age? hn hr ha hat,
    fun _ _ h => empty_iff_forall_not_isSeen h⟩

/-- With a floor that is hardly above zero the reach of a new event is much less than one
sample. -/
theorem seen_leaves_mark_narrow :
    ∃ g : Geometry, g.count ≤ 2 ^ 53 ∧ g.resolution? = .ok 1.0 ∧
      age? (.double 3.0) (.double 3.0) = some 0.0 ∧
      ∃ hump c, Hump.at? g (0.0 * (1.0 / 1.0)) = .ok (some hump) ∧ hump.span = ⟨0, 0⟩ ∧
        hump.Visible ∧ build g (.double 3.0) (.arr [.double 3.0]) = .ok c ∧
        c.empty = false := by
  let g : Geometry := ⟨2, 1, 5e-324, by decide, by decide, by decide +kernel⟩
  have hn : g.count ≤ 2 ^ 53 := by decide +kernel
  have hone : ofInt g.resolution = 1.0 := by decide +kernel
  have hr : g.resolution? = .ok 1.0 := (if_pos (by decide +kernel)).trans (congrArg _ hone)
  have ha : age? (.double 3.0) (.double 3.0) = some 0.0 := by decide +kernel
  have hspan : (Hump.at? g (0.0 * (1.0 / 1.0))).toOption.join.map Hump.span = some ⟨0, 0⟩ := by
    decide +kernel
  have hok : (build g (.double 3.0) (.arr [.double 3.0])).isOk = true := by decide +kernel
  obtain ⟨hvisible, hempty⟩ := seen_leaves_mark g (.double 3.0)
  refine ⟨g, hn, hr, ha, ?_⟩
  rcases hat : Hump.at? g (0.0 * (1.0 / 1.0)) with e | _ | hump
  · rw [hat] at hspan
    cases hspan
  · rw [hat] at hspan
    cases hspan
  cases hc : build g (.double 3.0) (.arr [.double 3.0]) with
  | error e =>
    rw [hc] at hok
    cases hok
  | ok c =>
    rw [hat] at hspan
    refine ⟨hump, c, rfl, Option.some.inj hspan, hvisible hn _ _ _ _ hr ha hat, rfl, ?_⟩
    obtain ⟨resolution, events, hr', he, hiff⟩ := hempty _ _ hc
    cases hr.symm.trans hr'
    cases he
    rw [Bool.eq_false_iff, ne_eq, hiff]
    intro hall
    have hseen := hall _ List.mem_cons_self
    revert hseen
    decide +kernel

end Curve

end RateCurve
