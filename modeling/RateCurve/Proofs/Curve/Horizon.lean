import RateCurve.Proofs.Curve.Samples
import RateCurve.Proofs.Double.Sign

namespace RateCurve
open Double

namespace Spread

def level (floor n : Float) : Float :=
  floor + n - ofInt 1

def discriminant (floor n : Float) : Float :=
  reach * reach + ofInt 4 * level floor n

theorem reach_mul_self_nonneg : 0.0 ≤ (reach : Float) * reach :=
  (nearestTo_mul isFinite_reach isFinite_reach).nonneg (mul_self_nonneg _)

def root (floor n : Float) : Float :=
  (reach + (discriminant floor n).sqrt) / ofInt 2

theorem horizon_eq (floor n : Float) :
    horizon floor n = root floor n * root floor n - floor :=
  rfl

/-- A unit in which large doubles are counted here, so that no large power is worked out. -/
noncomputable def unit : ℝ :=
  2 ^ (1018 : ℤ)

noncomputable def rootUnit : ℝ :=
  2 ^ (509 : ℤ)

theorem unit_pos : 0 < unit := by
  unfold unit
  positivity

theorem limit_eq : limit = 64 * unit := by
  rw [limit, unit, show (1024 : ℤ) = 6 + 1018 from rfl, zpow_add₀ two_ne_zero]
  norm_num

theorem rootUnit_mul_self : rootUnit * rootUnit = unit :=
  (zpow_add₀ two_ne_zero 509 509).symm

theorem eight_le_rootUnit : 8 ≤ rootUnit :=
  calc
    (8 : ℝ) = 2 ^ (3 : ℤ) := by norm_num
    _ ≤ rootUnit := zpow_le_zpow_right₀ one_le_two (by norm_num)

theorem onGrid_units (k : ℕ) (hk : k < 64) {b : ℝ} (hb : b = k * unit) :
    OnGrid b ∧ b < limit := by
  have hk' : (k : ℝ) < 64 := by exact_mod_cast hk
  rw [hb, limit_eq]
  exact ⟨.natCast_mul_zpow (hk.le.trans (by norm_num)) (by norm_num),
    mul_lt_mul_of_pos_right hk' unit_pos⟩

theorem onGrid_rootUnits (k : ℕ) (hk : k < 64) {b : ℝ} (hb : b = k * rootUnit) :
    OnGrid b ∧ b < limit := by
  have hk' : (k : ℝ) < 64 := by exact_mod_cast hk
  have hle : rootUnit < unit := zpow_lt_zpow_right₀ one_lt_two (by norm_num)
  rw [hb, limit_eq]
  exact ⟨.natCast_mul_zpow (hk.le.trans (by norm_num)) (by norm_num),
    mul_lt_mul'' hk' hle (Nat.cast_nonneg k) (by linarith [eight_le_rootUnit])⟩

section

variable {floor n : Float} (hf : 0.0 < floor) (hn : n.isFinite = true) (hn1 : 1 ≤ value n)
include hf hn hn1

theorem sum_bounds :
    0.0 ≤ floor + n ∧ 1 ≤ value (floor + n) ∧ value floor ≤ value (floor + n) := by
  have hf0 := value_nonneg (nonneg_of_pos hf)
  have hn0 : 0.0 ≤ n := nonneg_iff.2 ⟨hasValue_of_isFinite hn, zero_le_one.trans hn1⟩
  have h := nearestTo_add_of_nonneg (nonneg_of_pos hf) hn0
  exact ⟨nonneg_add (nonneg_of_pos hf) hn0, hn1.trans (h.le (by linarith)), h.le (by linarith)⟩

theorem level_bounds :
    0.0 ≤ level floor n ∧ (24 * unit ≤ value floor → 16 * unit ≤ value (level floor n)) := by
  obtain ⟨h0, h1, hle⟩ := sum_bounds hf hn hn1
  have honef : (ofInt 1).isFinite = true := by rfl
  unfold level
  by_cases hs : (floor + n).isFinite = true
  · have h := nearestTo_sub hs honef
    rw [value_ofInt_one] at h
    refine ⟨h.nonneg (by linarith), fun hbig => ?_⟩
    have hu : 1 ≤ unit := one_le_zpow₀ one_le_two (by norm_num)
    obtain ⟨hgrid, hlim⟩ := onGrid_units 16 (by norm_num) (b := 16 * unit) (by norm_num)
    exact h.onGrid_le hgrid (by rw [abs_of_nonneg (by linarith)]; exact hlim.le) (by linarith)
  · have hinf := unpack_sub_of_infinity (unpack_eq_infinity_of_nonneg (hasValue_of_nonneg h0)
      (Bool.of_not_eq_true hs) (value_nonneg h0)) honef
    have hv : value (floor + n - ofInt 1) = limit := by
      rw [value_of_infinity hinf, factor, one_mul]
    have := unit_pos
    refine ⟨nonneg_iff.2 ⟨hasValue_of_infinity hinf, ?_⟩, fun _ => ?_⟩ <;> rw [hv, limit_eq] <;>
      linarith

theorem four_level_bounds :
    0.0 ≤ ofInt 4 * level floor n ∧
      (24 * unit ≤ value floor → value (ofInt 4 * level floor n) = limit) := by
  obtain ⟨h0, hbig⟩ := level_bounds hf hn hn1
  have hfour : value (ofInt 4) = 4 := value_ofInt_ofNat (by norm_num)
  have hfourf : (ofInt 4).isFinite = true := by rfl
  have hl0 := value_nonneg h0
  by_cases hs : (level floor n).isFinite = true
  · have h := nearestTo_mul hfourf hs
    rw [hfour] at h
    refine ⟨h.nonneg (by linarith), fun hf' => ?_⟩
    have := hbig hf'
    exact le_antisymm (abs_le.1 (abs_value_le _)).2
      (h.onGrid_le onGrid_limit abs_limit_le (by rw [limit_eq]; linarith))
  · have hinf := unpack_mul_of_infinity hfourf (by rw [hfour]; exact four_pos)
      (unpack_eq_infinity_of_nonneg (hasValue_of_nonneg h0) (Bool.of_not_eq_true hs) hl0)
    have hv : value (ofInt 4 * level floor n) = limit := by
      rw [value_of_infinity hinf, factor, one_mul]
    exact ⟨nonneg_iff.2 ⟨hasValue_of_infinity hinf, hv.symm ▸ limit_pos.le⟩, fun _ => hv⟩

theorem discriminant_nonneg : 0.0 ≤ discriminant floor n :=
  nonneg_add reach_mul_self_nonneg (four_level_bounds hf hn hn1).1

theorem value_floor_lt (hd : (discriminant floor n).isFinite = true) :
    value floor < 24 * unit := by
  by_contra hbig
  have h4 := (four_level_bounds hf hn hn1).2 (not_lt.1 hbig)
  have h := (nearestTo_add_of_nonneg reach_mul_self_nonneg (four_level_bounds hf hn hn1).1).le
    (y := ofInt 4 * level floor n) (by linarith [value_nonneg reach_mul_self_nonneg])
  rw [h4] at h
  have hlt := (isFinite_iff.1 hd).2
  exact absurd (lt_of_abs_lt hlt) (not_lt.2 h)

theorem isFinite_floor_of_isFinite_discriminant (hd : (discriminant floor n).isFinite = true) :
    floor.isFinite = true := by
  have hfv := value_floor_lt hf hn hn1 hd
  refine isFinite_iff.2 ⟨(pos_iff.1 hf).1, ?_⟩
  rw [abs_of_pos (pos_iff.1 hf).2, limit_eq]
  linarith [unit_pos]

theorem sqrt_discriminant_bounds (hd : (discriminant floor n).isFinite = true) :
    (discriminant floor n).sqrt.isFinite = true ∧ 0.0 ≤ (discriminant floor n).sqrt ∧
      value (discriminant floor n).sqrt ≤ 8 * rootUnit := by
  have h8 := eight_le_rootUnit
  have hd0 := value_nonneg (discriminant_nonneg hf hn hn1)
  have hsqrt : √(value (discriminant floor n)) ≤ 8 * rootUnit := by
    refine Real.sqrt_le_iff.2 ⟨by linarith, ?_⟩
    have := (abs_le.1 (abs_value_le (discriminant floor n))).2
    rw [limit_eq, ← rootUnit_mul_self] at this
    linarith
  obtain ⟨hgrid8, hlim8⟩ := onGrid_rootUnits 8 (by norm_num) (b := 8 * rootUnit) (by norm_num)
  exact (nearestTo_sqrt hd hd0).bounds hgrid8 hlim8 (Real.sqrt_nonneg _) hsqrt

theorem reach_add_sqrt_bounds (hd : (discriminant floor n).isFinite = true) :
    (reach + (discriminant floor n).sqrt).isFinite = true ∧
      0.0 ≤ reach + (discriminant floor n).sqrt ∧
      value (reach + (discriminant floor n).sqrt) ≤ 10 * rootUnit := by
  have h8 := eight_le_rootUnit
  obtain ⟨hwf, hw0, hw8⟩ := sqrt_discriminant_bounds hf hn hn1 hd
  have hw0 := value_nonneg hw0
  have hreach0 := (pos_iff.1 reach_pos).2
  have hreach := value_reach_le
  obtain ⟨hgrid10, hlim10⟩ :=
    onGrid_rootUnits 10 (by norm_num) (b := 10 * rootUnit) (by norm_num)
  exact (nearestTo_add isFinite_reach hwf).bounds hgrid10 hlim10 (by linarith) (by linarith)

theorem nearestTo_root (hd : (discriminant floor n).isFinite = true) :
    NearestTo (root floor n) (value (reach + (discriminant floor n).sqrt) / 2) := by
  obtain ⟨hsf, -, -⟩ := reach_add_sqrt_bounds hf hn hn1 hd
  have htwo : value (ofInt 2) = 2 := value_ofInt_ofNat (by norm_num)
  have hroot := nearestTo_div hsf (by rfl : (ofInt 2).isFinite = true)
    (by rw [htwo]; exact two_ne_zero)
  rwa [htwo] at hroot

theorem root_bounds (hd : (discriminant floor n).isFinite = true) :
    (root floor n).isFinite = true ∧ 0.0 ≤ root floor n ∧
    value (root floor n) ≤ 5 * rootUnit := by
  obtain ⟨-, hs0, hs10⟩ := reach_add_sqrt_bounds hf hn hn1 hd
  have hs0 := value_nonneg hs0
  obtain ⟨hgrid5, hlim5⟩ := onGrid_rootUnits 5 (by norm_num) (b := 5 * rootUnit) (by norm_num)
  exact (nearestTo_root hf hn hn1 hd).bounds hgrid5 hlim5 (by linarith) (by linarith)

theorem root_sq_bounds (hd : (discriminant floor n).isFinite = true) :
    (root floor n * root floor n).isFinite = true ∧ 0.0 ≤ root floor n * root floor n ∧
      value (root floor n * root floor n) ≤ 25 * unit := by
  obtain ⟨hrf, hr0, hr5⟩ := root_bounds hf hn hn1 hd
  have hr0 := value_nonneg hr0
  have hle : value (root floor n) * value (root floor n) ≤ 25 * unit :=
    calc
      value (root floor n) * value (root floor n) ≤ 5 * rootUnit * (5 * rootUnit) :=
        mul_le_mul hr5 hr5 hr0 (by linarith [eight_le_rootUnit])
      _ = 25 * unit := by
        rw [← rootUnit_mul_self]
        ring
  obtain ⟨hgrid25, hlim25⟩ := onGrid_units 25 (by norm_num) (b := 25 * unit) (by norm_num)
  exact (nearestTo_mul hrf hrf).bounds hgrid25 hlim25 (mul_nonneg hr0 hr0) hle

theorem horizon_bounds (hd : (discriminant floor n).isFinite = true) :
    (horizon floor n).isFinite = true ∧ value (horizon floor n) ≤ 25 * unit := by
  obtain ⟨hsqf, hsq0, hsq⟩ := root_sq_bounds hf hn hn1 hd
  have hsq0 := value_nonneg hsq0
  have hfv := value_floor_lt hf hn hn1 hd
  have hf0 := value_nonneg (nonneg_of_pos hf)
  have hff := isFinite_floor_of_isFinite_discriminant hf hn hn1 hd
  have h := nearestTo_sub hsqf hff
  refine ⟨h.isFinite ((isFinite_neg floor).trans hff) hsqf ?_ (by linarith), ?_⟩
  · rw [value_neg]
    linarith
  · exact (h.ge (by linarith)).trans hsq

theorem root_sq_eq_infinity (hd : (discriminant floor n).isFinite = false) :
    (root floor n * root floor n).toModel.unpack = .infinity .positive := by
  have hd0 := discriminant_nonneg hf hn hn1
  have hdi := unpack_eq_infinity_of_nonneg (hasValue_of_nonneg hd0) hd (value_nonneg hd0)
  have hsum := unpack_infinity_add isFinite_reach (unpack_sqrt_of_infinity hdi)
  have htwo : 0 < value (ofInt 2) := by
    rw [value_ofInt_ofNat (by norm_num)]
    exact two_pos
  exact unpack_infinity_mul_self (unpack_div_of_infinity hsum (by rfl) htwo)

/-- With an infinite floor the horizon is a difference of infinities. -/
theorem isFinite_floor_of_hasValue_horizon (hd : (discriminant floor n).isFinite = false)
    (hv : HasValue (horizon floor n)) : floor.isFinite = true := by
  have hsq := root_sq_eq_infinity hf hn hn1 hd
  rw [horizon_eq] at hv
  by_contra hff
  have hfi :=
    unpack_eq_infinity_of_nonneg (pos_iff.1 hf).1 (Bool.of_not_eq_true hff) (pos_iff.1 hf).2.le
  exact not_hasValue_infinity_sub hsq hfi hv

theorem horizon_eq_infinity (hd : (discriminant floor n).isFinite = false)
    (hff : floor.isFinite = true) : (horizon floor n).toModel.unpack = .infinity .positive :=
  unpack_sub_of_infinity (root_sq_eq_infinity hf hn hn1 hd) hff

end

end Spread

def Double.largest : Float :=
  1.7976931348623157e308

theorem Double.unpack_largest :
    largest.toModel.unpack = .finite .positive (2 ^ 53 - 1) 971 (by decide) := by
  have h : largest = .ofModel (.pack (.finite .positive (2 ^ 53 - 1) 971 (by decide))) := by
    decide +kernel
  rw [h]
  exact unpack_pack_of_storable ⟨by decide, by decide, by decide, .inl (by decide)⟩

theorem Double.value_largest : value largest = limit - 2 ^ (971 : ℤ) := by
  have hm : ((2 ^ 53 - 1 : ℕ) : ℝ) = 2 ^ (53 : ℤ) - 1 := by norm_num
  rw [value, unpack_largest, unpackedValue, factor, one_mul, hm, sub_mul, one_mul,
    ← zpow_add₀ two_ne_zero]
  rfl

theorem Double.isFinite_largest : largest.isFinite = true := by
  change largest.toModel.unpack.isFinite = true
  rw [unpack_largest]
  rfl

theorem Double.isFinite_neg_largest : (-largest).isFinite = true :=
  (isFinite_neg largest).trans isFinite_largest

theorem Double.largest_nonneg : 0.0 ≤ largest := by
  refine nonneg_iff.2 ⟨hasValue_of_isFinite isFinite_largest, ?_⟩
  rw [value, unpack_largest, unpackedValue, factor, one_mul]
  positivity

theorem Double.value_le_largest {x : Float} (h : x.isFinite = true) :
    value x ≤ value largest := by
  rw [value_largest]
  exact (abs_le.1 (abs_value_le_of_isFinite h)).2

namespace Geometry
open Spread

variable {g : Geometry} {retention resolution : Float}

theorem count_pos (g : Geometry) : 0 < g.count :=
  Nat.div_pos g.resolution_le_window g.resolution_pos

theorem visibleAge_eq_ok (h : g.visibleAge = .ok retention) :
    ∃ n resolution, ofInt? g.count = .ok n ∧ g.resolution? = .ok resolution ∧
      retention = horizon g.floor n * resolution := by
  simp only [visibleAge, bind_eq_ok, pure_eq_ok] at h
  obtain ⟨n, hn, resolution, hres, rfl⟩ := h
  exact ⟨n, resolution, hn, hres, rfl⟩

/-- Where the retention is less than the largest double, the floor is not very large, and for
samples one millisecond apart the retention is much below the largest doubles. -/
theorem bounds_of_lt_largest (h : g.visibleAge = .ok retention) (hlt : retention < largest) :
    value g.floor < 24 * unit ∧
      (g.resolution = 1 → retention.isFinite = true ∧ value retention ≤ 25 * unit) := by
  obtain ⟨n, resolution, hn, hres, rfl⟩ := visibleAge_eq_ok h
  obtain ⟨rfl, hnf⟩ := ofInt?_eq_ok hn
  have hn1 := one_le_value_ofInt (n := g.count) (by exact_mod_cast g.count_pos)
  obtain ⟨hrf, hr1⟩ := one_le_resolution hres
  have hd : (discriminant g.floor (ofInt g.count)).isFinite = true := by
    by_contra hd
    obtain ⟨hrv, -, hlt⟩ := lt_iff.1 hlt
    have hff := isFinite_floor_of_hasValue_horizon g.floor_pos hnf hn1 (Bool.of_not_eq_true hd)
      (hasValue_of_mul hrv)
    have hi := horizon_eq_infinity g.floor_pos hnf hn1 (Bool.of_not_eq_true hd) hff
    have hv := value_of_infinity (unpack_infinity_mul hi hrf (by linarith))
    rw [hv, factor, one_mul] at hlt
    exact absurd hlt (not_lt.2 (abs_le.1 (abs_value_le largest)).2)
  refine ⟨value_floor_lt g.floor_pos hnf hn1 hd, fun hone => ?_⟩
  obtain ⟨hhf, hh⟩ := horizon_bounds g.floor_pos hnf hn1 hd
  obtain ⟨rfl, -⟩ := ofInt?_eq_ok hres
  have hm := nearestTo_mul hhf hrf
  rw [hone, Nat.cast_one, value_ofInt_one, mul_one] at hm
  rw [hone]
  exact ⟨hm.isFinite hhf hhf le_rfl le_rfl, (hm.ge le_rfl).trans hh⟩

theorem unit_le_of_lt {x : Float} (hx : x.isFinite = true) :
    ∃ z, OnGrid z ∧ |z| ≤ limit ∧ value x < z ∧ z ≤ value x + unit := by
  have hu := unit_pos
  obtain ⟨hlo, hhi⟩ := abs_lt.1 (isFinite_iff.1 hx).2
  rw [limit_eq] at hlo hhi
  have hm : |⌊value x / unit⌋ + 1| ≤ 64 := by
    have h₁ : -64 ≤ ⌊value x / unit⌋ := Int.le_floor.2 (by
      rw [le_div_iff₀ hu]
      push_cast
      linarith)
    have h₂ : ⌊value x / unit⌋ < 64 := Int.floor_lt.2 (by
      rw [div_lt_iff₀ hu]
      exact_mod_cast hhi)
    rw [abs_le]
    omega
  refine ⟨(⌊value x / unit⌋ + 1 : ℤ) * unit,
    ⟨_, 1018, hm.trans (by norm_num), by norm_num, rfl⟩,
    ?_, ?_, ?_⟩
  · rw [abs_mul, abs_of_pos hu, limit_eq]
    exact mul_le_mul_of_nonneg_right (by exact_mod_cast hm) hu.le
  · rw [← div_lt_iff₀ hu]
    exact_mod_cast Int.lt_floor_add_one (value x / unit)
  · have := Int.floor_le (value x / unit)
    rw [le_div_iff₀ hu] at this
    push_cast
    linarith

theorem value_age_le (hrf : retention.isFinite = true) (hr : value retention ≤ 25 * unit)
    {now x : Float} (hn : now.isFinite = true) (hx : x.isFinite = true)
    (hkept : ¬x < now - retention) : value (now - x) ≤ 32 * unit := by
  have hu := unit_pos
  have hage := nearestTo_sub hn hx
  have hcutoff := nearestTo_sub hn hrf
  obtain ⟨hgrid, hlim⟩ := onGrid_units 32 (by norm_num) (b := 32 * unit) (by norm_num)
  apply hage.le_onGrid hgrid (by rw [abs_of_pos (by linarith)]; exact hlim.le)
  by_contra hbig
  -- There is room for a multiple of the unit between the event and the cutoff.
  obtain ⟨z, hz, hzl, hxz, hzx⟩ := unit_le_of_lt hx
  have hle : z ≤ value (now - retention) := hcutoff.onGrid_le hz hzl (by linarith)
  exact hkept (lt_iff.2 ⟨hasValue_of_isFinite hx, hcutoff.hasValue, hxz.trans_le hle⟩)

theorem scale_le_half (hres : g.resolution? = .ok resolution) (h : g.resolution ≠ 1) :
    value (1.0 / resolution) ≤ 1 / 2 := by
  obtain ⟨rfl, hrf⟩ := ofInt?_eq_ok hres
  have htwo : value (ofInt 2) = 2 := value_ofInt_ofNat (by norm_num)
  have hge : (2 : ℝ) ≤ value (ofInt g.resolution) := by
    have hr : (2 : ℤ) ≤ g.resolution := by
      have := g.resolution_pos
      omega
    have := (nearestTo_ofInt g.resolution).le (y := ofInt 2) (by rw [htwo]; exact_mod_cast hr)
    rwa [htwo] at this
  have hs := nearestTo_div isFinite_one hrf (by linarith)
  rw [value_one] at hs
  have hhalf : (1 / 2 : ℝ) = 2 ^ (-1 : ℤ) := by norm_num
  rw [hhalf]
  apply hs.le_onGrid (.zpow (by norm_num)) (abs_zpow_le_limit (by norm_num))
  rw [← hhalf]
  exact one_div_le_one_div_of_le two_pos hge

/-- Of the events that a log keeps, none has a position at which the width of a hump is not
finite, if the retention is less than the largest double or the oldest date of all has no such
position. -/
theorem isFinite_centre_add_floor (h : g.visibleAge = .ok retention)
    (hres : g.resolution? = .ok resolution)
    (hor : retention < largest ∨ (largest * (1.0 / resolution) + g.floor).isFinite = true)
    {now x : Float} (hn : now.isFinite = true) (hx : x.isFinite = true)
    (hkept : ¬x < now - retention) (haf : (now - x).isFinite = true) (ha0 : 0.0 ≤ now - x) :
    ((now - x) * (1.0 / resolution) + g.floor).isFinite = true := by
  obtain ⟨hsf, hs0, hs1⟩ := scale_bounds hres
  obtain ⟨hcf, hc0⟩ := centre_bounds hres haf ha0
  have hcentre := nearestTo_mul haf hsf
  have hsum := nearestTo_sum g.floor_pos hc0
  have hf0 := value_nonneg (nonneg_of_pos g.floor_pos)
  have ha := value_nonneg ha0
  have hs := value_nonneg hs0
  rcases hor with hlt | hlargest
  · obtain ⟨hfloor, hone⟩ := bounds_of_lt_largest h hlt
    have hu := unit_pos
    suffices value ((now - x) * (1.0 / resolution)) ≤ 32 * unit by
      obtain ⟨hgrid, hlim⟩ := onGrid_units 56 (by norm_num) (b := 56 * unit) (by norm_num)
      exact (hsum.bounds hgrid hlim (by linarith [value_nonneg hc0]) (by linarith)).1
    by_cases h1 : g.resolution = 1
    · obtain ⟨hrf, hr⟩ := hone h1
      exact (hcentre.ge (mul_le_of_le_one_right ha hs1)).trans (value_age_le hrf hr hn hx hkept)
    · have hle := (abs_le.1 (abs_value_le (now - x))).2
      rw [limit_eq] at hle
      obtain ⟨hgrid, hlim⟩ := onGrid_units 32 (by norm_num) (b := 32 * unit) (by norm_num)
      apply hcentre.le_onGrid hgrid (by rw [abs_of_pos (by linarith)]; exact hlim.le)
      calc
        value (now - x) * value (1.0 / resolution) ≤ 64 * unit * (1 / 2) :=
          mul_le_mul hle (scale_le_half hres h1) hs (by linarith)
        _ = 32 * unit := by ring
  · obtain ⟨hlf, hlc0⟩ := centre_bounds hres isFinite_largest largest_nonneg
    have hcle := hcentre.mono (nearestTo_mul isFinite_largest hsf)
      (mul_le_mul_of_nonneg_right (value_le_largest haf) hs)
    have hle := hsum.mono (nearestTo_sum g.floor_pos hlc0) (add_le_add_left hcle _)
    have h0 := value_nonneg (nonneg_of_pos (sum_pos g.floor_pos hc0))
    refine isFinite_iff.2 ⟨hsum.hasValue, ?_⟩
    rw [abs_of_nonneg h0]
    exact hle.trans_lt (lt_of_abs_lt (isFinite_iff.1 hlargest).2)

end Geometry

end RateCurve
