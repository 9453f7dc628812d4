import RateCurve.Proofs.Curve.Age
import RateCurve.Proofs.Curve.Gather
import RateCurve.Proofs.Curve.Span
import RateCurve.Proofs.Double.Sum

namespace RateCurve
open Double

section

variable {g : Geometry} {resolution : Float}

theorem one_le_resolution (h : g.resolution? = .ok resolution) :
    resolution.isFinite = true ∧ 1 ≤ value resolution := by
  obtain ⟨rfl, hf⟩ := ofInt?_eq_ok h
  exact ⟨hf, one_le_value_ofInt (by exact_mod_cast g.resolution_pos)⟩

theorem scale_bounds (h : g.resolution? = .ok resolution) :
    (1.0 / resolution).isFinite = true ∧ 0.0 ≤ 1.0 / resolution ∧
    value (1.0 / resolution) ≤ 1 := by
  obtain ⟨hf, h1⟩ := one_le_resolution h
  have hpos : 0 < value resolution := one_pos.trans_le h1
  have hn := nearestTo_div isFinite_one hf hpos.ne'
  rw [value_one] at hn
  have hle : 1 / value resolution ≤ 1 := (div_le_one hpos).2 h1
  have hone : OnGrid 1 := by exact_mod_cast OnGrid.intCast (n := 1) (by norm_num)
  exact hn.bounds hone one_lt_limit (by positivity) hle

theorem centre_bounds {age : Float} (h : g.resolution? = .ok resolution)
    (hf : age.isFinite = true) (h0 : 0.0 ≤ age) :
    (age * (1.0 / resolution)).isFinite = true ∧ 0.0 ≤ age * (1.0 / resolution) := by
  obtain ⟨hsf, hs0, hs1⟩ := scale_bounds h
  have ha := value_nonneg h0
  have hs := value_nonneg hs0
  have hn := nearestTo_mul hf hsf
  refine ⟨hn.isFinite isFinite_zero hf ?_ ?_, hn.nonneg (by positivity)⟩
  · rw [value_zero]
    positivity
  · exact mul_le_of_le_one_right ha hs1

end

namespace Hump

variable {g : Geometry} {centre : Float}

theorem at?_isOk_iff (hf : centre.isFinite = true) (h0 : 0.0 ≤ centre) :
    (∃ h, at? g centre = .ok h) ↔ (centre + g.floor).isFinite = true := by
  rw [← around_isOk_iff g.floor_pos h0 hf g.count, Curve.at?_eq]
  cases Span.around centre (Spread.width g.floor centre) g.count with
  | error e => exact ⟨nofun, nofun⟩
  | ok s => exact ⟨fun _ => ⟨_, rfl⟩, fun _ => ⟨_, rfl⟩⟩

theorem height_bounds {h : Hump} (hf : centre.isFinite = true) (h0 : 0.0 ≤ centre)
    (hat : at? g centre = .ok (some h)) (i : Nat) :
    0.0 ≤ h.height i ∧ value (h.height i) ≤ 2 ^ (537 : ℤ) := by
  have hs := (at?_isOk_iff hf h0).1 ⟨_, hat⟩
  obtain ⟨hwf, hw0, hw⟩ := sharpness_bounds g.floor_pos h0 hs
  obtain ⟨-, hcentre, hsharpness⟩ := Curve.eq_of_at? hat
  obtain ⟨hb0, hb⟩ := bell_bounds (nearestTo_ofInt i).hasValue hf hwf hw0
  rw [height, hcentre, hsharpness]
  exact ⟨hb0, hb.trans hw⟩

end Hump

namespace Curve

variable {g : Geometry} {now activity : Json} {c : Curve}

theorem humps_height_bounds [Machine] {resolution : Float} (hr : g.resolution? = .ok resolution)
    {events : List Json} {hs : List Hump}
    (h : humps g (1.0 / resolution) now events = .ok hs) :
    ∀ hump ∈ hs, ∀ i, 0.0 ≤ hump.height i ∧ value (hump.height i) ≤ 2 ^ (537 : ℤ) := by
  intro hump hmem
  obtain ⟨event, -, age, ha, hat⟩ := exists_at?_of_mem_humps h hmem
  obtain ⟨hf, h0⟩ := age?_bounds ha
  obtain ⟨hcf, hc0⟩ := centre_bounds hr hf h0
  exact Hump.height_bounds hcf hc0 hat

theorem humps_height_nonneg [Machine] {resolution : Float} (hr : g.resolution? = .ok resolution)
    {events : List Json} {hs : List Hump}
    (h : humps g (1.0 / resolution) now events = .ok hs) :
    ∀ hump ∈ hs, ∀ i, 0.0 ≤ hump.height i :=
  fun hump hmem i => (humps_height_bounds hr h hump hmem i).1

theorem exists_height_of_adds? {hs : List Hump} {i : Nat} {y : Float}
    (h : y ∈ hs.filterMap (·.adds? i)) : ∃ hump ∈ hs, hump.height i = y := by
  obtain ⟨hump, hmem, hadds⟩ := List.mem_filterMap.1 h
  exact ⟨hump, hmem, Hump.height_eq_of_adds? hadds⟩

theorem nonneg_of_adds? {hs : List Hump} (h0 : ∀ hump ∈ hs, ∀ i, 0.0 ≤ hump.height i)
    {i : Nat} :
    ∀ y ∈ hs.filterMap (·.adds? i), 0.0 ≤ y := by
  intro y hy
  obtain ⟨hump, hmem, rfl⟩ := exists_height_of_adds? hy
  exact h0 hump hmem i

/-- Humps of which none is very high do not add up to an infinity, however many there are. -/
theorem draw_bounds {count : Nat} {hs : List Hump}
    (h : ∀ hump ∈ hs, ∀ i, 0.0 ≤ hump.height i ∧ value (hump.height i) ≤ 2 ^ (537 : ℤ)) :
    ∀ x ∈ draw count hs, x.isFinite = true ∧ 0.0 ≤ x := by
  intro x hx
  obtain ⟨i, hi, rfl⟩ := Array.mem_iff_getElem.1 hx
  have hcount : i < count := by rwa [size_draw] at hi
  have hget := getElem?_draw hcount hs
  rw [Array.getElem?_eq_getElem hi, Option.some.injEq] at hget
  rw [hget]
  have hadds : ∀ y ∈ hs.filterMap (·.adds? i), 0.0 ≤ y ∧ value y ≤ 2 ^ (537 : ℤ) := by
    intro y hy
    obtain ⟨hump, hmem, rfl⟩ := exists_height_of_adds? hy
    exact h hump hmem i
  have h0 := nonneg_foldl_add (fun y hy => (hadds y hy).1) zero_nonneg
  have hle := value_foldl_add_le (n := 591) (by norm_num) hadds zero_nonneg
    (by rw [value_zero]; positivity)
  refine ⟨isFinite_iff.2 ⟨hasValue_of_nonneg h0, ?_⟩, h0⟩
  rw [abs_of_nonneg (value_nonneg h0)]
  exact hle.trans_lt (zpow_lt_zpow_right₀ one_lt_two (by norm_num))

section

variable [Machine]

theorem build_bounds (h : build g now activity = .ok c) :
    ∀ x ∈ c.samples, x.isFinite = true ∧ 0.0 ≤ x := by
  obtain ⟨resolution, events, hs, hr, -, hh, -, rfl⟩ := build_eq_ok_iff.1 h
  exact draw_bounds (humps_height_bounds hr hh)

theorem build_nonneg (h : build g now activity = .ok c) : ∀ x ∈ c.samples, 0.0 ≤ x :=
  fun x hx => (build_bounds h x hx).2

theorem build_empty_iff (h : build g now activity = .ok c) :
    c.empty = true ↔ ∀ x ∈ c.samples, value x = 0 := by
  have h0 := build_nonneg h
  obtain ⟨resolution, events, hs, -, -, -, -, rfl⟩ := build_eq_ok_iff.1 h
  simp only [ofSamples, Array.all_eq_true_iff_forall_mem] at h0 ⊢
  exact forall₂_congr fun x hx =>
    beq_zero_iff.trans (and_iff_right (hasValue_of_nonneg (h0 x hx)))

theorem value_ne_zero_of_build (h : build g now activity = .ok c)
    (hne : c.empty = false) {q : Float} (hle : ∀ x ∈ c.samples, x ≤ q) : value q ≠ 0 := by
  intro hq
  have hzero : ∀ x ∈ c.samples, value x = 0 := fun x hx =>
    le_antisymm ((le_iff.1 (hle x hx)).2.2.trans_eq hq) (value_nonneg (build_nonneg h x hx))
  rw [(build_empty_iff h).2 hzero] at hne
  cases hne

/-- The test for a new scale: the samples add up to nothing just where the curve is empty. -/
theorem foldl_add_beq_zero (h : build g now activity = .ok c) :
    (c.samples.foldl (· + ·) 0.0 == 0.0) = c.empty := by
  have h0 : ∀ x ∈ c.samples.toList, 0.0 ≤ x :=
    fun x hx => build_nonneg h x (Array.mem_toList_iff.1 hx)
  rw [Bool.eq_iff_iff, ← Array.foldl_toList, beq_zero_iff,
    and_iff_right (hasValue_of_nonneg (nonneg_foldl_add h0 zero_nonneg)),
    value_foldl_add_eq_zero_iff h0 zero_nonneg, and_iff_right value_zero, build_empty_iff h]
  simp only [Array.mem_toList_iff]

end

theorem foldl_larger {xs : List Float} (hxs : ∀ x ∈ xs, HasValue x) {p : Float}
    (hp : HasValue p) :
    ∃ q, xs.foldl (fun peak x => if peak.isBelow (.double x) then .double x else peak)
        (Number.double p) = .double q ∧
      q ∈ p :: xs ∧ ∀ x ∈ p :: xs, x ≤ q := by
  induction xs generalizing p with
  | nil =>
    refine ⟨p, rfl, List.mem_cons_self, fun x hx => ?_⟩
    rw [List.mem_singleton.1 hx]
    exact Double.le_refl hp
  | cons y xs ih =>
    obtain ⟨hy, hxs⟩ := List.forall_mem_cons.1 hxs
    rw [List.foldl_cons]
    by_cases hlt : p < y
    · rw [if_pos (by exact decide_eq_true hlt)]
      obtain ⟨q, hq, hmem, hle⟩ := ih hxs hy
      have hpq : p ≤ q := Double.le_trans (Double.le_of_lt hlt) (hle y List.mem_cons_self)
      exact ⟨q, hq, List.mem_cons_of_mem p hmem, List.forall_mem_cons.2 ⟨hpq, hle⟩⟩
    · rw [if_neg (by exact fun h => hlt (of_decide_eq_true h))]
      obtain ⟨q, hq, hmem, hle⟩ := ih hxs hp
      obtain ⟨hpq, hle⟩ := List.forall_mem_cons.1 hle
      have hyq : y ≤ q := Double.le_trans (Double.le_of_not_lt hp hy hlt) hpq
      refine ⟨q, hq, ?_, List.forall_mem_cons.2 ⟨hpq, List.forall_mem_cons.2 ⟨hyq, hle⟩⟩⟩
      rcases List.mem_cons.1 hmem with rfl | hmem
      · exact List.mem_cons_self
      · exact List.mem_cons_of_mem p (List.mem_cons_of_mem y hmem)

/-- The new scale of a display after a curve: zero after an empty one, and else the larger one
of the old scale and the samples. -/
theorem peak_of_build [Machine] (h : build g now activity = .ok c) {p : Float} (hp : 0.0 ≤ p) :
    ∃ q, peak c.samples (.double p) = .double q ∧ 0.0 ≤ q ∧
      (c.empty = true → q = 0.0) ∧
      (c.empty = false → (q = p ∧ value p ≠ 0 ∨ q ∈ c.samples) ∧ p ≤ q) ∧
      ∀ x ∈ c.samples, x ≤ q := by
  have h0 := build_nonneg h
  unfold peak
  rw [foldl_add_beq_zero h]
  cases hempty : c.empty with
  | true =>
    refine ⟨0.0, if_pos rfl, zero_nonneg, fun _ => rfl, nofun, fun x hx => ?_⟩
    refine le_iff.2 ⟨hasValue_of_nonneg (h0 x hx), hasValue_zero, ?_⟩
    rw [value_zero, (build_empty_iff h).1 hempty x hx]
  | false =>
    have hvalues : ∀ x ∈ c.samples.toList, HasValue x := fun x hx =>
      hasValue_of_nonneg (h0 x (Array.mem_toList_iff.1 hx))
    obtain ⟨q, hq, hmem, hle⟩ := foldl_larger hvalues (hasValue_of_nonneg hp)
    obtain ⟨hpq, hle⟩ := List.forall_mem_cons.1 hle
    have hle' : ∀ x ∈ c.samples, x ≤ q := fun x hx => hle x (Array.mem_toList_iff.2 hx)
    refine ⟨q, ?_, Double.le_trans hp hpq, nofun, fun _ => ⟨?_, hpq⟩, hle'⟩
    · rw [if_neg Bool.false_ne_true, ← Array.foldl_toList]
      exact hq
    · rcases List.mem_cons.1 hmem with rfl | hmem
      · exact .inl ⟨rfl, value_ne_zero_of_build h hempty hle'⟩
      · exact .inr (Array.mem_toList_iff.1 hmem)

end Curve

end RateCurve
