import RateCurve.Proofs.Curve.Samples

namespace RateCurve.Curve
open Double

/-- What the events add to sample `i`, one after another. -/
def contributions (g : Geometry) (now : Json) (i : Nat) (events : List Json) : List Float :=
  events.filterMap (contribution? g (1.0 / ofInt g.resolution) now i)

section

variable [Machine] {g : Geometry} {now : Json} {events as bs : List Json} {c : Curve} {i : Nat}

theorem humps_of_build (h : build g now (.arr events) = .ok c) :
    ∃ hs, g.resolution? = .ok (ofInt g.resolution) ∧ g.makeRoom = .ok () ∧
      humps g (1.0 / ofInt g.resolution) now events = .ok hs ∧
      c = ofSamples (draw g.count hs) := by
  obtain ⟨resolution, _, hs, hr, he, hh, hroom, hc⟩ := build_eq_ok_iff.1 h
  cases he
  cases (ofInt?_eq_ok hr).1
  exact ⟨hs, hr, hroom, hh, hc⟩

theorem build_isOk_of_subset (hsub : as ⊆ bs) (h : ∃ c, build g now (.arr bs) = .ok c) :
    ∃ c, build g now (.arr as) = .ok c := by
  obtain ⟨c, hc⟩ := h
  obtain ⟨hs, hr, hroom, hh, -⟩ := humps_of_build hc
  have hbs := (humps_isOk_iff hroom).1 ⟨hs, hh⟩
  obtain ⟨hs', hh'⟩ := (humps_isOk_iff hroom).2 fun event hmem => hbs event (hsub hmem)
  exact ⟨_, build_eq_ok_iff.2 ⟨_, as, hs', hr, rfl, hh', hroom, rfl⟩⟩

theorem getElem?_samples (h : build g now (.arr events) = .ok c) (hi : i < g.count) :
    c.samples[i]? = some ((contributions g now i events).foldl (· + ·) 0.0) := by
  obtain ⟨hs, -, -, hh, rfl⟩ := humps_of_build h
  rw [contributions, ← filterMap_adds?_humps hh]
  exact getElem?_draw hi hs

theorem contributions_nonneg (h : build g now (.arr events) = .ok c) :
    ∀ y ∈ contributions g now i events, 0.0 ≤ y := by
  obtain ⟨hs, hr, -, hh, -⟩ := humps_of_build h
  rw [contributions, ← filterMap_adds?_humps hh]
  exact nonneg_of_adds? (humps_height_nonneg hr hh)

theorem foldl_contributions_beq_zero_iff (h : build g now (.arr events) = .ok c) :
    ((contributions g now i events).foldl (· + ·) 0.0 == 0.0) = true ↔
      ∀ y ∈ contributions g now i events, value y = 0 := by
  have h0 := contributions_nonneg h (i := i)
  rw [beq_zero_iff, and_iff_right (hasValue_of_nonneg (nonneg_foldl_add h0 zero_nonneg)),
    value_foldl_add_eq_zero_iff h0 zero_nonneg, and_iff_right value_zero]

theorem empty_iff_forall_contributions (h : build g now (.arr events) = .ok c) :
    c.empty = true ↔ ∀ i < g.count, ∀ y ∈ contributions g now i events, value y = 0 := by
  rw [build_empty_iff h]
  constructor
  · intro hzero i hi
    have hsum := hzero _ (Array.mem_of_getElem? (getElem?_samples h hi))
    exact ((value_foldl_add_eq_zero_iff (contributions_nonneg h) zero_nonneg).1 hsum).2
  · intro hzero x hx
    obtain ⟨i, hi, rfl⟩ := Array.mem_iff_getElem.1 hx
    have hcount := hi.trans_eq (size_of_build h)
    have hget := getElem?_samples h hcount
    rw [Array.getElem?_eq_getElem hi, Option.some_inj] at hget
    rw [hget, value_foldl_add_eq_zero_iff (contributions_nonneg h) zero_nonneg]
    exact ⟨value_zero, hzero i hcount⟩

end

section

variable {as bs : List Json} (h : as.Perm bs)

include h

theorem contributions_perm (g : Geometry) (now : Json) (i : Nat) :
    (contributions g now i as).Perm (contributions g now i bs) :=
  h.filterMap _

/-- Sums of doubles depend on the order of the summands, but not whether they are zero. -/
theorem map_beq_zero_eq [Machine] {g : Geometry} {now : Json} {a b : Curve}
    (ha : build g now (.arr as) = .ok a) (hb : build g now (.arr bs) = .ok b) :
    a.samples.map (· == 0.0) = b.samples.map (· == 0.0) := by
  apply Array.ext_getElem?
  intro i
  rw [Array.getElem?_map, Array.getElem?_map]
  by_cases hi : i < g.count
  · rw [getElem?_samples ha hi, getElem?_samples hb hi]
    simp only [Option.map_some, Option.some_inj]
    rw [Bool.eq_iff_iff, foldl_contributions_beq_zero_iff ha,
      foldl_contributions_beq_zero_iff hb]
    exact forall_congr' fun y => imp_congr_left (contributions_perm h g now i).mem_iff
  · have hi' := Nat.le_of_not_lt hi
    rw [Array.getElem?_eq_none ((size_of_build ha).trans_le hi'),
      Array.getElem?_eq_none ((size_of_build hb).trans_le hi')]

/-- The order of the events does not matter: it does not decide whether the curve can be drawn,
nor where it is zero, and every sample is a sum of the same summands, so that only the rounding
of the sums depends on it. -/
theorem build_perm [Machine] (g : Geometry) (now : Json) :
    ((∃ a, build g now (.arr as) = .ok a) ↔ ∃ b, build g now (.arr bs) = .ok b) ∧
      ∀ a b, build g now (.arr as) = .ok a → build g now (.arr bs) = .ok b →
        a.empty = b.empty ∧ a.samples.map (· == 0.0) = b.samples.map (· == 0.0) ∧
        ∀ i < g.count,
          (contributions g now i as).Perm (contributions g now i bs) ∧
          a.samples[i]? = some ((contributions g now i as).foldl (· + ·) 0.0) ∧
          b.samples[i]? = some ((contributions g now i bs).foldl (· + ·) 0.0) ∧
          ∀ {α : Type} (add : α → α → α) [Std.Associative add] [Std.Commutative add]
            (read : Float → α) (zero : α),
            ((contributions g now i as).map read).foldl add zero =
              ((contributions g now i bs).map read).foldl add zero := by
  refine ⟨⟨build_isOk_of_subset h.symm.subset, build_isOk_of_subset h.subset⟩, ?_⟩
  intro a b ha hb
  refine ⟨?_, map_beq_zero_eq h ha hb, fun i hi => ?_⟩
  · rw [Bool.eq_iff_iff, empty_iff_forall_contributions ha, empty_iff_forall_contributions hb]
    simp only [(contributions_perm h g now _).mem_iff]
  · have hperm := contributions_perm h g now i
    exact ⟨hperm, getElem?_samples ha hi, getElem?_samples hb hi,
      fun add _ _ read zero => (hperm.map read).foldl_eq zero⟩

end

/-- Events on the curve, one in the future and a text, in the opposite order. -/
theorem build_perm_reverse :
    ∃ g as a b, g.count = 3 ∧ as.length = 4 ∧ build g (.double 9.0) (.arr as) = .ok a ∧
      build g (.double 9.0) (.arr as.reverse) = .ok b ∧ a.empty = false ∧ b.empty = false := by
  let g : Geometry := ⟨3, 1, 0.5, by decide, by decide, by decide +kernel⟩
  let as : List Json := [.double 8.5, .double 300.0, .str "now", .double 9.0]
  have hok : (build g (.double 9.0) (.arr as)).toOption.map empty = some false := by
    decide +kernel
  obtain ⟨hiff, hsame⟩ := build_perm as.reverse_perm.symm g (.double 9.0)
  cases ha : build g (.double 9.0) (.arr as) with
  | error e =>
    rw [ha] at hok
    cases hok
  | ok a =>
    obtain ⟨b, hb⟩ := hiff.1 ⟨a, ha⟩
    rw [ha] at hok
    have hempty : a.empty = false := Option.some.inj hok
    exact ⟨g, as, a, b, by decide +kernel, rfl, ha, hb, hempty, (hsame a b ha hb).1 ▸ hempty⟩

end RateCurve.Curve
