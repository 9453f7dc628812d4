import RateCurve.Proofs.Curve.Samples
import RateCurve.Proofs.Double.Sign

namespace RateCurve
open Double

namespace Curve

variable {g : Geometry} {now : Json} {resolution : Float}

/-- An event that leaves the curve empty when there is no other. -/
def Blank [Machine] (g : Geometry) (now event : Json) : Prop :=
  ∃ c, build g now (.arr [event]) = .ok c ∧ c.empty = true

def addAll (hs : List Hump) (i : Nat) (a : Float) : Float :=
  (hs.filterMap (·.adds? i)).foldl (· + ·) a

theorem addAll_cons (h : Hump) (hs : List Hump) (i : Nat) (a : Float) :
    addAll (h :: hs) i a = addAll hs i ((h.adds? i).elim a (a + ·)) := by
  unfold addAll
  rw [List.filterMap_cons]
  cases h.adds? i <;> rfl

theorem not_blank_of_contribution? [Machine] {event : Json}
    (hr : g.resolution? = .ok resolution) {i : Nat} (hi : i < g.count)
    (h : (contribution? g (1.0 / resolution) now i event).any (0.0 < ·) = true) :
    ¬Blank g now event := by
  rintro ⟨c, hc, hempty⟩
  have hvalues := (build_empty_iff hc).1 hempty
  obtain ⟨resolution', events, hs, hr', he, hhs, -, rfl⟩ := build_eq_ok_iff.1 hc
  obtain rfl : resolution = resolution' := Except.ok.inj (hr.symm.trans hr')
  cases he
  have hget := getElem?_draw hi hs
  rw [filterMap_adds?_humps hhs] at hget
  cases hy : contribution? g (1.0 / resolution) now i event with
  | none =>
    rw [hy] at h
    cases h
  | some y =>
    rw [hy, Option.any_some, decide_eq_true_eq] at h
    rw [List.filterMap_cons_some hy] at hget
    have hzero := hvalues _ (Array.mem_of_getElem? hget)
    have hpos := (pos_iff.1 h).2
    rw [((value_add_eq_zero_iff unsigned_zero.nonneg (nonneg_of_pos h)).1 hzero).2] at hpos
    exact lt_irrefl _ hpos

/-- Humps that make the same of all numbers, up to the last bit. -/
def SameSums (count : Nat) (hs hs' : List Hump) : Prop :=
  ∀ i < count, ∀ a, Unsigned a → addAll hs i a = addAll hs' i a

theorem SameSums.draw_eq {count : Nat} {hs hs' : List Hump} (h : SameSums count hs hs') :
    draw count hs = draw count hs' := by
  apply Array.ext_getElem?
  intro i
  by_cases hi : i < count
  · rw [getElem?_draw hi, getElem?_draw hi]
    exact congrArg some (h i hi 0.0 unsigned_zero)
  · rw [Array.getElem?_eq_none (by rwa [size_draw, ← not_lt]),
      Array.getElem?_eq_none (by rwa [size_draw, ← not_lt])]

theorem adds?_nonneg {h : Hump} (hh : ∀ i, 0.0 ≤ h.height i) {i : Nat} {y : Float}
    (hy : h.adds? i = some y) : 0.0 ≤ y := by
  rw [← Hump.height_eq_of_adds? hy]
  exact hh i

/-- A hump before others does not lead to a negative zero. -/
theorem SameSums.cons {count : Nat} {hs hs' : List Hump} (h : SameSums count hs hs')
    {hump : Hump} (hh : ∀ i, 0.0 ≤ hump.height i) :
    SameSums count (hump :: hs) (hump :: hs') := by
  intro i hi a ha
  rw [addAll_cons, addAll_cons]
  cases hadds : hump.adds? i with
  | none => exact h i hi a ha
  | some y => exact h i hi _ (ha.add (adds?_nonneg hh hadds))

theorem sameSums_cons_of_draw {count : Nat} {hump : Hump} (hh : ∀ i, 0.0 ≤ hump.height i)
    (hzero : ∀ x ∈ draw count [hump], value x = 0) (hs : List Hump) :
    SameSums count hs (hump :: hs) := by
  intro i hi a ha
  rw [addAll_cons]
  cases hadds : hump.adds? i with
  | none => rfl
  | some y =>
    have hy := adds?_nonneg hh hadds
    have hget : (draw count [hump])[i]? = some (0.0 + y) := by
      rw [getElem?_draw hi]
      change some (addAll [hump] i 0.0) = _
      rw [addAll_cons, hadds]
      rfl
    have hsum := hzero _ (Array.mem_of_getElem? hget)
    have hy0 := ((value_add_eq_zero_iff unsigned_zero.nonneg hy).1 hsum).2
    exact congrArg (addAll hs i) (ha.add_eq_left (hasValue_of_nonneg hy) hy0).symm

variable [Machine]

theorem Blank.humps_cons {event : Json} (h : Blank g now event)
    (hr : g.resolution? = .ok resolution) {events : List Json} {hs : List Hump}
    (hhs : humps g (1.0 / resolution) now events = .ok hs) :
    ∃ hs', humps g (1.0 / resolution) now (event :: events) = .ok hs' ∧
    SameSums g.count hs hs' := by
  obtain ⟨c, hc, hempty⟩ := h
  have hzero := (build_empty_iff hc).1 hempty
  obtain ⟨resolution', events', hs₁, hr', he, hhs₁, hroom, rfl⟩ := build_eq_ok_iff.1 hc
  obtain rfl : resolution = resolution' := Except.ok.inj (hr.symm.trans hr')
  cases he
  rcases humps_cons_eq_ok hhs₁ with ⟨hseen, -⟩ | ⟨age, hump, rest, ha, hat, -, hrest, rfl⟩
  · exact ⟨hs, by rw [humps_cons_of_not_isSeen hseen, hhs], fun i hi a ha => rfl⟩
  · cases hrest
    have hheights := humps_height_nonneg hr hhs₁ hump List.mem_cons_self
    exact ⟨hump :: hs, by rw [humps_cons_of_at? ha hat, hroom, hhs]; rfl,
      sameSums_cons_of_draw hheights hzero hs⟩

theorem humps_of_filter (hr : g.resolution? = .ok resolution) {keep : Json → Bool}
    {events : List Json} (hblank : ∀ event ∈ events, keep event = false → Blank g now event)
    {hs : List Hump} (hhs : humps g (1.0 / resolution) now (events.filter keep) = .ok hs) :
    ∃ hs', humps g (1.0 / resolution) now events = .ok hs' ∧ SameSums g.count hs hs' := by
  induction events generalizing hs with
  | nil => exact ⟨hs, hhs, fun i hi a ha => rfl⟩
  | cons event events ih =>
    obtain ⟨hevent, hblank⟩ := List.forall_mem_cons.1 hblank
    cases hkeep : keep event with
    | false =>
      rw [List.filter_cons_of_neg (by rw [hkeep]; decide)] at hhs
      obtain ⟨hs₁, hhs₁, hsame₁⟩ := ih hblank hhs
      obtain ⟨hs₂, hhs₂, hsame₂⟩ := (hevent hkeep).humps_cons hr hhs₁
      exact ⟨hs₂, hhs₂, fun i hi a ha => (hsame₁ i hi a ha).trans (hsame₂ i hi a ha)⟩
    | true =>
      rw [List.filter_cons_of_pos hkeep] at hhs
      have hheights := humps_height_nonneg hr hhs
      rcases humps_cons_eq_ok hhs with
        ⟨hseen, hrest⟩ | ⟨age, hump, rest, ha, hat, hroom, hrest, rfl⟩
      · rw [humps_cons_of_not_isSeen hseen]
        exact ih hblank hrest
      · obtain ⟨hs₁, hhs₁, hsame⟩ := ih hblank hrest
        exact ⟨hump :: hs₁, by rw [humps_cons_of_at? ha hat, hroom, hhs₁]; rfl,
          hsame.cons (hheights hump List.mem_cons_self)⟩

/-- Blank events may stand anywhere among the others without a bit of the curve being
different. -/
theorem build_of_filter {keep : Json → Bool} {events : List Json}
    (hblank : ∀ event ∈ events, keep event = false → Blank g now event) {c : Curve}
    (h : build g now (.arr (events.filter keep)) = .ok c) :
    build g now (.arr events) = .ok c := by
  obtain ⟨resolution, events', hs, hr, he, hhs, hroom, rfl⟩ := build_eq_ok_iff.1 h
  cases he
  obtain ⟨hs', hhs', hsame⟩ := humps_of_filter hr hblank hhs
  exact build_eq_ok_iff.2 ⟨resolution, events, hs', hr, rfl, hhs', hroom, by rw [hsame.draw_eq]⟩

end Curve

end RateCurve
