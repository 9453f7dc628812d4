import RateCurve.Proofs.Curve.Selection
import RateCurve.Proofs.Curve.Visible

namespace RateCurve
open Double

namespace Hump

def offset (h : Hump) (i : ℕ) : Float :=
  (ofInt i - h.centre) * h.sharpness

def argument (h : Hump) (i : ℕ) : Float :=
  -h.offset i * h.offset i

theorem height_eq (h : Hump) (i : ℕ) :
    h.height i = Exponential.exp (h.argument i) * h.sharpness :=
  rfl

/-- The exponential keeps the order of the arguments that a hump takes it of. -/
def Ordered (h : Hump) : Prop :=
  ∀ i ∈ h.span.toList, ∀ j ∈ h.span.toList, h.argument i ≤ h.argument j →
    Exponential.exp (h.argument i) ≤ Exponential.exp (h.argument j)

instance (h : Hump) : Decidable h.Ordered :=
  inferInstanceAs (Decidable (∀ i ∈ h.span.toList, ∀ j ∈ h.span.toList,
    h.argument i ≤ h.argument j →
    Exponential.exp (h.argument i) ≤ Exponential.exp (h.argument j)))

section

variable {g : Geometry} {centre : Float} {h : Hump}

theorem offset_eq (hat : at? g centre = .ok (some h)) (i : ℕ) :
    h.offset i = (ofInt i - centre) * (1.0 / Spread.width g.floor centre) := by
  obtain ⟨-, hcentre, hsharpness⟩ := Curve.eq_of_at? hat
  rw [offset, hcentre, hsharpness]

variable (hf : centre.isFinite = true) (h0 : 0.0 ≤ centre) (hat : at? g centre = .ok (some h))
include hf h0 hat

theorem mem_span_iff {i : ℕ} :
    i ∈ h.span.toList ↔ i < g.count ∧
      value (Spread.lower centre (Spread.width g.floor centre)) ≤ i ∧
      i ≤ value (Spread.upper centre (Spread.width g.floor centre)) := by
  have hs := (at?_isOk_iff hf h0).1 ⟨_, hat⟩
  have haround := (Curve.eq_of_at? hat).1
  rw [around_eq g.floor_pos h0 hf hs] at haround
  split_ifs at haround
  · cases haround
  have hspan := Option.some.inj (Except.ok.inj haround)
  have hmem := Span.mem_iff g.count
    (value (Spread.lower centre (Spread.width g.floor centre)))
    (value (Spread.upper centre (Spread.width g.floor centre))) i
  rw [Int.cast_natCast, Nat.cast_le, Nat.cast_lt] at hmem
  rw [Span.mem_toList, ← hspan, hmem, and_iff_right (Int.natCast_nonneg i)]

theorem isFinite_offset (hn : g.count ≤ 2 ^ 53) {i : ℕ} (hi : i ∈ h.span.toList) :
    (ofInt i - centre).isFinite = true ∧ (h.offset i).isFinite = true := by
  have hs := (at?_isOk_iff hf h0).1 ⟨_, hat⟩
  obtain ⟨hcount, hlo, hhi⟩ := (mem_span_iff hf h0 hat).1 hi
  have hi' := hcount.le.trans hn
  rw [offset_eq hat]
  exact ⟨(offset_mem g.floor_pos h0 hs hf hi' hlo hhi).1,
    isFinite_offset_mul_sharpness g.floor_pos h0 hs hf hi' hlo hhi⟩

theorem abs_offset_le_of_nearer (hn : g.count ≤ 2 ^ 53) {i j : ℕ} (hi : i ∈ h.span.toList)
    (hj : j ∈ h.span.toList) (hij : |i - value centre| ≤ |j - value centre|) :
    |value (h.offset i)| ≤ |value (h.offset j)| := by
  have hs := (at?_isOk_iff hf h0).1 ⟨_, hat⟩
  have hsf := (sharpness_bounds g.floor_pos h0 hs).1
  have hsub {i : ℕ} (hi : i ∈ h.span.toList) :
      NearestTo (ofInt i - centre) (i - value centre) := by
    obtain ⟨hvalue, hif⟩ := value_ofInt_natCast (((mem_span_iff hf h0 hat).1 hi).1.le.trans hn)
    have := nearestTo_sub hif hf
    rwa [hvalue] at this
  have hdi := (isFinite_offset hf h0 hat hn hi).1
  have hdj := (isFinite_offset hf h0 hat hn hj).1
  rw [offset_eq hat, offset_eq hat]
  apply (nearestTo_mul hdi hsf).abs_mono (nearestTo_mul hdj hsf)
  rw [abs_mul, abs_mul]
  exact mul_le_mul_of_nonneg_right ((hsub hi).abs_mono (hsub hj) hij) (abs_nonneg _)

/-- A hump is not higher at a sample that is farther from its centre. -/
theorem height_le_of_nearer (hn : g.count ≤ 2 ^ 53) (hord : h.Ordered) {i j : ℕ}
    (hi : i ∈ h.span.toList) (hj : j ∈ h.span.toList)
    (hij : |i - value centre| ≤ |j - value centre|) :
    h.height j ≤ h.height i := by
  have hs := (at?_isOk_iff hf h0).1 ⟨_, hat⟩
  obtain ⟨hsf, hs0, -⟩ := sharpness_bounds g.floor_pos h0 hs
  have hargument : h.argument j ≤ h.argument i :=
    neg_mul_self_le (isFinite_offset hf h0 hat hn hi).2 (isFinite_offset hf h0 hat hn hj).2
      (abs_offset_le_of_nearer hf h0 hat hn hi hj hij)
  obtain ⟨hjv, hiv, -⟩ := le_iff.1 hargument
  have hexp := (le_iff.1 (hord j hj i hi hargument)).2.2
  rw [height_eq, height_eq, (Curve.eq_of_at? hat).2.2]
  have hjn := nearestTo_mul (Exponential.isFinite_exp hjv) hsf
  have hin := nearestTo_mul (Exponential.isFinite_exp hiv) hsf
  exact le_iff.2 ⟨hjn.hasValue, hin.hasValue,
    hjn.mono hin (mul_le_mul_of_nonneg_right hexp (pos_iff.1 hs0).2.le)⟩

end

end Hump

namespace Curve

/-- Samples that rise up to a centre and fall from there on, and are zero where a bell of that
centre and width is not drawn. -/
structure IsHump (samples : Array Float) (centre width : Float) : Prop where
  rises : ∀ (i j : ℕ) x y, samples[i]? = some x → samples[j]? = some y → i ≤ j →
    j ≤ value centre →
    x ≤ y
  falls : ∀ (i j : ℕ) x y, samples[i]? = some x → samples[j]? = some y → i ≤ j →
    value centre ≤ i →
    y ≤ x
  vanishes : ∀ (i : ℕ) x, samples[i]? = some x →
    i < value (Spread.lower centre width) ∨ value (Spread.upper centre width) < i → x = 0.0

theorem eq_zero_of_draw_nil {count i : ℕ} {x : Float} (h : (draw count [])[i]? = some x) :
    x = 0.0 := by
  rw [draw, List.foldl_nil, Array.getElem?_replicate] at h
  split_ifs at h
  exact (Option.some.inj h).symm

/-- The samples that nothing is added to have every shape. -/
theorem isHump_draw_nil (count : ℕ) (centre width : Float) :
    IsHump (draw count []) centre width := by
  constructor
  · intro i j x y hx hy _ _
    rw [eq_zero_of_draw_nil hx, eq_zero_of_draw_nil hy]
    exact zero_nonneg
  · intro i j x y hx hy _ _
    rw [eq_zero_of_draw_nil hx, eq_zero_of_draw_nil hy]
    exact zero_nonneg
  · intro i x hx _
    exact eq_zero_of_draw_nil hx

theorem draw_singleton {count i : ℕ} {h : Hump} {x : Float}
    (hx : (draw count [h])[i]? = some x) :
    i < count ∧ (i ∈ h.span.toList ∧ x = 0.0 + h.height i ∨ i ∉ h.span.toList ∧ x = 0.0) := by
  have hcount : i < count := by
    have := (Array.getElem?_eq_some_iff.1 hx).1
    rwa [size_draw] at this
  refine ⟨hcount, ?_⟩
  rw [getElem?_draw hcount, Option.some.injEq] at hx
  rw [← hx, List.filterMap_cons, Hump.adds?]
  by_cases hi : i ∈ h.span.toList
  · rw [if_pos (Span.mem_toList.1 hi)]
    exact .inl ⟨hi, rfl⟩
  · rw [if_neg fun hmem => hi (Span.mem_toList.2 hmem)]
    exact .inr ⟨hi, rfl⟩

variable {g : Geometry} {centre : Float} {h : Hump}

theorem isHump_draw_singleton (hn : g.count ≤ 2 ^ 53) (hf : centre.isFinite = true)
    (h0 : 0.0 ≤ centre) (hat : Hump.at? g centre = .ok (some h)) (hord : h.Ordered) :
    IsHump (draw g.count [h]) centre (Spread.width g.floor centre) := by
  have hs := (Hump.at?_isOk_iff hf h0).1 ⟨_, hat⟩
  have hheight := fun i => (Hump.height_bounds hf h0 hat i).1
  have hlower := lower_le_centre g.floor_pos h0 hs hf
  have hupper := centre_le_upper g.floor_pos h0 hs hf
  have hspan {i : ℕ} := Hump.mem_span_iff hf h0 hat (i := i)
  -- A sample that is nearer to the centre, and on the same side of it, is spanned if the other
  -- one is.
  have hnearer {i j : ℕ} {x y : Float} (hx : (draw g.count [h])[i]? = some x)
      (hy : (draw g.count [h])[j]? = some y) (hij : |i - value centre| ≤ |j - value centre|)
      (hmem : j ∈ h.span.toList → i < g.count → i ∈ h.span.toList) : y ≤ x := by
    obtain ⟨hi, ⟨his, rfl⟩ | ⟨his, rfl⟩⟩ := draw_singleton hx
    all_goals obtain ⟨hj, ⟨hjs, rfl⟩ | ⟨hjs, rfl⟩⟩ := draw_singleton hy
    · exact add_mono_right zero_nonneg (hheight j)
        (Hump.height_le_of_nearer hf h0 hat hn hord his hjs hij)
    · exact nonneg_add zero_nonneg (hheight i)
    · exact absurd (hmem hjs hi) his
    · exact zero_nonneg
  constructor
  · intro i j x y hx hy hij hj
    have hij' : (i : ℝ) ≤ j := Nat.cast_le.2 hij
    apply hnearer hy hx
    · rw [abs_of_nonpos (by linarith), abs_of_nonpos (by linarith)]
      linarith
    · intro hi hjcount
      exact hspan.2 ⟨hjcount, (hspan.1 hi).2.1.trans hij', hj.trans hupper⟩
  · intro i j x y hx hy hij hi
    have hij' : (i : ℝ) ≤ j := Nat.cast_le.2 hij
    apply hnearer hx hy
    · rw [abs_of_nonneg (by linarith), abs_of_nonneg (by linarith)]
      linarith
    · intro hj hicount
      exact hspan.2 ⟨hicount, hlower.trans hi, hij'.trans (hspan.1 hj).2.2⟩
  · intro i x hx hout
    obtain ⟨-, ⟨hi, -⟩ | ⟨-, rfl⟩⟩ := draw_singleton hx
    · obtain ⟨-, hlo, hhi⟩ := hspan.1 hi
      rcases hout with hout | hout <;> linarith
    · rfl

theorem isHump_draw {hump? : Option Hump} (hn : g.count ≤ 2 ^ 53) (hf : centre.isFinite = true)
    (h0 : 0.0 ≤ centre) (hat : Hump.at? g centre = .ok hump?) (hord : ∀ h ∈ hump?, h.Ordered) :
    IsHump (draw g.count hump?.toList) centre (Spread.width g.floor centre) := by
  cases hump? with
  | none => exact isHump_draw_nil _ _ _
  | some h => exact isHump_draw_singleton hn hf h0 hat (hord h rfl)

theorem humps_singleton [Machine] {scale age : Float} {now event : Json} {hs : List Hump}
    (ha : age? now event = some age) (h : humps g scale now [event] = .ok hs) :
    ∃ hump?, Hump.at? g (age * scale) = .ok hump? ∧ hs = hump?.toList := by
  rcases humps_cons_eq_ok h with ⟨hseen, hrest⟩ | ⟨age', hump, rest, ha', hat, -, hrest, rfl⟩
  · cases hrest
    exact ⟨none, at?_of_not_isSeen ha hseen, rfl⟩
  · cases ha.symm.trans ha'
    cases hrest
    exact ⟨some hump, hat, rfl⟩

/-- A single event draws one hump, whose position is the age of the event in samples: up to
there the samples rise, from there on they fall, and beyond the reach of its bell they are zero.
It draws nothing if it has no age. That the exponential keeps the order of its arguments is
assumed. -/
theorem single_event_draws_hump [Machine] (g : Geometry) (now event : Json) :
    (g.count < 2 ^ 53 → ∀ resolution age hump?, g.resolution? = .ok resolution →
        age? now event = some age → Hump.at? g (age * (1.0 / resolution)) = .ok hump? →
        (∀ h ∈ hump?, h.Ordered) →
        IsHump (draw g.count hump?.toList) (age * (1.0 / resolution))
          (Spread.width g.floor (age * (1.0 / resolution)))) ∧
      ∀ activity c, activity.elements? = some [event] → build g now activity = .ok c →
        (age? now event = none → ∀ x ∈ c.samples, x = 0.0) ∧
          ∀ age, age? now event = some age →
            ∃ resolution hump?, g.resolution? = .ok resolution ∧
            Hump.at? g (age * (1.0 / resolution)) = .ok hump? ∧
            c.samples = draw g.count hump?.toList ∧
            ((∀ h ∈ hump?, h.Ordered) →
              IsHump c.samples (age * (1.0 / resolution))
                (Spread.width g.floor (age * (1.0 / resolution)))) := by
  constructor
  · intro hn resolution age hump? hr ha hat hord
    obtain ⟨hf, h0⟩ := age?_bounds ha
    obtain ⟨hcf, hc0⟩ := centre_bounds hr hf h0
    exact isHump_draw hn.le hcf hc0 hat hord
  · intro activity c he h
    obtain ⟨resolution, events, hs, hr, he', hh, hroom, rfl⟩ := build_eq_ok_iff.1 h
    cases he.symm.trans he'
    constructor
    · intro ha x hx
      rw [humps, ha] at hh
      cases hh
      exact Array.eq_of_mem_replicate hx
    · intro age ha
      obtain ⟨hump?, hat, rfl⟩ := humps_singleton ha hh
      refine ⟨resolution, hump?, hr, hat, rfl, fun hord => ?_⟩
      obtain ⟨hf, h0⟩ := age?_bounds ha
      obtain ⟨hcf, hc0⟩ := centre_bounds hr hf h0
      have hn := count_le_of_makeRoom hroom
      exact isHump_draw hn hcf hc0 hat hord

/-- An event two and a half samples old, whose bell is cut off at the newest sample. -/
theorem single_event_draws_hump_cut_off :
    ∃ g : Geometry, g.count < 2 ^ 53 ∧ g.resolution? = .ok 1.0 ∧
      age? (.double 2.5) (.double 0.0) = some 2.5 ∧
      ∃ hump c, Hump.at? g (2.5 * (1.0 / 1.0)) = .ok (some hump) ∧ hump.span = ⟨0, 6⟩ ∧
        hump.Ordered ∧ build g (.double 2.5) (.arr [.double 0.0]) = .ok c ∧
        c.samples = draw g.count [hump] ∧
        IsHump (draw g.count [hump]) (2.5 * (1.0 / 1.0))
          (Spread.width g.floor (2.5 * (1.0 / 1.0))) := by
  let g : Geometry := ⟨8, 1, 0.25, by decide, by decide, by decide +kernel⟩
  have hn : g.count < 2 ^ 53 := by decide +kernel
  have hone : ofInt g.resolution = 1.0 := by decide +kernel
  have hr : g.resolution? = .ok 1.0 := (if_pos (by decide +kernel)).trans (congrArg _ hone)
  have ha : age? (.double 2.5) (.double 0.0) = some 2.5 := by decide +kernel
  have hspan : ((Hump.at? g (2.5 * (1.0 / 1.0))).toOption.join.map
      fun h => (h.span, decide h.Ordered)) = some (⟨0, 6⟩, true) := by
    decide +kernel
  have hok : (build g (.double 2.5) (.arr [.double 0.0])).isOk = true := by decide +kernel
  obtain ⟨hshape, hdrawn⟩ := single_event_draws_hump g (.double 2.5) (.double 0.0)
  refine ⟨g, hn, hr, ha, ?_⟩
  rcases hat : Hump.at? g (2.5 * (1.0 / 1.0)) with e | _ | hump
  · rw [hat] at hspan
    cases hspan
  · rw [hat] at hspan
    cases hspan
  cases hc : build g (.double 2.5) (.arr [.double 0.0]) with
  | error e =>
    rw [hc] at hok
    cases hok
  | ok c =>
    rw [hat] at hspan
    obtain ⟨hspan, hord⟩ := Prod.mk.inj (Option.some.inj hspan)
    have hord : hump.Ordered := of_decide_eq_true hord
    obtain ⟨resolution, hump?, hr', hat', hsamples, -⟩ := (hdrawn _ c rfl hc).2 _ ha
    cases hr.symm.trans hr'
    cases hat.symm.trans hat'
    refine ⟨hump, c, rfl, hspan, hord, rfl, hsamples, hshape hn _ _ _ hr ha hat ?_⟩
    intro h hh
    cases hh
    exact hord

end Curve

end RateCurve
