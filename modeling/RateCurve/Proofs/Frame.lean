import RateCurve.Frame
import RateCurve.Proofs.Curve.Samples

namespace RateCurve.Frame
open Double

variable {g : Geometry} {now activity : Json} {c : Curve}

theorem next_of_build_error [Machine] {fault : Fault}
    (h : Curve.build g now activity = .error fault) (p : Float) :
    Frame.next g now activity (.double p) = .error fault := by
  rw [next, h]
  rfl

/-- Where there is a curve, only the moment can keep it from being a frame. -/
theorem next_of_build [Machine] (h : Curve.build g now activity = .ok c) {p : Float}
    (hp : 0.0 ≤ p) :
    (∃ cause, Validation.number now = .error cause ∧
        Frame.next g now activity (.double p) = .error (.invalid [⟨[.field "now"], cause⟩])) ∨
      ∃ f, Frame.next g now activity (.double p) = .ok f ∧ Validation.number now = .ok f.now ∧
        f.samples = c.samples ∧ f.empty = c.empty ∧
        Curve.peak c.samples (.double p) = .double f.peak := by
  obtain ⟨q, hq, hq0, -⟩ := Curve.peak_of_build h hp
  have hpeak : Frame.checkPeak (Curve.peak c.samples (.double p)) = .ok ⟨q, hq0⟩ := by
    rw [hq]
    change Validation.located _ (Validation.nonNegative q) = _
    rw [Validation.nonNegative, dif_pos hq0]
    rfl
  unfold Frame.next
  rw [h]
  simp only [bind, Except.bind, Json.toNumber?, Option.elim, hpeak, Frame.checkNow]
  cases hn : Validation.number now with
  | error cause => exact .inl ⟨cause, rfl, rfl⟩
  | ok x => exact .inr ⟨_, rfl, rfl, rfl, rfl, hq⟩

/-- A frame after one with a given peak whose parts are finite and tell the same about it. -/
structure WellFormed (prior : Float) (f : Frame) : Prop where
  samples_bounds : ∀ x ∈ f.samples, x.isFinite = true ∧ 0.0 ≤ x
  peak_finite : f.peak.isFinite = true
  empty_iff_samples : f.empty = true ↔ ∀ x ∈ f.samples, (x == 0.0) = true
  empty_iff_peak : f.empty = true ↔ (f.peak == 0.0) = true
  le_peak : ∀ x ∈ f.samples, x ≤ f.peak
  peak_pos : f.empty = false → 0.0 < f.peak
  prior_le_peak : f.empty = false → prior ≤ f.peak

section

variable [Machine] {prior : Float}

theorem isFinite_peak_of_build (h : Curve.build g now activity = .ok c)
    (hf : prior.isFinite = true) (h0 : 0.0 ≤ prior) {q : Float}
    (hq : Curve.peak c.samples (.double prior) = .double q) : q.isFinite = true := by
  obtain ⟨q', hq', -, hempty, hkept, -⟩ := Curve.peak_of_build h h0
  obtain rfl : q = q' := Number.double.inj (hq.symm.trans hq')
  cases hc : c.empty with
  | true =>
    rw [hempty hc]
    exact isFinite_zero
  | false =>
    rcases (hkept hc).1 with ⟨rfl, -⟩ | hmem
    · exact hf
    · exact (Curve.build_bounds h q hmem).1

theorem wellFormed_of_build (h : Curve.build g now activity = .ok c)
    (hf : prior.isFinite = true) (h0 : 0.0 ≤ prior) {f : Frame} (hs : f.samples = c.samples)
    (he : f.empty = c.empty) (hp : Curve.peak c.samples (.double prior) = .double f.peak) :
    f.WellFormed prior := by
  have hbounds := Curve.build_bounds h
  obtain ⟨q, hq, -, hempty, hkept, hle⟩ := Curve.peak_of_build h h0
  obtain rfl : f.peak = q := Number.double.inj (hp.symm.trans hq)
  have hpos : c.empty = false → 0.0 < f.peak := by
    intro hc
    have hne := Curve.value_ne_zero_of_build h hc hle
    exact pos_iff.2 ⟨hasValue_of_nonneg f.peak_nonneg,
      (value_nonneg f.peak_nonneg).lt_of_ne hne.symm⟩
  constructor
  case samples_bounds => rwa [hs]
  case peak_finite => exact isFinite_peak_of_build h hf h0 hp
  case empty_iff_samples =>
    rw [hs, he, Curve.build_empty_iff h]
    exact forall₂_congr fun x hx => (beq_zero_iff.trans
      (and_iff_right (hasValue_of_nonneg (hbounds x hx).2))).symm
  case empty_iff_peak =>
    rw [he]
    constructor
    · intro hc
      rw [hempty hc]
      exact beq_zero_iff.2 ⟨hasValue_zero, value_zero⟩
    · intro hzero
      by_contra hc
      have hlt := (pos_iff.1 (hpos (Bool.of_not_eq_true hc))).2
      rw [(beq_zero_iff.1 hzero).2] at hlt
      exact lt_irrefl _ hlt
  case le_peak => rwa [hs]
  case peak_pos => rwa [he]
  case prior_le_peak =>
    intro hne
    rw [he] at hne
    exact (hkept hne).2

/-- Where there is a curve, its samples and the new peak are finite and not negative, however
many events there are; only the moment can keep them from being a frame, and the parts of the
frame agree on whether anything is shown. -/
theorem next_wellFormed (h : Curve.build g now activity = .ok c)
    (hf : prior.isFinite = true) (h0 : 0.0 ≤ prior) :
    (∀ x ∈ c.samples, x.isFinite = true ∧ 0.0 ≤ x) ∧
      ∃ peak, Curve.peak c.samples (.double prior) = .double peak ∧ peak.isFinite = true ∧
        0.0 ≤ peak ∧
        ((∃ cause, Validation.number now = .error cause ∧
            Frame.next g now activity (.double prior) =
              .error (.invalid [⟨[.field "now"], cause⟩])) ∨
          ∃ f, Frame.next g now activity (.double prior) = .ok f ∧ f.samples = c.samples ∧
            f.empty = c.empty ∧ f.peak = peak ∧ f.WellFormed prior) := by
  obtain ⟨peak, hpeak, hpeak0, -⟩ := Curve.peak_of_build h h0
  refine ⟨Curve.build_bounds h, peak, hpeak, isFinite_peak_of_build h hf h0 hpeak, hpeak0, ?_⟩
  rcases next_of_build h h0 with hcause | ⟨f, hnext, -, hs, he, hp⟩
  · exact .inl hcause
  · have hf' : f.peak = peak := Number.double.inj (hp.symm.trans hpeak)
    exact .inr ⟨f, hnext, hs, he, hf', wellFormed_of_build h hf h0 hs he hp⟩

end

/-- Two events after a frame with a peak of three: the peak stays. -/
theorem next_wellFormed_standard :
    ∃ f, Frame.next .standard (.double 250.0) (.arr [.double 0.0, .double 200.0])
        (.double 3.0) =
        .ok f ∧ f.WellFormed 3.0 ∧ f.empty = false ∧ 3.0 ≤ f.peak := by
  have hok : (Curve.build .standard (.double 250.0)
      (.arr [.double 0.0, .double 200.0])).toOption.map (·.empty) = some false := by
    decide +kernel
  cases hc : Curve.build .standard (.double 250.0) (.arr [.double 0.0, .double 200.0]) with
  | error fault =>
    rw [hc] at hok
    cases hok
  | ok c =>
    rw [hc, Except.toOption, Option.map_some, Option.some_inj] at hok
    obtain ⟨-, peak, -, -, -, ⟨cause, hcause, -⟩ | ⟨f, hf, -, he, -, hwf⟩⟩ :=
      next_wellFormed hc (by decide +kernel : (3.0 : Float).isFinite = true) (by decide +kernel)
    · cases hcause
    · have hfe := he.trans hok
      exact ⟨f, hf, hwf, hfe, hwf.prior_le_peak hfe⟩

end RateCurve.Frame
