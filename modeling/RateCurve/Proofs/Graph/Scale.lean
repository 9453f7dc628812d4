import RateCurve.Graph
import RateCurve.Proofs.Frame
import RateCurve.Trace

namespace RateCurve
open Double

namespace Graph

theorem peak_nonneg (s : Graph) : 0.0 ≤ s.peak := by
  unfold peak
  cases s.last with
  | none => exact zero_nonneg
  | some f => exact f.peak_nonneg

section

variable [Machine]

theorem step_of_build_error {s : Graph} {now activity : Json} {fault : Fault}
    (h : Curve.build s.geometry now activity = .error fault) :
    s.step (now, activity) = (.error fault, s) := by
  rw [show s.step (now, activity) = s.refresh now activity from rfl, refresh,
    Frame.next_of_build_error h]

theorem step_of_build {s : Graph} {now activity : Json} {c : Curve}
    (h : Curve.build s.geometry now activity = .ok c) :
    (∃ cause fault, Validation.number now = .error cause ∧
        s.step (now, activity) = (.error fault, s)) ∨
      ∃ f, s.step (now, activity) = (.ok f, { s with last := some f }) ∧
        Validation.number now = .ok f.now ∧ f.samples = c.samples ∧ f.empty = c.empty ∧
        Curve.peak c.samples (.double s.peak) = .double f.peak := by
  rw [show s.step (now, activity) = s.refresh now activity from rfl, refresh]
  rcases Frame.next_of_build h s.peak_nonneg with ⟨cause, hn, hf⟩ | ⟨f, hf, hn, hs, he, hp⟩
  · rw [hf]
    exact .inl ⟨cause, _, hn, rfl⟩
  · rw [hf]
    exact .inr ⟨f, rfl, hn, hs, he, hp⟩

/-- A call either fails and leaves the display as it is, or shows a frame of the curve. -/
theorem step_cases (s : Graph) (call : Json × Json) :
    (∃ fault, s.step call = (.error fault, s)) ∨
      ∃ c f, Curve.build s.geometry call.1 call.2 = .ok c ∧
        s.step call = (.ok f, { s with last := some f }) ∧
        Validation.number call.1 = .ok f.now ∧ f.samples = c.samples ∧ f.empty = c.empty ∧
        Curve.peak c.samples (.double s.peak) = .double f.peak := by
  obtain ⟨now, activity⟩ := call
  cases hb : Curve.build s.geometry now activity with
  | error fault => exact .inl ⟨fault, step_of_build_error hb⟩
  | ok c =>
    rcases step_of_build hb with ⟨-, fault, -, hstep⟩ | ⟨f, hstep, hf⟩
    · exact .inl ⟨fault, hstep⟩
    · exact .inr ⟨c, f, rfl, hstep, hf⟩

end

def frames (outcomes : List (Except Fault Frame × Graph)) : List Frame :=
  outcomes.filterMap (·.1.toOption)

def sinceEmpty (shown : List Frame) : List Frame :=
  shown.rtakeWhile (!·.empty)

/-- A display shows the last of some frames at the scale of the largest sample since the last
empty one. -/
structure Scaled (s : Graph) (shown : List Frame) : Prop where
  last_eq : s.last = shown.getLast?
  peak_eq_zero : sinceEmpty shown = [] → s.peak = 0.0
  peak_mem : sinceEmpty shown ≠ [] → ∃ f ∈ sinceEmpty shown, s.peak ∈ f.samples
  le_peak : ∀ f ∈ sinceEmpty shown, ∀ x ∈ f.samples, x ≤ s.peak
  last_le_peak : ∀ f ∈ s.last, ∀ x ∈ f.samples, x ≤ s.peak

theorem scaled_initial (g : Geometry) : Scaled { geometry := g } [] :=
  ⟨rfl, fun _ => rfl, fun h => absurd rfl h, nofun, nofun⟩

theorem Scaled.step [Machine] {s : Graph} {shown : List Frame} (h : Scaled s shown)
    (call : Json × Json) :
    Scaled (s.step call).2 (shown ++ (s.step call).1.toOption.toList) := by
  rcases step_cases s call with ⟨fault, hstep⟩ | ⟨c, f, hb, hstep, -, hsamples, hempty, hpeak⟩
  · rw [hstep, Except.toOption, Option.toList_none, List.append_nil]
    exact h
  · rw [hstep, Except.toOption, Option.toList_some]
    obtain ⟨q, hq, -, hzero, hkept, hle⟩ := Curve.peak_of_build hb s.peak_nonneg
    obtain rfl : f.peak = q := Number.double.inj (hpeak.symm.trans hq)
    rw [← hsamples] at hkept hle
    rw [← hempty] at hzero hkept
    have hlast : some f = (shown ++ [f]).getLast? := List.getLast?_concat.symm
    have hlast_le : ∀ f' ∈ some f, ∀ x ∈ f'.samples, x ≤ f.peak := by
      rintro f' ⟨⟩
      exact hle
    cases he : f.empty with
    | true =>
      have hsince : sinceEmpty (shown ++ [f]) = [] :=
        List.rtakeWhile_concat_neg _ _ f (by rw [he]; decide)
      exact ⟨hlast, fun _ => hzero he, fun hne => absurd hsince hne,
        fun f' hf' => absurd (hsince ▸ hf') List.not_mem_nil, hlast_le⟩
    | false =>
      have hsince : sinceEmpty (shown ++ [f]) = sinceEmpty shown ++ [f] :=
        List.rtakeWhile_concat_pos _ _ f (by rw [he]; decide)
      obtain ⟨hmem, hpq⟩ := hkept he
      refine ⟨hlast, fun hnil => ?_, fun _ => ?_, fun f' hf' x hx => ?_, hlast_le⟩
      · rw [hsince] at hnil
        exact absurd hnil (List.append_ne_nil_of_right_ne_nil _ (List.cons_ne_nil f []))
      · rw [hsince]
        rcases hmem with ⟨heq, hne⟩ | hmem
        · -- The scale before was not zero, so it was a sample.
          have hold : sinceEmpty shown ≠ [] := fun hnil =>
            hne ((congrArg value (h.peak_eq_zero hnil)).trans value_zero)
          obtain ⟨f', hf', hmem⟩ := h.peak_mem hold
          rw [← heq] at hmem
          exact ⟨f', List.mem_append_left _ hf', hmem⟩
        · exact ⟨f, List.mem_append_right _ List.mem_cons_self, hmem⟩
      · rw [hsince] at hf'
        rcases List.mem_append.1 hf' with hf' | hf'
        · exact Double.le_trans (h.le_peak f' hf' x hx) hpq
        · rw [List.mem_singleton.1 hf'] at hx
          exact hle x hx

theorem frames_append (outcomes others : List (Except Fault Frame × Graph)) :
    frames (outcomes ++ others) = frames outcomes ++ frames others :=
  List.filterMap_append

theorem frames_singleton (outcome : Except Fault Frame × Graph) :
    frames [outcome] = outcome.1.toOption.toList := by
  obtain ⟨fault | f, s⟩ := outcome <;> rfl

section

variable [Machine]

theorem scaled_runAll (g : Geometry) (calls : List (Json × Json)) :
    Scaled (runAll step { geometry := g } calls)
    (frames (trace step { geometry := g } calls)) := by
  induction calls using List.reverseRecOn with
  | nil => exact scaled_initial g
  | append_singleton calls call ih =>
    rw [runAll_append, trace_append, frames_append]
    have h := ih.step call
    rw [← frames_singleton] at h
    exact h

theorem wellFormed_of_step {s : Graph} {call : Json × Json} {f : Frame}
    (h : (s.step call).1 = .ok f) (hs : s.peak.isFinite = true) :
    f.WellFormed s.peak ∧ f.samples.size = s.geometry.count := by
  rcases step_cases s call with ⟨fault, hstep⟩ | ⟨c, f', hb, hstep, -, hsamples, hempty, hpeak⟩
  · rw [hstep] at h
    cases h
  · rw [hstep] at h
    cases h
    exact ⟨Frame.wellFormed_of_build hb hs s.peak_nonneg hsamples hempty hpeak,
      hsamples ▸ Curve.size_of_build hb⟩

theorem isFinite_peak_step {s : Graph} (call : Json × Json) (hs : s.peak.isFinite = true) :
    (s.step call).2.geometry = s.geometry ∧ (s.step call).2.peak.isFinite = true := by
  rcases step_cases s call with ⟨fault, hstep⟩ | ⟨c, f, -, hstep, -⟩
  · rw [hstep]
    exact ⟨rfl, hs⟩
  · have hf := (wellFormed_of_step (congrArg Prod.fst hstep) hs).1
    rw [hstep]
    exact ⟨rfl, hf.peak_finite⟩

theorem wellFormed_of_mem_frames {s : Graph} (hs : s.peak.isFinite = true)
    {calls : List (Json × Json)} {f : Frame} (hf : f ∈ frames (trace step s calls)) :
    ∃ prior, f.WellFormed prior ∧ f.samples.size = s.geometry.count := by
  induction calls generalizing s with
  | nil => exact absurd hf List.not_mem_nil
  | cons call calls ih =>
    obtain ⟨hgeometry, hpeak⟩ := isFinite_peak_step call hs
    obtain ⟨outcome, ho, hf⟩ := List.mem_filterMap.1 hf
    rcases List.mem_cons.1 ho with rfl | ho
    · have hok : (s.step call).1 = .ok f := by
        cases hfst : (s.step call).1 with
        | error fault => rw [hfst] at hf; cases hf
        | ok f' => rw [hfst] at hf; cases hf; rfl
      exact ⟨s.peak, wellFormed_of_step hok hs⟩
    · rw [← hgeometry]
      exact ih hpeak (List.mem_filterMap.2 ⟨outcome, ho, hf⟩)

end

theorem sinceEmpty_eq_nil_iff {shown : List Frame} :
    sinceEmpty shown = [] ↔ ∀ f ∈ shown.getLast?, f.empty = true := by
  induction shown using List.reverseRecOn with
  | nil => exact ⟨fun _ => nofun, fun _ => rfl⟩
  | append_singleton shown f _ =>
    rw [sinceEmpty, List.rtakeWhile_concat]
    cases he : f.empty with
    | true => simp [he]
    | false => simp [he]

variable [Machine]

theorem peak_le_step (s : Graph) (call : Json × Json)
    (h : ∀ f, (s.step call).1 = .ok f → f.empty = false) : s.peak ≤ (s.step call).2.peak := by
  rcases step_cases s call with ⟨fault, hstep⟩ | ⟨c, f, hb, hstep, -, hsamples, hempty, hpeak⟩
  · rw [hstep]
    exact Double.le_refl (hasValue_of_nonneg s.peak_nonneg)
  · rw [hstep] at h ⊢
    obtain ⟨q, hq, -, -, hkept, -⟩ := Curve.peak_of_build hb s.peak_nonneg
    obtain rfl : f.peak = q := Number.double.inj (hpeak.symm.trans hq)
    exact (hkept (hempty ▸ h f rfl)).2

theorem peak_le_runAll (s : Graph) (calls : List (Json × Json))
    (h : ∀ f ∈ frames (trace step s calls), f.empty = false) :
    s.peak ≤ (runAll step s calls).peak := by
  induction calls generalizing s with
  | nil => exact Double.le_refl (hasValue_of_nonneg s.peak_nonneg)
  | cons call calls ih =>
    have hsplit : frames (trace step s (call :: calls)) =
        (s.step call).1.toOption.toList ++ frames (trace step (s.step call).2 calls) := by
      rw [← frames_singleton, ← frames_append]
      rfl
    rw [hsplit] at h
    have hstep : s.peak ≤ (s.step call).2.peak := peak_le_step s call fun f hf =>
      h f (List.mem_append_left _ (by rw [hf]; exact List.mem_cons_self))
    exact Double.le_trans hstep (ih _ fun f hf => h f (List.mem_append_right _ hf))

theorem step_of_error {s : Graph} {call : Json × Json} {fault : Fault}
    (h : (s.step call).1 = .error fault) : (s.step call).2 = s := by
  rcases step_cases s call with ⟨fault, hstep⟩ | ⟨c, f, -, hstep, -⟩
  · rw [hstep]
  · rw [hstep] at h
    cases h

/-- After any run of calls the scale of a display is zero if nothing is shown or the frame shown
is empty, and otherwise the largest sample of the frames since the last empty one. It does not
fall while no empty frame is shown, no sample shown is above it, and a call that fails might as
well not have been made. -/
theorem peak_of_run (g : Geometry) (calls : List (Json × Json)) :
    let start : Graph := { geometry := g }
    let s := runAll step start calls
    let shown := frames (trace step start calls)
    s.last = shown.getLast? ∧
      ((∀ f ∈ shown.getLast?, f.empty = true) → s.peak = 0.0) ∧
      ((∃ f ∈ shown.getLast?, f.empty = false) →
        (∃ f ∈ sinceEmpty shown, s.peak ∈ f.samples) ∧
          ∀ f ∈ sinceEmpty shown, ∀ x ∈ f.samples, x ≤ s.peak) ∧
      (∀ f ∈ s.last, ∀ x ∈ f.samples, x ≤ s.peak) ∧
      (∀ before after, calls = before ++ after →
        (∀ f ∈ frames (trace step (runAll step start before) after), f.empty = false) →
          (runAll step start before).peak ≤ s.peak) ∧
      ∀ before call after fault, calls = before ++ call :: after →
        ((runAll step start before).step call).1 = .error fault →
          runAll step start (before ++ after) = s ∧
            trace step start (before ++ after) =
              (trace step start calls).eraseIdx before.length := by
  intro start s shown
  have h : Scaled s shown := scaled_runAll g calls
  refine ⟨h.last_eq, fun hempty => h.peak_eq_zero (sinceEmpty_eq_nil_iff.2 hempty), ?_,
    h.last_le_peak, ?_, ?_⟩
  · rintro ⟨f, hf, hne⟩
    refine ⟨h.peak_mem fun hnil => ?_, h.le_peak⟩
    rw [sinceEmpty_eq_nil_iff.1 hnil f hf] at hne
    cases hne
  · rintro before after rfl hafter
    have := peak_le_runAll _ after hafter
    rwa [← runAll_append] at this
  · rintro before call after fault rfl hcall
    have hstay := step_of_error hcall
    have hrun : runAll step (runAll step start before) (call :: after) =
        runAll step (runAll step start before) after := congrArg (runAll step · after) hstay
    refine ⟨?_, ?_⟩
    · rw [runAll_append, ← hrun, ← runAll_append]
    · rw [trace_append, trace_append, List.eraseIdx_append_of_length_le (by rw [length_trace]),
        length_trace, Nat.sub_self, trace, List.eraseIdx_cons_zero, hstay]

end Graph

end RateCurve
