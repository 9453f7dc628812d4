import RateCurve.Proofs.EventLog.Retention
import RateCurve.Proofs.Graph.Scale
import RateCurve.Proofs.Station.Round

namespace RateCurve
open Double

namespace Graph

theorem foldl_larger_eq {xs : List Float} {p : Float} (h : ∀ x ∈ xs, x ≤ p) :
    xs.foldl (fun peak x => if peak.isBelow (.double x) then .double x else peak)
      (Number.double p) = .double p := by
  induction xs with
  | nil => rfl
  | cons x xs ih =>
    obtain ⟨hx, hxs⟩ := List.forall_mem_cons.1 h
    rw [List.foldl_cons, if_neg, ih hxs]
    rw [Number.isBelow, decide_eq_true_eq]
    exact fun hlt => (le_iff.1 hx).2.2.not_gt (lt_iff.1 hlt).2.2

theorem peak_peak [Machine] {g : Geometry} {now activity : Json} {c : Curve}
    (hc : Curve.build g now activity = .ok c) {p q : Float} (hp : 0.0 ≤ p)
    (h : Curve.peak c.samples (.double p) = .double q) :
    Curve.peak c.samples (.double q) = .double q := by
  obtain ⟨q', hq', -, -, -, hle⟩ := Curve.peak_of_build hc hp
  obtain rfl : q = q' := Number.double.inj (h.symm.trans hq')
  unfold Curve.peak at h ⊢
  split_ifs at h ⊢
  · exact h
  · rw [← Array.foldl_toList]
    exact foldl_larger_eq fun x hx => hle x (Array.mem_toList_iff.1 hx)

end Graph

theorem Frame.next_of_peak_eq [Machine] {g : Geometry} {now activity : Json} {c : Curve}
    (hc : Curve.build g now activity = .ok c) {p q : Float}
    (h : Curve.peak c.samples (.double p) = Curve.peak c.samples (.double q)) :
    Frame.next g now activity (.double p) = Frame.next g now activity (.double q) := by
  simp only [Frame.next, hc, bind, Except.bind, Json.toNumber?, Option.elim, h]

namespace Graph

variable [Machine]

theorem step_of_next {s : Graph} {now activity : Json} {f : Frame}
    (h : Frame.next s.geometry now activity (.double s.peak) = .ok f) :
    s.step (now, activity) = (.ok f, { s with last := some f }) := by
  rw [step, refresh, h]

theorem next_of_step {s : Graph} {now activity : Json} {f : Frame}
    (h : (s.step (now, activity)).1 = .ok f) :
    Frame.next s.geometry now activity (.double s.peak) = .ok f := by
  rw [step, refresh] at h
  cases hn : Frame.next s.geometry now activity (.double s.peak) with
  | error fault => rw [hn] at h; cases h
  | ok f' => rw [hn] at h; cases h; rfl

theorem step_step (s : Graph) (call : Json × Json) :
    (s.step call).2.step call = s.step call := by
  rcases step_cases s call with ⟨fault, hstep⟩ | ⟨c, f, hc, hstep, -, -, -, hpeak⟩
  · rw [hstep]
    exact hstep
  · have hagain := peak_peak hc s.peak_nonneg hpeak
    have hnext := next_of_step (congrArg Prod.fst hstep)
    rw [Frame.next_of_peak_eq hc (hpeak.trans hagain.symm)] at hnext
    rw [hstep]
    exact step_of_next hnext

end Graph

namespace Station

variable {σ ι : Type} [Feed σ] [Machine]

/-- Drawing a frame again, from the same events, shows the same frame. -/
theorem tick_tick {s : Station σ ι} {now : Float}
    (h : (Feed.pull (Feed.pull s.source now).2 now).1 = (Feed.pull s.source now).1) :
    (s.tick now).2.tick now =
      ((s.tick now).1,
        { (s.tick now).2 with source := (Feed.pull (Feed.pull s.source now).2 now).2 }) := by
  unfold tick
  cases hp : Feed.pull s.source now with
  | mk events source =>
    rw [hp] at h
    cases hp' : Feed.pull source now with
    | mk events' source' =>
      rw [hp'] at h
      cases h
      cases events with
      | error fault => simp only [hp']
      | ok events =>
        have hstep := s.graph.step_step (.double now, events)
        simp only [Graph.step] at hstep
        simp only [hp', hstep]

section

variable (s : Station σ ι) (viewers : Audience ι) (running : Bool) (now : Float)

theorem tick_with :
    { s with viewers, running }.tick now =
      ((s.tick now).1, { (s.tick now).2 with viewers, running }) := by
  unfold tick
  cases Feed.pull s.source now with
  | mk events source => cases events <;> rfl

theorem viewers_tick : (s.tick now).2.viewers = s.viewers := by
  rcases s.tick_cases now with ⟨fault, h⟩ | ⟨frame, h⟩ <;> rw [h]

theorem running_tick : (s.tick now).2.running = s.running := by
  rcases s.tick_cases now with ⟨fault, h⟩ | ⟨frame, h⟩ <;> rw [h]

theorem pause_tick : (s.tick now).2.pause = s.pause := by
  rcases s.tick_cases now with ⟨fault, h⟩ | ⟨frame, h⟩ <;> rw [h]

theorem source_tick : (s.tick now).2.source = (Feed.pull s.source now).2 := by
  rcases s.tick_cases now with ⟨fault, h⟩ | ⟨frame, h⟩ <;> rw [h]

theorem iterate_eq_tick {s : Station σ ι} (up : ι → Bool) (hv : s.viewers.isEmpty = false) :
    ∃ viewers, (s.iterate up now).2 = { (s.tick now).2 with viewers } := by
  rw [iterate, hv, if_neg Bool.false_ne_true]
  cases s.tick now with
  | mk outcome t =>
    cases outcome with
    | error fault => exact ⟨t.viewers, rfl⟩
    | ok frame => exact ⟨t.viewers.filter up, rfl⟩

end

end Station

section

variable (now : Float)

theorem pull_pull_log (log : EventLog) :
    Feed.pull (Feed.pull log now).2 now = Feed.pull log now := by
  simp only [Feed.pull, EventLog.prune_prune]

/-- A source that is asked twice at a moment answers the same twice. The second time a log has
nothing left to forget, and a fixed answer is still the same. -/
theorem pull_pull_source (s : Source) :
    (Feed.pull (Feed.pull s now).2 now).1 = (Feed.pull s now).1 ∧
      (Feed.pull (Feed.pull s now).2 now).2.log? = (Feed.pull s now).2.log? ∧
      (Feed.pull (Feed.pull s now).2 now).2.fixed?.map (·.events) =
        (Feed.pull s now).2.fixed?.map (·.events) := by
  cases s with
  | log log =>
    change (Feed.pull (Feed.pull log now).2 now).1 = (Feed.pull log now).1 ∧
      some (Feed.pull (Feed.pull log now).2 now).2 = some (Feed.pull log now).2 ∧ none = none
    rw [pull_pull_log]
    exact ⟨rfl, rfl, rfl⟩
  | fixed f => exact ⟨rfl, rfl, rfl⟩

end

namespace Station

theorem tick_tick_source [Machine] {ι : Type} (s : Station Source ι) (now : Float) :
    ((s.tick now).2.tick now).1 = (s.tick now).1 ∧
      ((s.tick now).2.tick now).2.graph = (s.tick now).2.graph ∧
      ((s.tick now).2.tick now).2.source.log? = (s.tick now).2.source.log? ∧
      ((s.tick now).2.tick now).2.source.fixed?.map (·.events) =
        (s.tick now).2.source.fixed?.map (·.events) := by
  obtain ⟨hpull, hlog, hfixed⟩ := pull_pull_source now s.source
  rw [Station.tick_tick hpull, source_tick]
  exact ⟨rfl, rfl, hlog, hfixed⟩

variable [Machine] {ι : Type} {s : Station EventLog ι} {now : Float}

theorem tick_tick_log (s : Station EventLog ι) (now : Float) :
    (s.tick now).2.tick now = s.tick now := by
  have hpull := pull_pull_log now s.source
  rw [tick_tick (congrArg Prod.fst hpull), hpull, ← source_tick]

theorem iterate_tick (up : ι → Bool) (hv : s.viewers.isEmpty = false) :
    (s.tick now).2.iterate up now = s.iterate up now := by
  have hpause := s.pause_tick now
  rw [iterate, viewers_tick, hv, tick_tick_log, iterate, hv]
  simp only [Bool.false_eq_true, if_false, hpause]

theorem tick_iterate (up : ι → Bool) (hv : s.viewers.isEmpty = false) :
    ((s.iterate up now).2.tick now).2 = (s.iterate up now).2 := by
  obtain ⟨viewers, h⟩ := iterate_eq_tick now up hv
  rw [h]
  exact (congrArg Prod.snd ((s.tick now).2.tick_with viewers (s.tick now).2.running now)).trans
    (by rw [tick_tick_log])

end Station

end RateCurve
