import RateCurve.Proofs.EventLog.Retention
import RateCurve.Proofs.Graph.Scale
import RateCurve.Station

namespace RateCurve.Station
open Double

variable {ι : Type} {s : Station EventLog ι} {now : Float}

section

variable [Machine]

theorem tick_eq_ok {frame : Frame} (h : (s.tick now).1 = .ok frame) :
    ∃ c, Curve.build s.graph.geometry (.double now)
        (.arr ((s.source.prune now).entries.map .ofNumber)) = .ok c ∧
      frame.samples = c.samples ∧ frame.empty = c.empty := by
  rcases s.graph.step_cases
    (.double now, .arr ((s.source.prune now).entries.map .ofNumber)) with
    ⟨fault, hstep⟩ | ⟨c, f, hb, hstep, -, hsamples, hempty, -⟩
  · cases (congrArg Prod.fst hstep).symm.trans h
  · cases (congrArg Prod.fst hstep).symm.trans h
    exact ⟨c, hb, hsamples, hempty⟩

/-- Where there is a curve, there is a frame of it: the moment is a double already. -/
theorem tick_of_build {c : Curve}
    (h : Curve.build s.graph.geometry (.double now)
      (.arr ((s.source.prune now).entries.map .ofNumber)) = .ok c) :
    ∃ frame, (s.tick now).1 = .ok frame ∧ frame.samples = c.samples ∧
    frame.empty = c.empty := by
  rcases Graph.step_of_build h with ⟨cause, -, hn, -⟩ | ⟨f, hstep, -, hs, he, -⟩
  · cases hn
  · exact ⟨f, congrArg Prod.fst hstep, hs, he⟩

theorem sent_iterate {up : ι → Bool} {frame : Frame} (h : (s.tick now).1 = .ok frame)
    (hv : s.viewers.isEmpty = false) :
    (s.iterate up now).1.sent = (s.viewers.reached up).map (·, frame.text) := by
  rw [iterate, hv, if_neg Bool.false_ne_true]
  have hviewers : (s.tick now).2.viewers = s.viewers := rfl
  cases htick : s.tick now with
  | mk outcome t =>
    rw [htick] at h hviewers
    cases h
    change t.viewers = s.viewers at hviewers
    simp only [broadcast, hviewers]

end

/-- A station with a layout and a retention whose log has finite doubles only. -/
structure Steady (g : Geometry) (retention : Float) (s : Station EventLog ι) : Prop where
  geometry_eq : s.graph.geometry = g
  retention_eq : s.source.retention = retention
  entries_double : ∀ t ∈ s.source.entries, ∃ x : Float, t = .double x ∧ x.isFinite = true

section

variable {g : Geometry} {retention : Float}

theorem Steady.isNumber (h : Steady g retention s) : ∀ t ∈ s.source.entries, t.IsNumber := by
  intro t ht
  obtain ⟨x, rfl, hx⟩ := h.entries_double t ht
  exact hasValue_of_isFinite hx

theorem Steady.prune (h : Steady g retention s) (now : Float) :
    Steady g retention { s with source := s.source.prune now } := by
  refine ⟨h.geometry_eq, (EventLog.retention_prune _ _).trans h.retention_eq, fun t ht => ?_⟩
  rw [EventLog.entries_prune h.isNumber] at ht
  exact h.entries_double t (List.mem_of_mem_filter ht)

theorem Steady.record (h : Steady g retention s) (hn : now.isFinite = true)
    {time : Option Float} (ht : ∀ x ∈ time, x.isFinite = true) :
    Steady g retention { s with source := s.source.record now (time.map .double) } := by
  let log : EventLog :=
    { s.source with
      entries := s.source.entries ++ [(time.map Number.double).getD (.double now)]
      total := s.source.total + 1 }
  have hlog : Steady g retention { s with source := log } := by
    refine ⟨h.geometry_eq, h.retention_eq, fun t hmem => ?_⟩
    rcases List.mem_append.1 hmem with hmem | hmem
    · exact h.entries_double t hmem
    · rw [List.mem_singleton.1 hmem]
      cases time with
      | none => exact ⟨now, rfl, hn⟩
      | some x => exact ⟨x, rfl, ht x rfl⟩
  exact hlog.prune now

variable [Machine]

theorem Steady.tick (h : Steady g retention s) (now : Float) :
    Steady g retention (s.tick now).2 := by
  have hp := h.prune now
  refine ⟨?_, hp.retention_eq, hp.entries_double⟩
  rcases s.graph.step_cases
    (.double now, .arr ((s.source.prune now).entries.map .ofNumber)) with
    ⟨fault, hstep⟩ | ⟨c, f, -, hstep, -⟩
  · exact (congrArg (·.2.geometry) hstep).trans h.geometry_eq
  · exact (congrArg (·.2.geometry) hstep).trans h.geometry_eq

theorem Steady.iterate (h : Steady g retention s) (up : ι → Bool) (now : Float) :
    Steady g retention (s.iterate up now).2 := by
  unfold Station.iterate
  split_ifs
  · exact h
  · have ht := h.tick now
    cases htick : s.tick now with
    | mk frame s' =>
      rw [htick] at ht
      cases frame <;> exact ⟨ht.geometry_eq, ht.retention_eq, ht.entries_double⟩

theorem Steady.start (h : Steady g retention s) (up : ι → Bool) (now : Float) :
    Steady g retention (s.start up now).2 := by
  unfold Station.start
  split_ifs
  · exact h
  · exact Steady.iterate (s := { s with running := true })
      ⟨h.geometry_eq, h.retention_eq, h.entries_double⟩ up now

theorem Steady.advance (h : Steady g retention s) (up : ι → Bool) (now : Float) :
    Steady g retention (s.advance up now).2 := by
  unfold Station.advance
  split_ifs
  · exact h.iterate up now
  · exact h

end

end RateCurve.Station
