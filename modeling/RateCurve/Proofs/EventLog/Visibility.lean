import RateCurve.Proofs.Curve.Blank
import RateCurve.Proofs.Curve.Horizon
import RateCurve.Proofs.EventLog.Retention
import RateCurve.Proofs.Station.Tick

namespace RateCurve
open Double

theorem Json.toNumber?_ofNumber (n : Number) : (Json.ofNumber n : Json).toNumber? = some n := by
  cases n <;> rfl

namespace EventLog

/-- A log with some retention is faithful to a layout if what it has forgotten never makes a
difference: whatever times of a kind were recorded before, and whatever was asked, a frame shows
the curve of all that was ever recorded. -/
def Faithful [Machine] (times : Number → Prop) (g : Geometry) (retention : Float) : Prop :=
  ∀ (ι : Type) (commands : List (Float × Command)) (now : Float), Orderly commands now →
    (∀ t ∈ commands.filterMap recorded?, times t) →
      ∀ s : Station EventLog ι, s.graph.geometry = g →
        s.source = runAll step { retention } commands →
          ∀ frame, (s.tick now).1 = .ok frame →
            ∃ c, Curve.build g (.double now)
                (.arr ((commands.filterMap recorded?).map .ofNumber)) = .ok c ∧
              c.samples = frame.samples ∧ c.empty = frame.empty

/-- Whatever is too old at a moment is blank at that moment. -/
def ForgetsBlanks [Machine] (times : Number → Prop) (g : Geometry) (retention : Float) : Prop :=
  ∀ now t, now.isFinite = true → t.IsFinite → times t →
    t.isBelow (.double (now - retention)) = true → Curve.Blank g (.double now) (.ofNumber t)

variable {times : Number → Prop} {g : Geometry} {retention : Float}

section

variable [Machine]

theorem faithful_of_forgetsBlanks (h : ForgetsBlanks times g retention) :
    Faithful times g retention := by
  intro ι commands now horderly htimes s hg hs frame hframe
  obtain ⟨c, hb, hsamples, hempty⟩ := Station.tick_eq_ok hframe
  obtain ⟨hfinite, hkept⟩ := entries_runAll retention horderly
  have hret := retention_runAll { retention } commands
  rw [hg, hs, entries_prune hfinite, hret, hkept] at hb
  refine ⟨c, ?_, hsamples.symm, hempty.symm⟩
  -- The filter of the times is a filter of the values that stand for them.
  let keep (v : Json) : Bool := v.toNumber?.all (isKept retention now)
  have hfilter : ((commands.filterMap recorded?).filter (isKept retention now)).map
      Json.ofNumber =
      ((commands.filterMap recorded?).map (Json.ofNumber (τ := String))).filter keep := by
    rw [List.filter_map]
    refine congrArg _ (List.filter_congr fun t _ => ?_)
    simp only [keep, Function.comp_apply, Json.toNumber?_ofNumber, Option.all_some]
  rw [hfilter] at hb
  refine Curve.build_of_filter (fun v hv hk => ?_) hb
  obtain ⟨t, ht, rfl⟩ := List.mem_map.1 hv
  simp only [keep, Json.toNumber?_ofNumber, Option.all_some, isKept, Bool.not_eq_false'] at hk
  exact h now t horderly.now_finite (horderly.recorded_finite t ht) (htimes t ht) hk

theorem Faithful.forgetsBlanks (h : Faithful times g retention)
    (hr : g.visibleAge = .ok retention) (hroom : g.makeRoom = .ok ()) :
    ForgetsBlanks times g retention := by
  intro now t hn ht htime hold
  obtain ⟨-, resolution, -, hres, -⟩ := Geometry.visibleAge_eq_ok hr
  -- One event is recorded and forgotten at once.
  let commands : List (Float × Command) := [(now, .record (some t))]
  have horderly : Orderly commands now := orderly_record hn ht
  let s : Station EventLog String :=
    { graph := { geometry := g }, source := runAll step { retention } commands, pause := 0.0 }
  obtain ⟨hfinite, hkept⟩ := entries_runAll retention horderly
  have hentries : (s.source.prune now).entries = [] := by
    rw [entries_prune hfinite, retention_runAll, hkept, List.filter_eq_nil_iff]
    intro s hs
    rw [List.mem_singleton.1 hs, isKept, Option.getD_some, hold]
    decide
  have hbuild :
      Curve.build g (.double now) (.arr ((s.source.prune now).entries.map .ofNumber)) =
      .ok (Curve.ofSamples (Curve.draw g.count [])) := by
    rw [hentries]
    exact Curve.build_eq_ok_iff.2 ⟨resolution, [], [], hres, rfl, rfl, hroom, rfl⟩
  obtain ⟨frame, hframe, -, hempty⟩ := Station.tick_of_build (s := s) hbuild
  have htimes : ∀ s ∈ commands.filterMap recorded?, times s := fun s hs => by
    cases List.mem_singleton.1 hs
    exact htime
  obtain ⟨c, hc, -, hce⟩ := h String commands now horderly htimes s rfl rfl frame hframe
  refine ⟨c, hc, ?_⟩
  rw [hce, hempty, Curve.build_empty_iff hbuild]
  intro x hx
  rw [(Array.mem_replicate.1 hx).2, value_zero]

/-- With the retention that a layout asks for, a log is faithful to the layout, whatever the
kind of times recorded, just where there is no room for a curve anyway or what is too old is
blank. -/
theorem faithful_iff (times : Number → Prop) (hr : g.visibleAge = .ok retention) :
    Faithful times g retention ↔ g.makeRoom ≠ .ok () ∨ ForgetsBlanks times g retention := by
  constructor
  · intro h
    by_cases hroom : g.makeRoom = .ok ()
    · exact .inr (h.forgetsBlanks hr hroom)
    · exact .inl hroom
  · rintro (hroom | h)
    · intro ι commands now _ _ s hg _ frame hframe
      obtain ⟨c, hb, -⟩ := Station.tick_eq_ok hframe
      rw [hg] at hb
      obtain ⟨-, -, -, -, -, -, hok, -⟩ := Curve.build_eq_ok_iff.1 hb
      exact absurd hok hroom
    · exact faithful_of_forgetsBlanks h

end

/-- The usual layout draws an event of the very age at which it may be forgotten, so that a log
with the retention it asks for is not faithful to it, even if only doubles are recorded. -/
theorem faithful_iff_standard :
    ∃ retention, Geometry.standard.visibleAge = .ok retention ∧
      Geometry.standard.makeRoom = .ok () ∧
      ¬Faithful (fun t => t matches .double _) .standard retention := by
  refine ⟨_, rfl, rfl, fun h => ?_⟩
  have hforgets := ((faithful_iff _ rfl).1 h).resolve_left fun hroom => hroom rfl
  have hblank := hforgets 66937.50234152515 (.double (-5e-324)) (by decide +kernel)
    (by decide +kernel) rfl (by decide +kernel)
  exact Curve.not_blank_of_contribution? rfl (by decide : 599 < 600) (by decide +kernel) hblank

/-- A layout of one sample with a floor beside which the width of a hump is lost. -/
def towering : Geometry :=
  { window := 1
    resolution := 1
    floor := 1e300
    resolution_pos := by decide
    resolution_le_window := by decide
    floor_pos := by decide +kernel }

/-- Beside a large floor the retention comes out negative, and an event of this very moment,
which a curve would show, is forgotten at once. -/
theorem not_faithful_towering :
    ∃ retention, towering.visibleAge = .ok retention ∧ retention < 0.0 ∧
      ¬Faithful (fun t => t matches .double _) towering retention := by
  refine ⟨_, rfl, by decide +kernel, fun h => ?_⟩
  have hblank := h.forgetsBlanks rfl rfl 0.0 (.double 0.0) (by decide +kernel)
    (by decide +kernel) rfl (by decide +kernel)
  exact Curve.not_blank_of_contribution? rfl (by decide : 0 < 1) (by decide +kernel) hblank

end EventLog

end RateCurve
