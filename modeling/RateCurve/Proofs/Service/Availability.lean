import RateCurve.Proofs.Curve.Horizon
import RateCurve.Proofs.Query
import RateCurve.Proofs.Station.Tick
import RateCurve.Service

namespace RateCurve
open Double

theorem Double.value_zero_sub_le {x : Float} (h : HasValue x) (hx : value largest ≤ value x) :
    value (0.0 - x) ≤ -value largest := by
  by_cases hf : x.isFinite = true
  · have hn := nearestTo_sub isFinite_zero hf
    rw [← value_neg]
    apply hn.ge
    rw [value_neg, value_zero, zero_sub]
    exact neg_le_neg hx
  · have hl := value_nonneg largest_nonneg
    have hinf := unpack_infinity_sub isFinite_zero
      (unpack_eq_infinity_of_nonneg h (Bool.of_not_eq_true hf) (hl.trans hx))
    rw [value_of_infinity hinf, show factor (-.positive) = -1 from rfl, neg_one_mul]
    exact neg_le_neg (abs_le.1 (abs_value_le largest)).2

/-- With a retention that is not less than the largest double, the earliest date of all is never
too old at the moment zero. -/
theorem EventLog.isKept_earliest {retention : Float} (h : ¬retention < largest) :
    isKept retention 0.0 (.double (-largest)) = true := by
  rw [isKept, Bool.not_eq_true', ← Bool.not_eq_true, Number.isBelow, decide_eq_true_eq, lt_iff]
  rintro ⟨-, hv, hlt⟩
  have hr := hasValue_of_sub hv
  have hle := value_zero_sub_le hr (not_lt.1 fun hlt =>
    h (lt_iff.2 ⟨hr, hasValue_of_isFinite isFinite_largest, hlt⟩))
  rw [value_neg] at hlt
  exact absurd hlt (not_lt.2 hle)

/-- Where there is room for the samples and no event that a log keeps has a position at which
the width of its hump is infinite, there is a frame. -/
theorem Station.tick_isOk [Machine] {ι : Type} {s : Station EventLog ι} {g : Geometry}
    {retention now : Float} (h : Steady g retention s) (hr : g.visibleAge = .ok retention)
    (hroom : g.makeRoom = .ok ()) (hor : retention < largest ∨
      (largest * (1.0 / ofInt g.resolution) + g.floor).isFinite = true)
    (hn : now.isFinite = true) : ∃ frame, (s.tick now).1 = .ok frame := by
  obtain ⟨n, resolution, -, hres, -⟩ := Geometry.visibleAge_eq_ok hr
  obtain ⟨rfl, -⟩ := ofInt?_eq_ok hres
  have hentries := EventLog.entries_prune h.isNumber now
  rw [h.retention_eq] at hentries
  obtain ⟨hs, hhs⟩ : ∃ hs, Curve.humps g (1.0 / ofInt g.resolution) (.double now)
      ((s.source.prune now).entries.map .ofNumber) = .ok hs := by
    apply (Curve.humps_isOk_iff hroom).2
    intro event hevent age ha
    obtain ⟨t, ht, rfl⟩ := List.mem_map.1 hevent
    rw [hentries] at ht
    obtain ⟨hmem, hkept⟩ := List.mem_filter.1 ht
    obtain ⟨x, rfl, hx⟩ := h.entries_double t hmem
    obtain ⟨haf, ha0⟩ := age?_bounds ha
    obtain rfl := sub_eq_of_age? ha
    obtain ⟨hcf, hc0⟩ := centre_bounds hres haf ha0
    refine (Hump.at?_isOk_iff hcf hc0).2 ?_
    refine Geometry.isFinite_centre_add_floor hr hres hor hn hx (fun hlt => ?_) haf ha0
    rw [EventLog.isKept, Number.isBelow, decide_eq_true hlt] at hkept
    cases hkept
  have hb : Curve.build s.graph.geometry (.double now)
      (.arr ((s.source.prune now).entries.map .ofNumber)) =
      .ok (Curve.ofSamples (Curve.draw g.count hs)) := by
    rw [h.geometry_eq]
    exact Curve.build_eq_ok_iff.2 ⟨_, _, hs, hres, rfl, hhs, hroom, rfl⟩
  obtain ⟨frame, hframe, -⟩ := tick_of_build hb
  exact ⟨frame, hframe⟩

namespace Service

theorem ofEnvironment_eq_ok {env : List (String × String)} {s : Service}
    (h : ofEnvironment env = .ok s) :
    s.station.graph.geometry.visibleAge = .ok s.station.source.retention ∧
      s.station.source.entries = [] := by
  simp only [ofEnvironment, bind_eq_ok, mapError_eq_ok] at h
  obtain ⟨settings, -, h⟩ := h
  split_ifs at h with hlevel hname hname
  · simp only [bind_eq_ok, mapError_eq_ok] at h
    obtain ⟨g, -, retention, -, pause, -, _, h, -⟩ := h
    cases h
  · simp only [bind_eq_ok, mapError_eq_ok, pure_eq_ok] at h
    obtain ⟨g, -, retention, hr, pause, -, rfl⟩ := h
    exact ⟨hr, rfl⟩
  · cases h
  · cases h

theorem steady_of_ofEnvironment {env : List (String × String)} {s : Service}
    (h : ofEnvironment env = .ok s) :
    s.station.Steady s.station.graph.geometry s.station.source.retention :=
  ⟨rfl, rfl, fun _ ht => absurd ((ofEnvironment_eq_ok h).2 ▸ ht) List.not_mem_nil⟩

theorem station_answer (s : Service) (c : Connection) (text : String) :
    (s.answer c text).2.station = s.station := by
  unfold answer
  split_ifs <;> rfl

theorem step_received [Machine] {s : Service} {id : String} {c : Connection}
    (hc : s.connection? id = some c) (hserved : c.served = true) (now : Float) (text : String) :
    (s.step (now, .received id text)).2 = (s.receive now c text).2 := by
  simp only [step, hc, hserved, if_true]

theorem station_receive {s : Service} {c : Connection} (hrole : c.role = .reporter)
    {text : String} {query : Query} (hq : Query.ofText text = .ok query) (now : Float) :
    (s.receive now c text).2.station =
      { s.station with source := s.station.source.record now (query.time.map .double) } := by
  simp only [receive, hrole, hq, station_answer]

theorem steady_receive {g : Geometry} {retention : Float} {s : Service}
    (h : s.station.Steady g retention) {now : Float} (hn : now.isFinite = true) (c : Connection)
    (text : String) : (s.receive now c text).2.station.Steady g retention := by
  cases hrole : c.role with
  | viewer =>
    simp only [receive, hrole]
    split_ifs
    · rwa [station_answer]
    · exact h
  | reporter =>
    cases hq : Query.ofText text with
    | error issues => simpa only [receive, hrole, hq, station_answer] using h
    | ok query =>
      rw [station_receive hrole hq]
      exact h.record hn (Query.time_finite hq)

theorem steady_step [Machine] {g : Geometry} {retention : Float} {s : Service}
    (h : s.station.Steady g retention) {now : Float} (hn : now.isFinite = true)
    (command : Command) :
    (s.step (now, command)).2.station.Steady g retention := by
  cases command with
  | health => exact h.prune now
  | frame => exact h.tick now
  | opened id role => cases role <;> exact ⟨h.geometry_eq, h.retention_eq, h.entries_double⟩
  | received id text =>
    simp only [step]
    cases s.connection? id with
    | none => exact h
    | some c =>
      dsimp only
      split_ifs
      · exact steady_receive h hn c text
      · exact h
  | closed id =>
    simp only [step]
    cases s.connection? id with
    | none => exact h
    | some c =>
      dsimp only [Option.elim]
      split_ifs
      · unfold dismiss
        cases c.role <;> exact ⟨h.geometry_eq, h.retention_eq, h.entries_double⟩
      · exact h
  | severed id =>
    simp only [step]
    cases s.connection? id <;> exact h
  | startup => exact h.start s.isUp now
  | advance => exact h.advance s.isUp now
  | shutdown => exact ⟨h.geometry_eq, h.retention_eq, h.entries_double⟩

theorem steady_runAll [Machine] {g : Geometry} {retention : Float} {s : Service}
    (h : s.station.Steady g retention) {commands : List (Float × Command)}
    (hn : ∀ m ∈ commands.map Prod.fst, m.isFinite = true) :
    (runAll step s commands).station.Steady g retention := by
  induction commands using List.reverseRecOn with
  | nil => exact h
  | append_singleton commands command ih =>
    rw [List.map_append] at hn
    rw [runAll_append_singleton]
    exact steady_step (ih fun m hm => hn m (List.mem_append_left _ hm))
      (hn command.1 (List.mem_append_right _ List.mem_cons_self)) command.2

/-- A round of the loop: its first one, or the one after a pause. -/
def isRound (s : Service) : Command → Bool
  | .startup => !s.station.running
  | .advance => s.station.running
  | _ => false

section

variable [Machine]

/-- At a moment there is a frame: it answers whoever asks for one, and a round of the loop sends
its text to every viewer that can be reached. -/
structure Shows (s : Service) (now : Float) (frame : Frame) : Prop where
  answer : (s.step (now, .frame)).1.1 = .frame (.ok frame)
  round : ∀ command, s.isRound command = true → s.station.viewers.isEmpty = false →
    (s.step (now, command)).1.2.sent = (s.station.viewers.reached s.isUp).map (·, frame.text)

/-- After whatever commands, at finite moments in order, there is a frame. -/
def Available (s : Service) : Prop :=
  ∀ (commands : List (Float × Command)) (now : Float),
    (∀ m ∈ commands.map Prod.fst ++ [now], m.isFinite = true) →
      (commands.map Prod.fst ++ [now]).Pairwise (· ≤ ·) →
        ∃ frame, (runAll step s commands).Shows now frame

theorem shows_iff {s : Service} {now : Float} {frame : Frame} :
    s.Shows now frame ↔ (s.station.tick now).1 = .ok frame := by
  refine ⟨fun h => Reply.frame.inj h.answer, fun h => ⟨congrArg Reply.frame h, ?_⟩⟩
  intro command hround hv
  cases command with
  | startup =>
    have hs : s.station.running = false := by
      simpa only [isRound, Bool.not_eq_true'] using hround
    simp only [step, Station.start, hs, Bool.false_eq_true, if_false]
    exact Station.sent_iterate (s := { s.station with running := true }) h hv
  | advance =>
    have hs : s.station.running = true := hround
    simp only [step, Station.advance, hs, if_true]
    exact Station.sent_iterate h hv
  | _ => cases hround

end

variable {s : Service} {g : Geometry} {retention : Float}

theorem available_of_isFinite [Machine] (hs : s.station.Steady g retention)
    (hr : g.visibleAge = .ok retention) (hroom : g.makeRoom = .ok ())
    (hor : retention < largest ∨
      (largest * (1.0 / ofInt g.resolution) + g.floor).isFinite = true) :
    s.Available := by
  intro commands now hfinite _
  have hsteady := steady_runAll hs fun m hm => hfinite m (List.mem_append_left _ hm)
  have hnow := hfinite now (List.mem_append_right _ List.mem_cons_self)
  obtain ⟨frame, hframe⟩ := Station.tick_isOk hsteady hr hroom hor hnow
  exact ⟨frame, shows_iff.2 hframe⟩

def earliestReport : String :=
  "\x7b\"timestamp_ms\": -1.7976931348623157e308\x7d"

theorem ofText_earliestReport :
    ∃ query, Query.ofText earliestReport = .ok query ∧ query.time = some (-largest) := by
  have h : (Query.ofText earliestReport).toOption.map (·.time) = some (some (-largest)) := by
    decide +kernel
  cases hq : Query.ofText earliestReport with
  | error issues => rw [hq] at h; cases h
  | ok query => rw [hq] at h; exact ⟨query, rfl, Option.some.inj h⟩

def report (text : String) : List (Float × Command) :=
  [(0.0, .opened "a" .reporter), (0.0, .received "a" text)]

section

variable [Machine]

theorem source_report {text : String} {query : Query} (hq : Query.ofText text = .ok query) :
    (runAll step s (report text)).station.source =
      s.station.source.record 0.0 (query.time.map .double) := by
  have hc : (s.accept "a" .reporter).connection? "a" =
      some { key := ⟨"a", s.connections.length⟩, role := .reporter } := rfl
  change ((s.accept "a" .reporter).step (0.0, .received "a" text)).2.station.source = _
  rw [step_received hc rfl, station_receive rfl hq]
  rfl

theorem entries_earliestReport (hentries : s.station.source.entries = [])
    (hr : ¬s.station.source.retention < largest) :
    (runAll step s (report earliestReport)).station.source.entries = [.double (-largest)] := by
  obtain ⟨query, hq, htime⟩ := ofText_earliestReport
  have hnumber : (Number.double (-largest)).IsNumber :=
    hasValue_of_isFinite isFinite_neg_largest
  rw [source_report hq, htime, EventLog.record, EventLog.entries_prune, hentries]
  · exact List.filter_eq_self.2 (List.forall_mem_singleton.2 (EventLog.isKept_earliest hr))
  · rw [hentries]
    exact List.forall_mem_singleton.2 hnumber

theorem Available.makeRoom (h : s.Available) : s.station.graph.geometry.makeRoom = .ok () := by
  obtain ⟨frame, hframe⟩ := h [] 0.0 (List.forall_mem_singleton.2 isFinite_zero)
    (List.pairwise_singleton _ _)
  obtain ⟨c, hc, -⟩ := Station.tick_eq_ok (shows_iff.1 hframe)
  obtain ⟨-, -, -, -, -, -, hroom, -⟩ := Curve.build_eq_ok_iff.1 hc
  exact hroom

/-- A frame that shows the earliest date of all has worked out its position. -/
theorem Available.isFinite (h : s.Available) (hs : s.station.Steady g retention)
    (hentries : s.station.source.entries = []) (hr : ¬retention < largest) :
    (largest * (1.0 / ofInt g.resolution) + g.floor).isFinite = true := by
  have hfinite : ∀ m ∈ [(0.0 : Float), 0.0, 0.0], m.isFinite = true := fun m hm => by
    rw [List.eq_of_mem_replicate (n := 3) hm, isFinite_zero]
  have horder : [(0.0 : Float), 0.0, 0.0].Pairwise (· ≤ ·) :=
    (List.pairwise_replicate (n := 3)).2 (.inr zero_nonneg)
  obtain ⟨frame, hframe⟩ := h (report earliestReport) 0.0 hfinite horder
  obtain ⟨c, hc, -⟩ := Station.tick_eq_ok (shows_iff.1 hframe)
  have hsteady : (runAll step s (report earliestReport)).station.Steady g retention :=
    steady_runAll hs fun m hm => hfinite m (List.mem_append_left [0.0] hm)
  have hkept := EventLog.isKept_earliest hr
  rw [EventLog.entries_prune hsteady.isNumber, hsteady.retention_eq, hsteady.geometry_eq,
    entries_earliestReport hentries (hs.retention_eq ▸ hr), List.filter_cons_of_pos hkept] at hc
  obtain ⟨resolution, events, humps, hres, he, hh, hroom, -⟩ := Curve.build_eq_ok_iff.1 hc
  cases he
  obtain ⟨rfl, -⟩ := ofInt?_eq_ok hres
  obtain ⟨hcf, hc0⟩ := centre_bounds hres isFinite_largest largest_nonneg
  have hage : age? (.double 0.0) (Json.ofNumber (.double (-largest))) = some largest := by
    decide +kernel
  exact (Hump.at?_isOk_iff hcf hc0).1
    ((Curve.humps_isOk_iff hroom).1 ⟨humps, hh⟩ _ List.mem_cons_self largest hage)

/-- A service that the environment sets up is available just where there is room for the
samples, and either the retention is less than the largest double or even an event as old as
that has a position at which the width of its hump is finite. -/
theorem available_iff {env : List (String × String)} (h : ofEnvironment env = .ok s) :
    s.Available ↔ s.station.graph.geometry.makeRoom = .ok () ∧
      (s.station.source.retention < largest ∨
        (largest * (1.0 / ofInt s.station.graph.geometry.resolution) +
          s.station.graph.geometry.floor).isFinite = true) := by
  obtain ⟨hr, hentries⟩ := ofEnvironment_eq_ok h
  have hs := steady_of_ofEnvironment h
  constructor
  · intro h
    exact ⟨h.makeRoom, or_iff_not_imp_left.2 (h.isFinite hs hentries)⟩
  · rintro ⟨hroom, hor⟩
    exact available_of_isFinite hs hr hroom hor

end

/-- Without any variables in the environment the service is available. -/
theorem available_iff_standard : ∃ s, ofEnvironment [] = .ok s ∧ s.Available := by
  have h : (ofEnvironment []).toOption.map (fun s =>
      (s.station.graph.geometry.makeRoom.toOption,
        decide (s.station.source.retention < largest))) =
      some (some (), true) := by
    decide +kernel
  cases hs : ofEnvironment [] with
  | error fault => rw [hs] at h; cases h
  | ok s =>
    rw [hs, Except.toOption, Option.map_some, Option.some_inj, Prod.mk.injEq,
      decide_eq_true_eq] at h
    refine ⟨s, rfl, (available_iff hs).2 ⟨?_, .inl h.2⟩⟩
    cases hroom : s.station.graph.geometry.makeRoom with
    | error fault => rw [hroom] at h; cases h.1
    | ok => rfl

def precarious : List (String × String) :=
  [("ACTIVITY_GRAPH_WINDOW_MS", "1"), ("ACTIVITY_GRAPH_RESOLUTION_MS", "1"),
    ("ACTIVITY_GRAPH_SMOOTHING_FLOOR", "1e308")]

/-- A service set up so is not available: after a report of the earliest date of all there is no
frame. -/
theorem not_available_precarious : ∃ s, ofEnvironment precarious = .ok s ∧ ¬s.Available := by
  have h : (ofEnvironment precarious).toOption.map (fun s =>
      (decide (s.station.source.retention < largest),
        (largest * (1.0 / ofInt s.station.graph.geometry.resolution) +
          s.station.graph.geometry.floor).isFinite)) = some (false, false) := by
    decide +kernel
  cases hs : ofEnvironment precarious with
  | error fault => rw [hs] at h; cases h
  | ok s =>
    rw [hs, Except.toOption, Option.map_some, Option.some_inj, Prod.mk.injEq,
      decide_eq_false_iff_not] at h
    refine ⟨s, rfl, fun ha => ?_⟩
    have hfinite := ha.isFinite (steady_of_ofEnvironment hs) (ofEnvironment_eq_ok hs).2 h.1
    rw [h.2] at hfinite
    cases hfinite

end Service

end RateCurve
