import RateCurve.Proofs.Json.Reader
import RateCurve.Proofs.Service.Ingestion

namespace RateCurve
open Double

namespace Query
open Json Validation

def timeText (v : Json) : String :=
  String.ofList (write .spaced (.obj [("timestamp_ms", v)]))

section

variable {v w : Json} {n : Number} {x : Float}

theorem ofText_of_takes (h : ∀ inner, Takes (value? true inner) (write .spaced v) w) :
    ofText (timeText v) = ofFields [("timestamp_ms", saturate w)] := by
  have hread : Json.read? .strict (write .spaced (.obj [("timestamp_ms", v)])) =
      .ok (.obj [("timestamp_ms", w)]) := by
    apply Takes.read?
    change Takes (value? true (nested? true 199)) _ _
    exact takes_obj true (.cons ⟨rfl, takes_nested h 199⟩ .nil) (List.nodup_singleton _)
  rw [ofText, timeText, String.toList_ofList, hread]
  rfl

theorem ofText_of_refuses (h : ∀ inner : Reader String,
    Refuses (value? true inner) (write .spaced v)) :
    ofText (timeText v) = .error [⟨[], .malformedText⟩] := by
  have hread : ∃ flaw, (Json.read? .strict (write .spaced (.obj [("timestamp_ms", v)])) :
      Except Flaw Json) = .error flaw := by
    apply Refuses.read?
    change Refuses (value? true (nested? true 199)) _
    exact refuses_obj true (refuses_nested h 199)
  obtain ⟨flaw, hflaw⟩ := hread
  rw [ofText, timeText, String.toList_ofList, hflaw]

theorem ofFields_time (hx : n.toDouble? = .ok x) :
    ofFields [("timestamp_ms", ofNumber n)] =
      if x.isFinite = true then .ok ⟨some x⟩
      else .error
        [⟨[.field "timestamp_ms"], .refused "timestamp_ms must be a finite number"⟩] := by
  have hrule : (optional number (ofNumber n) >>= checkTime) = checkTime (some x) := by
    cases n with
    | int n =>
      change ((double (.int n)).map some >>= checkTime) = _
      rw [Validation.double, hx]
      rfl
    | double y =>
      cases hx
      rfl
  have hfield : ofFields [("timestamp_ms", ofNumber n)] =
      (located [.field "timestamp_ms"] (optional number (ofNumber n) >>= checkTime)).map
        Query.mk := rfl
  rw [hfield, hrule, checkTime]
  by_cases hf : x.isFinite = true
  · rw [if_pos hf, if_pos hf]
    rfl
  · rw [if_neg hf, if_neg hf]
    rfl

theorem ofText_double (hf : x.isFinite = true) : ofText (timeText (.double x)) = .ok ⟨some x⟩ :=
  (ofText_of_takes (v := .double x) fun inner => takes_double true inner x).trans
    ((ofFields_time (n := .double x) rfl).trans (if_pos hf))

theorem ofText_int (n : ℤ) :
    ((ofInt n).isFinite = true → ofText (timeText (.int n)) = .ok ⟨some (ofInt n)⟩) ∧
      ((ofInt n).isFinite = false → ∃ issues, ofText (timeText (.int n)) = .error issues) := by
  by_cases hlength : (Decimal.digits n.natAbs).length ≤ Decimal.maxDigits
  · have hread := ofText_of_takes (v := .int n) fun inner => takes_int true inner hlength
    constructor
    · intro hf
      have hsaturate : saturate (.int n) = ofNumber (.int n) := if_pos hf
      have hn : (Number.int n).toDouble? = .ok (ofInt n) := if_pos hf
      exact hread.trans ((congrArg (fun v => ofFields [("timestamp_ms", v)]) hsaturate).trans
        ((ofFields_time hn).trans (if_pos hf)))
    · intro hf
      have hnot : ¬(ofInt n).isFinite = true := Bool.eq_false_iff.1 hf
      have hsaturate : saturate (.int n) = ofNumber (.double (ofInt n)) := if_neg hnot
      exact ⟨_, hread.trans
        ((congrArg (fun v => ofFields [("timestamp_ms", v)]) hsaturate).trans
          ((ofFields_time (n := .double (ofInt n)) rfl).trans (if_neg hnot)))⟩
  · have hlt := not_le.1 hlength
    constructor
    · intro hf
      rw [isFinite_ofInt_of_lt hlt] at hf
      cases hf
    · exact fun _ => ⟨_, ofText_of_refuses fun inner => refuses_int true inner hlt⟩

end

end Query

namespace Service

section

variable [Machine] (s : Service) (key : Connection.Key) (now : Float) (text : String)

/-- A reporter's text is accepted as the report of a time. -/
structure Records (time : Float) : Prop where
  read : Query.ofText text = .ok ⟨some time⟩
  answered : (s.step (now, .received key.id text)).1.2.sent =
    if s.isUp key = true then [(key, (Ack.accepted (s.station.source.total + 1)).text)] else []
  recorded : (s.step (now, .received key.id text)).2.station =
    { s.station with source := s.station.source.record now (some (.double time)) }

/-- A reporter's text is not accepted, and nothing is recorded. -/
structure Rejects : Prop where
  read : ∃ issues, Query.ofText text = .error issues
  answered : (s.step (now, .received key.id text)).1.2.sent =
    if s.isUp key = true then [(key, Ack.rejected.text)] else []
  kept : (s.step (now, .received key.id text)).2.station = s.station

end

section

variable [Machine] {s : Service} {key : Connection.Key} (h : s.Serves key .reporter)
  (hn : s.isNewest key = true) (now : Float) {text : String}
include h hn

theorem records_of_ofText {time : Float} (hq : Query.ofText text = .ok ⟨some time⟩) :
    s.Records key now text time := by
  refine ⟨hq, ?_, (handles h hn now text).recorded _ hq⟩
  rw [sent_of_serves h hn]
  simp only [Role.answers, true_and, answerTo, Ack.ofText, hq]

theorem rejects_of_ofText {issues : List Validation.Issue}
    (hq : Query.ofText text = .error issues) :
    s.Rejects key now text := by
  refine ⟨⟨issues, hq⟩, ?_, (handles h hn now text).rejected _ hq⟩
  rw [sent_of_serves h hn]
  simp only [Role.answers, true_and, answerTo, Ack.ofText, hq]

/-- A reporter who is served gets a time recorded as it is reported: each finite double with all
its bits, and each integer as the double nearest to it. An integer is rejected just where that
is an infinity, however many digits it has. -/
theorem reported_time_is_recorded :
    (∀ x : Float, x.isFinite = true → s.Records key now (Query.timeText (.double x)) x) ∧
      ∀ n : ℤ, NearestTo (ofInt n) n ∧ ((ofInt n).isFinite = true ↔ |n| < 2 ^ 1024 - 2 ^ 970) ∧
        ((ofInt n).isFinite = true → s.Records key now (Query.timeText (.int n)) (ofInt n)) ∧
        ((ofInt n).isFinite = false → s.Rejects key now (Query.timeText (.int n))) := by
  constructor
  · intro x hf
    exact records_of_ofText h hn now (Query.ofText_double hf)
  · intro n
    obtain ⟨hfinite, hinfinite⟩ := Query.ofText_int n
    refine ⟨nearestTo_ofInt n, isFinite_ofInt_iff n, fun hf => ?_, fun hf => ?_⟩
    · exact records_of_ofText h hn now (hfinite hf)
    · obtain ⟨issues, hq⟩ := hinfinite hf
      exact rejects_of_ofText h hn now hq

end

/-- The negative zero, an integer that lies half way between two doubles, and the least one that
is too large. -/
theorem reported_time_is_recorded_boundary :
    ∃ (s : Service) (key : Connection.Key), s.Serves key .reporter ∧ s.isNewest key = true ∧
      s.Records key 0.0 (Query.timeText (.double (-0.0))) (-0.0) ∧
      s.Records key 0.0 (Query.timeText (.int (2 ^ 53 + 1))) 9007199254740992.0 ∧
      s.Rejects key 0.0 (Query.timeText (.int (2 ^ 1024 - 2 ^ 970))) := by
  let s : Service :=
    { settings := ⟨"activity-graph", false, "INFO", 60000, 100, 10.0, 100⟩
      station :=
        { graph := { geometry := .standard }, source := { retention := 67000.0 }, pause := 0.1 }
      connections := [{ key := ⟨"r", 0⟩, role := .reporter }] }
  have hserves : s.Serves ⟨"r", 0⟩ .reporter := ⟨_, rfl, rfl, rfl⟩
  have hnewest : s.isNewest ⟨"r", 0⟩ = true := by decide
  obtain ⟨hdouble, hint⟩ := reported_time_is_recorded hserves hnewest 0.0
  refine ⟨s, _, hserves, hnewest, hdouble _ (by decide +kernel), ?_, ?_⟩
  · have hround : ofInt (2 ^ 53 + 1) = 9007199254740992.0 := by decide +kernel
    rw [← hround]
    exact (hint _).2.2.1 (by decide +kernel)
  · exact (hint _).2.2.2 (by decide +kernel)

end Service

end RateCurve
