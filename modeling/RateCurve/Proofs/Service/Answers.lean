import RateCurve.Proofs.Service.Connections
import RateCurve.Proofs.Watch.Message

namespace RateCurve
open Json

def Ack.ofText (reports : Nat) (text : String) : Ack :=
  match Query.ofText text with
  | .error _ => .rejected
  | .ok _ => .accepted (reports + 1)

/-- What is answered to a reporter's text that comes after so many reports: whether it is one
itself, and then the how manieth. -/
structure Ack.Tells (reports : ℕ) (text answer : String) : Prop where
  accepted : ∀ k : ℕ,
    answer = "\x7b\"status\":\"accepted\",\"query_count\":" ++ toString k ++ "\x7d" ↔
      (∃ query, Query.ofText text = .ok query) ∧ k = reports + 1
  rejected :
    answer = "\x7b\"status\":\"error\",\"detail\":\"Query event validation failed\"\x7d" ↔
      ∃ issues, Query.ofText text = .error issues
  /-- A number that is too long cannot be read. -/
  read_accepted : ∀ query, Query.ofText text = .ok query →
    (Decimal.digits (reports + 1)).length ≤ Decimal.maxDigits →
      ∃ v, Watch.message? answer = .ok v ∧
        Watch.field v "status" = .ok (.str (TextType.ofString "accepted")) ∧
        Watch.field v "query_count" = .ok (.int (reports + 1))
  read_rejected : ∀ issues, Query.ofText text = .error issues →
    ∃ v, Watch.message? answer = .ok v ∧
      Watch.field v "status" = .ok (.str (TextType.ofString "error")) ∧
      Watch.field v "query_count" = .error .missingField

theorem Ack.tells_rejected (reports : ℕ) {text : String} {issues : List Validation.Issue}
    (h : Query.ofText text = .error issues) : Ack.Tells reports text Ack.rejected.text := by
  have hnot : ∀ query, Query.ofText text ≠ .ok query := by
    intro query hquery
    cases h.symm.trans hquery
  constructor
  case accepted =>
    intro k
    rw [← text_accepted]
    exact iff_of_false (text_accepted_ne_text_rejected k).symm fun hk => hk.1.elim hnot
  case rejected => exact iff_of_true text_rejected ⟨issues, h⟩
  case read_accepted => exact fun query hquery => absurd hquery (hnot query)
  case read_rejected => exact fun _ _ => ⟨Ack.rejected.seen, message?_text nofun, rfl, rfl⟩

theorem Ack.tells_accepted (reports : ℕ) {text : String} {query : Query}
    (h : Query.ofText text = .ok query) :
    Ack.Tells reports text (Ack.accepted (reports + 1)).text := by
  have hnot : ∀ issues, Query.ofText text ≠ .error issues := by
    intro issues hissues
    cases h.symm.trans hissues
  constructor
  case accepted =>
    intro k
    rw [← text_accepted, text_accepted_inj, eq_comm]
    exact (and_iff_right ⟨query, h⟩).symm
  case rejected =>
    rw [← text_rejected]
    exact iff_of_false (text_accepted_ne_text_rejected _) fun hissues => hissues.elim hnot
  case read_accepted =>
    intro _ _ hlength
    refine ⟨(Ack.accepted (reports + 1)).seen, message?_text ?_, rfl, rfl⟩
    rintro n ⟨⟩
    exact hlength
  case read_rejected => exact fun issues hissues => absurd hissues (hnot issues)

theorem Ack.tells (reports : ℕ) (text : String) :
    Ack.Tells reports text (Ack.ofText reports text).text := by
  unfold Ack.ofText
  cases h : Query.ofText text with
  | error issues => exact tells_rejected reports h
  | ok query => exact tells_accepted reports h

namespace Service

section

variable {s : Service} {key : Connection.Key} {role : Role}

theorem connection?_of_serves (h : s.Serves key role) (hn : s.isNewest key = true) :
    ∃ c, s.connection? key.id = some c ∧ c.key = key ∧ c.role = role ∧ c.served = true ∧
      s.isUp key = c.up := by
  obtain ⟨c, hc, hrole, hserved⟩ := h
  cases hnewest : s.connection? key.id with
  | none => exact absurd hn (not_isNewest hnewest)
  | some d =>
    obtain rfl := (isNewest_iff hnewest).1 hn
    cases hc.symm.trans (holder?_of_connection? hnewest)
    exact ⟨c, rfl, rfl, hrole, hserved, isUp_of_holder? hc⟩

end

/-- What a text is answered by on a connection with a role, if it is answered. -/
def answerTo (s : Service) : Role → String → String
  | .viewer, _ => "pong"
  | .reporter, text => (Ack.ofText s.station.source.total text).text

theorem sent_answer (s : Service) (c : Connection) (text : String) :
    (s.answer c text).1.sent = if c.up = true then [(c.key, text)] else [] := by
  unfold answer
  split_ifs <;> rfl

theorem sent_receive (s : Service) (now : Float) (c : Connection) (text : String) :
    (s.receive now c text).1.sent =
      if c.role.answers text = true ∧ c.up = true then [(c.key, s.answerTo c.role text)]
      else [] := by
  unfold receive
  cases c.role with
  | viewer =>
    change (if isPing text = true then s.answer c "pong" else ({}, s)).1.sent =
      if isPing text = true ∧ c.up = true then [(c.key, "pong")] else []
    by_cases hping : isPing text = true
    · rw [if_pos hping, sent_answer]
      simp only [hping, true_and]
    · rw [if_neg hping, if_neg fun h => hping h.1]
  | reporter =>
    simp only [Role.answers, answerTo, Ack.ofText, true_and]
    cases Query.ofText text with
    | error issues => exact s.sent_answer c _
    | ok query =>
      rw [sent_answer,
        show (s.station.source.record now _).total = s.station.source.total + 1 from
          EventLog.total_prune _ now]

theorem sent_of_serves [Machine] {s : Service} {key : Connection.Key} {role : Role}
    (h : s.Serves key role) (hn : s.isNewest key = true) (now : Float) (text : String) :
    (s.step (now, .received key.id text)).1.2.sent =
      if role.answers text = true ∧ s.isUp key = true then [(key, s.answerTo role text)]
      else [] := by
  obtain ⟨c, hc, rfl, rfl, hserved, hup⟩ := connection?_of_serves h hn
  simp only [step, hc, hserved, if_true, sent_receive, hup]

/-- The report that a reporter who is served sends, if the text is one. -/
def report? : Event → Option Query
  | (s, _, .received id text) =>
    (s.connection? id).bind fun c =>
      if c.served = true ∧ c.role = .reporter then (Query.ofText text).toOption else none
  | _ => none

theorem station_receive_eq (s : Service) (now : Float) (c : Connection) (text : String) :
    (s.receive now c text).2.station =
      (if c.role = .reporter then (Query.ofText text).toOption else none).elim s.station
        fun query =>
          { s.station with
            source := s.station.source.record now (query.time.map .double) } := by
  unfold receive
  cases c.role with
  | viewer =>
    change (if isPing text = true then s.answer c "pong" else ({}, s)).2.station = s.station
    by_cases hping : isPing text = true
    · rw [if_pos hping, station_answer]
    · rw [if_neg hping]
  | reporter =>
    rw [if_pos rfl]
    cases Query.ofText text with
    | error issues => exact s.station_answer c _
    | ok query => exact station_answer _ c _

/-- A text makes no difference to the station unless it is a report, which is recorded. -/
theorem station_received [Machine] (s : Service) (now : Float) (id text : String) :
    (s.step (now, .received id text)).2.station =
      (report? (s, now, .received id text)).elim s.station fun query =>
        { s.station with source := s.station.source.record now (query.time.map .double) } := by
  cases hc : s.connection? id with
  | none =>
    rw [step_of_connection?_eq_none hc rfl]
    simp only [report?, hc, Option.bind_none, Option.elim]
  | some c =>
    simp only [step, report?, hc, Option.bind_some]
    by_cases hserved : c.served = true
    · rw [if_pos hserved, station_receive_eq]
      simp only [hserved, true_and]
    · rw [if_neg hserved, if_neg fun h => hserved h.1]
      rfl

theorem report?_of_serves {s : Service} {key : Connection.Key} {role : Role}
    (h : s.Serves key role) (hn : s.isNewest key = true) (now : Float) (text : String) :
    report? (s, now, .received key.id text) =
      if role = .reporter then (Query.ofText text).toOption else none := by
  obtain ⟨c, hc, -, rfl, hserved, -⟩ := connection?_of_serves h hn
  simp only [report?, hc, Option.bind_some, hserved, true_and]

end Service

end RateCurve
