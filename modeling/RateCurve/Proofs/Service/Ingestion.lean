import RateCurve.Proofs.EventLog.Account
import RateCurve.Proofs.Service.Viewers

namespace RateCurve

namespace EventLog

theorem entries_prune_sublist (log : EventLog) (now : Float) :
    (log.prune now).entries.Sublist log.entries := by
  rcases prune_cases log now with ⟨-, heq⟩ | ⟨t, -, -, heq⟩
  · rw [heq]
  · rw [heq]
    exact List.filter_sublist

theorem entries_runAll_sublist (retention : Float) (commands : List (Float × Command)) :
    (runAll step { retention } commands).entries.Sublist (commands.filterMap recorded?) := by
  induction commands using List.reverseRecOn with
  | nil => exact .slnil
  | append_singleton commands command ih =>
    have hextended := ih.append_right (recorded? command).toList
    rw [runAll_append_singleton, filterMap_append_singleton, step_eq_prune]
    cases moment? command with
    | none => exact hextended
    | some now => exact (entries_prune_sublist _ now).trans hextended

end EventLog

namespace Service

/-- What a command has the log do. -/
def logged? : Event → Option (Float × EventLog.Command)
  | (_, now, .health) => some (now, .size)
  | (_, now, .frame) => some (now, .entries none)
  | (s, now, .received id text) =>
    (report? (s, now, .received id text)).map fun query =>
      (now, .record (query.time.map .double))
  | (s, now, command) =>
    if s.isRound command = true ∧ s.station.viewers.isEmpty = false then
      some (now, .entries none)
    else none

section

variable [Machine]

theorem source_of_isRound {s : Service} {command : Command} (h : s.isRound command = true)
    (now : Float) :
    (s.step (now, command)).2.station.source =
      if s.station.viewers.isEmpty = false then s.station.source.prune now
      else s.station.source := by
  rw [step_of_isRound h]
  refine (Station.source_iterate _ _ _).trans ?_
  cases s.station.viewers.isEmpty <;> rfl

/-- The log changes by what it is told to do and by nothing else. -/
theorem source_step (s : Service) (m : Float × Command) :
    (s.step m).2.station.source =
      (logged? (s, m)).elim s.station.source fun command =>
        (s.station.source.step command).2 := by
  obtain ⟨now, command⟩ := m
  by_cases hround : s.isRound command = true
  · rw [source_of_isRound hround]
    cases command with
    | startup | advance =>
      simp only [logged?, hround, true_and]
      split_ifs <;> rfl
    | _ => cases hround
  · cases command with
    | frame =>
      change (s.station.tick now).2.source = s.station.source.prune now
      rcases s.station.tick_cases now with ⟨fault, h⟩ | ⟨frame, h⟩ <;> rw [h] <;> rfl
    | received id text =>
      rw [station_received, logged?]
      cases report? (s, now, .received id text) <;> rfl
    | opened id role => cases role <;> rfl
    | closed id =>
      cases hc : s.connection? id with
      | none => simp only [step, hc]; rfl
      | some c =>
        simp only [step, hc, Option.elim, logged?, isRound, Bool.false_eq_true,
          false_and, if_false]
        split_ifs
        · unfold dismiss
          cases c.role <;> rfl
        · rfl
    | severed id =>
      cases hc : s.connection? id <;> simp only [step, hc, Option.elim, setConnection] <;> rfl
    | startup | advance =>
      rw [step_of_not_isRound (Bool.of_not_eq_true hround) (by simp)]
      simp only [logged?, hround]
      rfl
    | _ => rfl

theorem source_runAll (s : Service) (commands : List (Float × Command)) :
    (runAll step s commands).station.source =
      runAll EventLog.step s.station.source ((history step s commands).filterMap logged?) := by
  induction commands using List.reverseRecOn with
  | nil => rfl
  | append_singleton commands m ih =>
    have hstep := (runAll step s commands).source_step m
    rw [history_append_singleton, List.filterMap_append, runAll_append, runAll_append, ← ih]
    refine hstep.trans ?_
    rw [List.filterMap_cons, List.filterMap_nil]
    cases logged? (runAll step s commands, m) <;> rfl

end

theorem bind_recorded?_logged? (e : Event) :
    (logged? e).bind EventLog.recorded? =
      (report? e).map fun query => (query.time.map Number.double).getD (.double e.2.1) := by
  obtain ⟨s, now, command⟩ := e
  cases command with
  | received id text =>
    rw [logged?]
    cases report? (s, now, .received id text) <;> rfl
  | health | frame => rfl
  | _ =>
    simp only [logged?, report?]
    split_ifs <;> rfl

/-- What the log records are the times of the reports. -/
theorem filterMap_recorded?_logged? (events : List Event) :
    (events.filterMap logged?).filterMap EventLog.recorded? = events.filterMap fun e =>
      (report? e).map fun query => (query.time.map Number.double).getD (.double e.2.1) := by
  rw [List.filterMap_filterMap]
  exact List.filterMap_congr fun e _ => bind_recorded?_logged? e

theorem length_filterMap_recorded? (events : List Event) :
    ((events.filterMap logged?).filterMap EventLog.recorded?).length =
      (events.filterMap report?).length := by
  rw [filterMap_recorded?_logged?, List.length_filterMap_eq_countP]
  simp only [Option.isSome_map]
  exact List.length_filterMap_eq_countP.symm

theorem ofText_of_report? {e : Event} {query : Query} (h : report? e = some query) :
    ∃ text, Query.ofText text = .ok query := by
  obtain ⟨s, now, command⟩ := e
  cases command with
  | received id text =>
    obtain ⟨c, -, hc⟩ := Option.bind_eq_some_iff.1 h
    split_ifs at hc
    cases hq : Query.ofText text with
    | error issues =>
      rw [hq] at hc
      cases hc
    | ok q =>
      rw [hq] at hc
      cases hc
      exact ⟨text, hq⟩
  | _ => cases h

theorem isFinite_of_recorded {events : List Event} (h : ∀ e ∈ events, e.2.1.isFinite = true) :
    ∀ t ∈ (events.filterMap logged?).filterMap EventLog.recorded?,
      ∃ x : Float, t = .double x ∧ x.isFinite = true := by
  intro t ht
  rw [filterMap_recorded?_logged?] at ht
  obtain ⟨e, he, hreport⟩ := List.mem_filterMap.1 ht
  obtain ⟨query, hquery, rfl⟩ := Option.map_eq_some_iff.1 hreport
  obtain ⟨text, hok⟩ := ofText_of_report? hquery
  cases htime : query.time with
  | none => exact ⟨e.2.1, rfl, h e he⟩
  | some x => exact ⟨x, rfl, Query.time_finite hok x htime⟩

section

variable {s : Service} {key : Connection.Key}

/-- What comes of a text that a reporter who is served sends after so many reports. -/
structure Handles [Machine] (s : Service) (reports : Nat) (key : Connection.Key) (now : Float)
    (text : String) : Prop where
  answered : ∃ answer, Ack.Tells reports text answer ∧
    (s.step (now, .received key.id text)).1.2.sent =
      if s.isUp key = true then [(key, answer)] else []
  recorded : ∀ query, Query.ofText text = .ok query →
    (s.step (now, .received key.id text)).2.station =
      { s.station with source := s.station.source.record now (query.time.map .double) }
  /-- The time of a report comes last in the log, before what is too old is forgotten. -/
  logged : ∀ query, Query.ofText text = .ok query →
    (s.step (now, .received key.id text)).2.station.source =
      { s.station.source with
        entries := s.station.source.entries ++ [(query.time.map .double).getD (.double now)]
        total := s.station.source.total + 1 : EventLog }.prune now
  rejected : ∀ issues, Query.ofText text = .error issues →
    (s.step (now, .received key.id text)).2.station = s.station
  /-- No connection changes but that of the reporter, and that one only where the answer does
  not get through. -/
  kept : ∀ other, other ≠ key ∨ s.isUp key = true →
    (s.step (now, .received key.id text)).2.holder? other = s.holder? other

theorem handles [Machine] (h : s.Serves key .reporter) (hn : s.isNewest key = true)
    (now : Float) (text : String) : s.Handles s.station.source.total key now text := by
  constructor
  case answered =>
    refine ⟨_, Ack.tells s.station.source.total text, ?_⟩
    rw [sent_of_serves h hn]
    simp only [Role.answers, true_and]
    rfl
  case recorded | logged =>
    intro query hq
    rw [station_received, report?_of_serves h hn, if_pos rfl, hq]
    rfl
  case rejected =>
    intro issues hq
    rw [station_received, report?_of_serves h hn, if_pos rfl, hq]
    rfl
  case kept =>
    intro other hother
    obtain ⟨c, hc, rfl, -, hserved, hup⟩ := connection?_of_serves h hn
    rw [holder?_of_connection?_eq_some hc rfl]
    by_cases hk : c.key = other
    · have hreach : c.up = true := hup ▸ hother.resolve_left fun h => h hk.symm
      rw [if_pos hk, ← hk, holder?_of_connection? hc]
      simp only [Connection.after, hreach, Bool.true_or, Bool.and_true]
      rw [← hreach]
    · rw [if_neg hk]

end

/-- Nothing is sent to a reporter but answers. -/
theorem says_of_sent [Machine] {s : Service} (h : s.Tidy) {m : Float × Command}
    {key : Connection.Key} {text : String} (hsent : (key, text) ∈ (s.step m).1.2.sent)
    {c : Connection} (hc : s.holder? key = some c) (hrole : c.role = .reporter) :
    s.Serves key .reporter ∧ ∃ said, Says key said (s, m) := by
  obtain ⟨now, command⟩ := m
  by_cases hround : s.isRound command = true
  · -- A round sends frames, and viewers are no reporters.
    rw [step_of_isRound hround, Station.sent_iterate_eq] at hsent
    cases hshown : { s.station with running := true }.shown? now with
    | none =>
      rw [hshown] at hsent
      cases hsent
    | some frame =>
      rw [hshown] at hsent
      obtain ⟨v, hv, hpair⟩ := List.mem_map.1 hsent
      cases hpair
      obtain ⟨d, hd, hviewer, -⟩ := h.viewers key (List.mem_of_mem_filter hv)
      cases hc.symm.trans hd
      cases hrole.symm.trans hviewer
  · cases command with
    | received id said =>
      cases hd : s.connection? id with
      | none =>
        rw [step_of_connection?_eq_none hd rfl] at hsent
        cases hsent
      | some d =>
        simp only [step, hd] at hsent
        split_ifs at hsent with hserved
        · rw [sent_receive] at hsent
          split_ifs at hsent
          · cases List.mem_singleton.1 hsent
            cases hc.symm.trans (holder?_of_connection? hd)
            obtain rfl := id_of_connection? hd
            exact ⟨⟨c, hc, hrole, hserved⟩, said, rfl, (isNewest_iff hd).2 rfl⟩
          · cases hsent
        · cases hsent
    | startup | advance =>
      rw [step_of_not_isRound (Bool.of_not_eq_true hround) (by simp)] at hsent
      cases hsent
    | _ => cases hsent

section

variable (settings : Settings) (graph : Graph) (retention pause : Float)

/-- After any run of the service a reporter is served who has opened a connection that has since
neither been closed nor missed an answer; whatever such a reporter sends is handled, by its
number among the reports of all connections if it is a report; reporters are sent nothing else;
health says how many reports there were, of which it retains no more; the log has done what it
was told to and nothing else. If the moments are finite, the log holds just the times it was
told to record that nothing has found too old since, and they are finite. -/
theorem ingestion_of_run [Machine] (commands : List (Float × Command)) :
    let start : Service := { settings, station := { graph, source := { retention }, pause } }
    let s := runAll step start commands
    let events := history step start commands
    let reports := (events.filterMap report?).length
    (∀ key, s.Serves key .reporter ↔
        Lasts (Opens key .reporter)
          (fun e => Closes key e ∨ Unanswered .reporter key e) events) ∧
      (∀ key, s.isUp key = true ↔
        Lasts (fun e => ∃ role, Opens key role e) (Severs key) events) ∧
      (∀ key, s.Serves key .reporter → s.isNewest key = true → ∀ now text,
        s.Handles reports key now text) ∧
      (∀ m key text, (key, text) ∈ (s.step m).1.2.sent → ∀ c, s.holder? key = some c →
        c.role = .reporter → s.Serves key .reporter ∧ ∃ said, Says key said (s, m)) ∧
      (∀ now, ∃ h, (s.step (now, .health)).1.1 = .health h ∧ h.total = reports ∧
        h.retained ≤ h.total) ∧
      s.station.source = runAll EventLog.step { retention } (events.filterMap logged?) ∧
      ((∀ m ∈ commands, m.1.isFinite = true) →
        s.station.source = EventLog.account retention (events.filterMap logged?) ∧
          ∀ t ∈ (events.filterMap logged?).filterMap EventLog.recorded?,
            ∃ x : Float, t = .double x ∧ x.isFinite = true) := by
  intro start s events reports
  have htidy : s.Tidy :=
    runAll_induction step (fun _ m h => h.step m) (tidy_start settings graph retention pause)
      commands
  have hsource :
      s.station.source = runAll EventLog.step { retention } (events.filterMap logged?) :=
    source_runAll start commands
  have htotal : s.station.source.total = reports := by
    rw [hsource, EventLog.total_runAll]
    exact length_filterMap_recorded? events
  refine ⟨fun key => ?_, fun key => ?_, ?_, ?_, ?_, hsource, ?_⟩
  · exact iff_lasts step (I := Numbered) (P := fun s => s.Serves key .reporter)
      (fun _ m h => h.step m) (fun _ _ h => serves_step h)
      (tidy_start settings graph retention pause).numbered
      (fun ⟨c, hc, _⟩ => by cases hc) commands
  · exact iff_lasts step (I := fun _ => True) (P := fun s => s.isUp key = true)
      (fun _ _ _ => trivial) (fun _ _ _ => isUp_step) trivial (fun h => by cases h) commands
  · intro key hserves hnewest now text
    rw [← htotal]
    exact handles hserves hnewest now text
  · intro m key text hsent c hc hrole
    exact says_of_sent htidy hsent hc hrole
  · intro now
    refine ⟨_, rfl, (EventLog.total_prune _ now).trans htotal, ?_⟩
    change (s.station.source.prune now).entries.length ≤ (s.station.source.prune now).total
    rw [EventLog.total_prune, hsource, EventLog.total_runAll]
    exact ((EventLog.entries_prune_sublist _ now).trans
      (EventLog.entries_runAll_sublist retention _)).length_le
  · intro hfinite
    have hevents : ∀ e ∈ events, e.2.1.isFinite = true := by
      intro e he
      have hmem : e.2 ∈ commands :=
        map_snd_history step start commands ▸ List.mem_map_of_mem he
      exact hfinite e.2 hmem
    have htimes := isFinite_of_recorded hevents
    refine ⟨hsource.trans (EventLog.runAll_eq_account retention fun t ht => ?_), htimes⟩
    obtain ⟨x, rfl, hx⟩ := htimes t ht
    exact Double.hasValue_of_isFinite hx

end

end Service

end RateCurve
