import RateCurve.Proofs.Service.Answers
import RateCurve.Proofs.Station.Round

namespace RateCurve.Service

/-- A frame that a round of the loop shows does not get through. -/
def Misses [Machine] (key : Connection.Key) : Event → Prop
  | (s, now, command) =>
    s.isRound command = true ∧ (s.station.shown? now).isSome = true ∧ s.isUp key = false

def Dismisses (key : Connection.Key) : Event → Prop
  | (s, m) => Closes key (s, m) ∧ s.Serves key .viewer

/-- Every viewer is on a connection, which is served or out of reach. -/
structure Tidy (s : Service) : Prop where
  numbered : s.Numbered
  viewers : ∀ key ∈ s.station.viewers.members,
    ∃ c, s.holder? key = some c ∧ c.role = .viewer ∧ (c.served = true ∨ c.up = false)

section

variable [Machine] {s : Service} {command : Command}

theorem step_of_isRound (h : s.isRound command = true) (now : Float) :
    s.step (now, command) =
      ((.done, ({ s.station with running := true }.iterate s.isUp now).1),
        { s with station := ({ s.station with running := true }.iterate s.isUp now).2 }) := by
  cases command with
  | startup =>
    have hr : s.station.running = false := by simpa only [isRound, Bool.not_eq_true'] using h
    simp only [step, Station.start_of_not_running s.isUp now hr]
  | advance => simp only [step, Station.advance_of_running s.isUp now h]
  | _ => cases h

theorem step_of_not_isRound (h : s.isRound command = false)
    (hc : command = .startup ∨ command = .advance) (now : Float) :
    s.step (now, command) = ((.done, {}), s) := by
  rcases hc with rfl | rfl
  · have hr : s.station.running = true := by simpa only [isRound, Bool.not_eq_false'] using h
    simp only [step, Station.start_of_running s.isUp now hr]
  · simp only [step, Station.advance_of_not_running s.isUp now h]

end

theorem viewers_received [Machine] (s : Service) (now : Float) (id text : String) :
    (s.step (now, .received id text)).2.station.viewers = s.station.viewers := by
  rw [station_received]
  cases report? (s, now, .received id text) <;> rfl

theorem viewers_dismiss (s : Service) (c : Connection) :
    (s.dismiss c).station.viewers =
      if c.role = .viewer then s.station.viewers.erase c.key else s.station.viewers := by
  unfold dismiss
  cases c.role <;> rfl

theorem dismisses_iff {s : Service} {id : String} {c : Connection}
    (h : s.connection? id = some c) {now : Float} {key : Connection.Key} :
    Dismisses key (s, now, .closed id) ↔ c.served = true ∧ c.role = .viewer ∧ key = c.key := by
  constructor
  · rintro ⟨⟨hid, hn⟩, d, hd, hrole, hserved⟩
    cases hid
    obtain rfl := (isNewest_iff h).1 hn
    cases hd.symm.trans (holder?_of_connection? h)
    exact ⟨hserved, hrole, rfl⟩
  · rintro ⟨hserved, hrole, rfl⟩
    obtain rfl := id_of_connection? h
    exact ⟨⟨rfl, (isNewest_iff h).2 rfl⟩, c, holder?_of_connection? h, hrole, hserved⟩

section

variable [Machine]

theorem mem_viewers_closed (s : Service) (now : Float) (id : String) (key : Connection.Key) :
    key ∈ (s.step (now, .closed id)).2.station.viewers.members ↔
      key ∈ s.station.viewers.members ∧ ¬Dismisses key (s, now, .closed id) := by
  cases hc : s.connection? id with
  | none =>
    rw [step_of_connection?_eq_none hc rfl]
    refine (and_iff_left ?_).symm
    rintro ⟨⟨hid, hn⟩, -⟩
    cases hid
    exact not_isNewest hc hn
  | some c =>
    rw [dismisses_iff hc]
    simp only [step, hc, Option.elim]
    by_cases hserved : c.served = true
    · rw [if_pos hserved, viewers_dismiss]
      by_cases hrole : c.role = .viewer
      · rw [if_pos hrole, Audience.mem_erase]
        simp only [hserved, hrole, true_and, ne_eq]
      · rw [if_neg hrole]
        exact (and_iff_left fun h => hrole h.2.1).symm
    · rw [if_neg hserved]
      exact (and_iff_left fun h => hserved h.1).symm

/-- A command makes a viewer of whom it opens a connection to. Of those who were viewers it
parts with whom a frame does not get through to and with whom it dismisses. -/
theorem mem_viewers_step (s : Service) (m : Float × Command) (key : Connection.Key) :
    key ∈ (s.step m).2.station.viewers.members ↔ Opens key .viewer (s, m) ∨
      key ∈ s.station.viewers.members ∧ ¬(Misses key (s, m) ∨ Dismisses key (s, m)) := by
  obtain ⟨now, command⟩ := m
  by_cases hround : s.isRound command = true
  · have hopens : ¬Opens key .viewer (s, now, command) := by
      rintro ⟨rfl, -⟩
      cases hround
    have hdismisses : ¬Dismisses key (s, now, command) := by
      rintro ⟨⟨rfl, -⟩, -⟩
      cases hround
    rw [or_iff_right hopens, or_iff_left hdismisses, step_of_isRound hround]
    simp only [Station.mem_viewers_iterate, Station.shown?_running, Misses, hround,
      true_and, not_and, Bool.not_eq_false]
  · have hmisses : ¬Misses key (s, now, command) := fun hm => hround hm.1
    -- What neither opens a connection nor closes one leaves the viewers as they are.
    have hquiet (hv : (s.step (now, command)).2.station.viewers = s.station.viewers)
        (hopens : ∀ id, command ≠ .opened id .viewer) (hcloses : ∀ id, command ≠ .closed id) :
        key ∈ (s.step (now, command)).2.station.viewers.members ↔
          Opens key .viewer (s, now, command) ∨ key ∈ s.station.viewers.members ∧
            ¬(Misses key (s, now, command) ∨ Dismisses key (s, now, command)) := by
      rw [hv, or_iff_right fun h => hopens key.id h.1, or_iff_right hmisses]
      exact (and_iff_left fun h => hcloses key.id h.1.1).symm
    have hr := Bool.of_not_eq_true hround
    cases command with
    | health => exact hquiet rfl (by simp) (by simp)
    | frame =>
      refine hquiet ?_ (by simp) (by simp)
      change (s.station.tick now).2.viewers = _
      rcases s.station.tick_cases now with ⟨fault, h⟩ | ⟨frame, h⟩ <;> rw [h]
    | opened id role =>
      cases role with
      | reporter => exact hquiet rfl (by simp) (by simp)
      | viewer =>
        have hdismisses : ¬Dismisses key (s, now, .opened id .viewer) := by
          rintro ⟨⟨h, -⟩, -⟩
          cases h
        rw [or_iff_right hmisses, and_iff_left hdismisses, or_comm]
        refine Audience.mem_insert.trans (or_congr_right ?_)
        obtain ⟨name, serial⟩ := key
        simp only [Opens, Connection.Key.mk.injEq, Command.opened.injEq, and_true]
        exact and_congr eq_comm eq_comm
    | received id text => exact hquiet (s.viewers_received now id text) (by simp) (by simp)
    | closed id =>
      have hopens : ¬Opens key .viewer (s, now, .closed id) := by
        rintro ⟨h, -⟩
        cases h
      rw [or_iff_right hopens, or_iff_right hmisses]
      exact s.mem_viewers_closed now id key
    | severed id =>
      refine hquiet ?_ (by simp) (by simp)
      cases hc : s.connection? id <;> simp only [step, hc, Option.elim, setConnection]
    | startup | advance =>
      refine hquiet ?_ (by simp) (by simp)
      rw [step_of_not_isRound hr (by simp)]
    | shutdown => exact hquiet rfl (by simp) (by simp)

theorem Tidy.step {s : Service} (h : s.Tidy) (m : Float × Command) : (s.step m).2.Tidy := by
  refine ⟨h.numbered.step m, ?_⟩
  intro key hkey
  rcases (s.mem_viewers_step m key).1 hkey with hopens | ⟨hmem, hstays⟩
  · rcases s.holder?_step m key with ⟨role, hrole, hd⟩ | ⟨hnone, -⟩
    · exact ⟨_, hd, hrole.role_eq hopens, .inl rfl⟩
    · exact absurd hopens (hnone .viewer)
  · obtain ⟨c, hc, hrole, hserved⟩ := h.viewers key hmem
    rcases s.holder?_step m key with
      ⟨role, hopens, -⟩ | ⟨-, ⟨hnone, -⟩ | ⟨c', d, hc', hd, hbecomes⟩⟩
    · exact absurd hopens (h.numbered.not_opens hc)
    · cases hc.symm.trans hnone
    · cases hc.symm.trans hc'
      refine ⟨d, hd, hbecomes.role.trans hrole, ?_⟩
      -- Only what is out of reach does not get an answer, and what is dismissed is no viewer.
      by_cases hup : d.up = true
      · have hcup := (hbecomes.up.1 hup).1
        have hcserved : c.served = true := hserved.resolve_right fun h => by
          rw [hcup] at h
          cases h
        refine .inl (hbecomes.served.2 ⟨hcserved, ?_⟩)
        obtain rfl := key_of_holder? hc
        rintro (hcloses | hunanswered)
        · exact hstays (.inr ⟨hcloses, c, hc, hrole, hcserved⟩)
        · cases hunanswered.2.symm.trans ((isUp_of_holder? hc).trans hcup)
      · exact .inr (Bool.of_not_eq_true hup)

end

/-- A viewer who is served asks for a sign of life and does not get it. -/
def Lapses (key : Connection.Key) : Event → Prop
  | (s, m) => (key ∈ s.station.viewers.members ∧ s.Serves key .viewer) ∧
    Unanswered .viewer key (s, m)

section

variable {s : Service} {m : Float × Command} {key : Connection.Key}

theorem not_misses_of_unanswered [Machine] (h : Unanswered .viewer key (s, m)) :
    ¬Misses key (s, m) := by
  obtain ⟨now, command⟩ := m
  obtain ⟨⟨text, ⟨rfl, -⟩, -⟩, -⟩ := h
  rintro ⟨hround, -⟩
  cases hround

theorem not_closes_of_unanswered (h : Unanswered .viewer key (s, m)) : ¬Closes key (s, m) := by
  obtain ⟨now, command⟩ := m
  obtain ⟨⟨text, ⟨rfl, -⟩, -⟩, -⟩ := h
  rintro ⟨hcloses, -⟩
  cases hcloses

theorem Tidy.not_opens (h : s.Tidy) (hkey : key ∈ s.station.viewers.members) (role : Role) :
    ¬Opens key role (s, m) := by
  obtain ⟨c, hc, -⟩ := h.viewers key hkey
  exact h.numbered.not_opens hc

theorem served_viewer_step [Machine] (h : s.Tidy) :
    (key ∈ (s.step m).2.station.viewers.members ∧ (s.step m).2.Serves key .viewer) ↔
      Opens key .viewer (s, m) ∨ (key ∈ s.station.viewers.members ∧ s.Serves key .viewer) ∧
        ¬(Closes key (s, m) ∨ Misses key (s, m) ∨ Unanswered .viewer key (s, m)) := by
  rw [mem_viewers_step, serves_step h.numbered, Dismisses]
  by_cases hopens : Opens key .viewer (s, m)
  · simp only [hopens, true_or, and_self]
  · simp only [hopens, false_or, not_or]
    tauto

/-- A viewer who is no longer served is one from the answer that does not get through until a
frame does not get through either. -/
theorem unserved_viewer_step [Machine] (h : s.Tidy) :
    (key ∈ (s.step m).2.station.viewers.members ∧ ¬(s.step m).2.Serves key .viewer) ↔
      Lapses key (s, m) ∨ (key ∈ s.station.viewers.members ∧ ¬s.Serves key .viewer) ∧
        ¬Misses key (s, m) := by
  -- The command that is not answered is a text, which neither shows a frame nor closes
  -- anything.
  have hmisses : Unanswered .viewer key (s, m) → ¬Misses key (s, m) := not_misses_of_unanswered
  have hcloses : Unanswered .viewer key (s, m) → ¬Closes key (s, m) := not_closes_of_unanswered
  have hopens : key ∈ s.station.viewers.members → ¬Opens key .viewer (s, m) :=
    fun hkey => h.not_opens hkey .viewer
  rw [mem_viewers_step, serves_step h.numbered, Dismisses, Lapses]
  tauto

end

theorem step_of_serves_viewer [Machine] {s : Service} {key : Connection.Key}
    (h : s.Serves key .viewer) (hn : s.isNewest key = true) (now : Float) (text : String) :
    (s.step (now, .received key.id text)).1.2.sent =
        (if isPing text = true ∧ s.isUp key = true then [(key, "pong")] else []) ∧
      (s.step (now, .received key.id text)).2.station = s.station := by
  constructor
  · exact sent_of_serves h hn now text
  · rw [station_received, report?_of_serves h hn, if_neg (by decide)]
    rfl

theorem eq_start_of_ofEnvironment {env : List (String × String)} {s : Service}
    (h : ofEnvironment env = .ok s) : ∃ settings graph retention pause,
      s = { settings, station := { graph, source := { retention }, pause } } := by
  simp only [ofEnvironment, bind_eq_ok, mapError_eq_ok] at h
  obtain ⟨settings, -, h⟩ := h
  split_ifs at h
  · simp only [bind_eq_ok, mapError_eq_ok] at h
    obtain ⟨geometry, -, retention, -, pause, -, _, h, -⟩ := h
    cases h
  · simp only [bind_eq_ok, mapError_eq_ok, pure_eq_ok] at h
    obtain ⟨geometry, -, retention, -, pause, -, rfl⟩ := h
    exact ⟨settings, { geometry }, retention, pause, rfl⟩
  · cases h
  · cases h

section

variable (settings : Settings) (graph : Graph) (retention pause : Float)

theorem tidy_start :
    ({ settings, station := { graph, source := { retention }, pause } } : Service).Tidy := by
  constructor
  · intro key c hc
    cases hc
  · intro key hkey
    exact absurd hkey List.not_mem_nil

variable [Machine]

theorem served_viewer_runAll (commands : List (Float × Command)) (key : Connection.Key) :
    let start : Service := { settings, station := { graph, source := { retention }, pause } }
    let s := runAll step start commands
    key ∈ s.station.viewers.members ∧ s.Serves key .viewer ↔
      Lasts (Opens key .viewer)
        (fun e => Closes key e ∨ Misses key e ∨ Unanswered .viewer key e)
        (history step start commands) :=
  iff_lasts step (I := Tidy)
    (P := fun s => key ∈ s.station.viewers.members ∧ s.Serves key .viewer)
    (fun _ m h => h.step m) (fun _ _ h => served_viewer_step h)
    (tidy_start settings graph retention pause) (fun h => List.not_mem_nil h.1) commands

theorem unserved_viewer_runAll (commands : List (Float × Command)) (key : Connection.Key) :
    let start : Service := { settings, station := { graph, source := { retention }, pause } }
    let s := runAll step start commands
    key ∈ s.station.viewers.members ∧ ¬s.Serves key .viewer ↔
      Lasts (Lapses key) (Misses key) (history step start commands) :=
  iff_lasts step (I := Tidy)
    (P := fun s => key ∈ s.station.viewers.members ∧ ¬s.Serves key .viewer)
    (fun _ m h => h.step m) (fun _ _ h => unserved_viewer_step h)
    (tidy_start settings graph retention pause) (fun h => List.not_mem_nil h.1) commands

/-- After any run of the service the viewers are, apart from those whom an answer has not got
through to and no frame has failed to since, the connections opened by viewers that have since
neither been closed nor missed a frame or an answer; the exceptions are out of reach, so that
the next frame parts with them; health counts them all; and what a viewer says makes no
difference to the viewers and is answered to that one alone, by one word to what asks for it. -/
theorem viewers_of_run (commands : List (Float × Command)) :
    let start : Service := { settings, station := { graph, source := { retention }, pause } }
    let s := runAll step start commands
    let events := history step start commands
    (∀ key, key ∈ s.station.viewers.members ∧ s.Serves key .viewer ↔
        Lasts (Opens key .viewer)
          (fun e => Closes key e ∨ Misses key e ∨ Unanswered .viewer key e) events) ∧
      (∀ key, key ∈ s.station.viewers.members ∧ ¬s.Serves key .viewer ↔
        Lasts (Lapses key) (Misses key) events) ∧
      (∀ key ∈ s.station.viewers.members, s.Serves key .viewer ∨ s.isUp key = false) ∧
      (∀ now, ∃ h, (s.step (now, .health)).1.1 = .health h ∧
        h.viewers = s.station.viewers.members.length) ∧
      ∀ key, s.Serves key .viewer → s.isNewest key = true → ∀ now text,
        (s.step (now, .received key.id text)).1.2.sent =
            (if isPing text = true ∧ s.isUp key = true then [(key, "pong")] else []) ∧
          (s.step (now, .received key.id text)).2.station = s.station := by
  intro start s events
  refine ⟨served_viewer_runAll settings graph retention pause commands,
    unserved_viewer_runAll settings graph retention pause commands, ?_, ?_, ?_⟩
  · have htidy : s.Tidy := runAll_induction step (fun _ m h => h.step m)
      (tidy_start settings graph retention pause) commands
    intro key hkey
    obtain ⟨c, hc, hrole, hserved⟩ := htidy.viewers key hkey
    rw [isUp_of_holder? hc]
    exact hserved.imp_left fun h => ⟨c, hc, hrole, h⟩
  · intro now
    exact ⟨_, rfl, rfl⟩
  · intro key hserves hnewest now text
    exact step_of_serves_viewer hserves hnewest now text

end

def severedPing : List (Float × Command) :=
  [(0.0, .opened "v" .viewer), (0.0, .severed "v"), (0.0, .received "v" "ping")]

/-- One whom an answer has not got through to is still a viewer. -/
theorem not_viewers_severedPing : ∃ start, ofEnvironment [] = .ok start ∧
    ¬∀ key, key ∈ (runAll step start severedPing).station.viewers.members ↔
      Lasts (Opens key .viewer)
        (fun e => Closes key e ∨ Misses key e ∨ Unanswered .viewer key e)
        (history step start severedPing) := by
  have hok : (ofEnvironment []).toOption.isSome = true := by decide +kernel
  cases hs : ofEnvironment [] with
  | error fault =>
    rw [hs] at hok
    cases hok
  | ok start =>
    refine ⟨start, rfl, fun h => ?_⟩
    obtain ⟨settings, graph, retention, pause, rfl⟩ := eq_start_of_ofEnvironment hs
    have hmembers :
        (runAll step { settings, station := { graph, source := { retention }, pause } }
        severedPing).station.viewers.members = [⟨"v", 0⟩] := by
      rfl
    have hlasts := (h ⟨"v", 0⟩).1 (hmembers ▸ List.mem_cons_self)
    obtain ⟨-, c, hc, -, hserved⟩ :=
      (served_viewer_runAll settings graph retention pause severedPing ⟨"v", 0⟩).2 hlasts
    cases hc
    cases hserved

end RateCurve.Service
