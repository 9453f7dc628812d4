import RateCurve.Proofs.History
import RateCurve.Proofs.Session.Step

namespace RateCurve

def Source.calls? (source : Source) : Option Nat :=
  source.fixed?.map (·.calls)

theorem Source.calls?_pull (source : Source) (now : Float) :
    (Feed.pull source now).2.calls? = source.calls?.map (· + 1) := by
  cases source <;> rfl

namespace Session

def told (source : Source) : Float × Command → Source
  | (now, .record time) => source.record now time
  | (_, .supply events) => source.supply events
  | _ => source

theorem calls?_told (source : Source) (m : Float × Command) :
    (told source m).calls? = source.calls? := by
  obtain ⟨now, command⟩ := m
  cases command with
  | record time => cases source <;> rfl
  | supply events => cases source <;> rfl
  | _ => rfl

def beginsLoop : Session × Float × Command → Bool
  | (s, _, .start) => !s.station.running
  | _ => false

def endsLoop : Session × Float × Command → Bool
  | (s, _, .stop) => s.station.running
  | _ => false

def isTick : Session × Float × Command → Bool
  | (_, _, .tick) => true
  | _ => false

def makesRound : Session × Float × Command → Bool
  | (s, _, command) => s.isRound command

/-- A round of the loop that begins with a viewer. -/
def makesBusyRound : Session × Float × Command → Bool
  | (s, _, command) => s.isRound command && !s.station.viewers.isEmpty

def Command.isOfLoop : Command → Bool
  | .start | .advance | .stop => true
  | _ => false

/-- How a session is paced by its loop. -/
structure Paced [Machine] (s : Session) : Prop where
  /-- There is no second loop beside one that runs, and none to advance where none runs. -/
  unmoved : ∀ now command, s.isRound command = false → command = .start ∨ command = .advance →
    s.step (now, command) = ((.done, {}), s)
  /-- A round runs the loop once. -/
  round : ∀ now command, s.isRound command = true →
    let outcome := { s.station with running := true }.iterate s.isUp now
    s.step (now, command) = ((.done, outcome.1), { s with station := outcome.2 })
  /-- Without a loop there is nothing to stop. -/
  stopped : ∀ now, s.station.running = false → s.step (now, .stop) = ((.done, {}), s)
  /-- A loop that is started after one was stopped goes on where that one ended. -/
  restarted : ∀ now later,
    let outcome := { s.station with running := true }.iterate s.isUp later
    (s.step (now, .stop)).2.step (later, .start) =
      ((.done, outcome.1), { s with station := outcome.2 })
  /-- A round begins one pause, whatever comes of it, and nothing else begins one. -/
  pauses : ∀ m, (s.step m).1.2.pauses = if makesRound (s, m) then [s.station.pause] else []
  /-- A tick, and a round that begins with a viewer, ask the source once. -/
  asked : ∀ m, isTick (s, m) = true ∨ makesBusyRound (s, m) = true →
    (s.step m).2.station.source = (Feed.pull s.station.source m.1).2
  /-- Nothing else asks it. -/
  unasked : ∀ m, isTick (s, m) = false → makesBusyRound (s, m) = false →
    (s.step m).2.station.source = told s.station.source m
  /-- A round that begins without viewers touches nothing. -/
  untouched : ∀ now command, s.isRound command = true → s.station.viewers.isEmpty = true →
    s.step (now, command) = ((.done, { pauses := [s.station.pause] }),
      { s with station := { s.station with running := true } })

section

variable [Machine] (s : Session)

theorem step_stop {s : Session} (h : s.station.running = false) (now : Float) :
    s.step (now, .stop) = ((.done, {}), s) := by
  have hs : { s.station with running := false } = s.station := by rw [← h]
  simp only [step, Station.stop, hs]

theorem step_of_isEmpty {s : Session} {command : Command} (h : s.isRound command = true)
    (hv : s.station.viewers.isEmpty = true) (now : Float) :
    s.step (now, command) = ((.done, { pauses := [s.station.pause] }),
      { s with station := { s.station with running := true } }) := by
  have hiterate : { s.station with running := true }.iterate s.isUp now =
      ({ pauses := [s.station.pause] }, { s.station with running := true }) :=
    Station.iterate_of_isEmpty (s := { s.station with running := true }) hv s.isUp now
  rw [step_of_isRound h, hiterate]

theorem pauses_step (m : Float × Command) :
    (s.step m).1.2.pauses = if makesRound (s, m) then [s.station.pause] else [] := by
  obtain ⟨now, command⟩ := m
  change _ = if s.isRound command = true then [s.station.pause] else []
  by_cases hround : s.isRound command = true
  · rw [step_of_isRound hround, if_pos hround]
    exact Station.pauses_iterate _ _ _
  · rw [if_neg hround]
    have hr := Bool.of_not_eq_true hround
    cases command with
    | start | advance => rw [step_of_not_isRound hr (by simp)]
    | _ => rfl

theorem source_of_makesBusyRound {s : Session} {m : Float × Command}
    (h : makesBusyRound (s, m) = true) :
    (s.step m).2.station.source = (Feed.pull s.station.source m.1).2 := by
  obtain ⟨now, command⟩ := m
  obtain ⟨hround, hv⟩ := Bool.and_eq_true_iff.1 h
  rw [Bool.not_eq_true'] at hv
  rw [step_of_isRound hround]
  refine (Station.source_iterate _ _ _).trans ?_
  exact if_neg (Bool.eq_false_iff.1 hv)

theorem source_of_isTick {s : Session} {m : Float × Command} (h : isTick (s, m) = true) :
    (s.step m).2.station.source = (Feed.pull s.station.source m.1).2 := by
  obtain ⟨now, command⟩ := m
  cases command with
  | tick =>
    change (s.station.tick now).2.source = _
    rcases s.station.tick_cases now with ⟨fault, h⟩ | ⟨frame, h⟩ <;> rw [h]
  | _ => cases h

theorem source_of_not_asked {s : Session} {m : Float × Command} (ht : isTick (s, m) = false)
    (hb : makesBusyRound (s, m) = false) :
    (s.step m).2.station.source = told s.station.source m := by
  obtain ⟨now, command⟩ := m
  by_cases hround : s.isRound command = true
  · have hv : s.station.viewers.isEmpty = true := by
      simpa only [makesBusyRound, hround, Bool.true_and, Bool.not_eq_false'] using hb
    rw [step_of_isEmpty hround hv]
    cases command with
    | start | advance => rfl
    | _ => cases hround
  · have hr := Bool.of_not_eq_true hround
    cases command with
    | start | advance =>
      rw [step_of_not_isRound hr (by simp)]
      rfl
    | tick => cases ht
    | _ => rfl

theorem paced : s.Paced where
  unmoved now _ h hc := step_of_not_isRound h hc now
  round now _ h := step_of_isRound h now
  stopped now h := step_stop h now
  restarted now later := (s.step (now, .stop)).2.step_of_isRound rfl later
  pauses := s.pauses_step
  asked _ h := h.elim source_of_isTick source_of_makesBusyRound
  unasked _ ht hb := source_of_not_asked ht hb
  untouched now _ h hv := step_of_isEmpty h hv now

theorem pause_step (m : Float × Command) : (s.step m).2.station.pause = s.station.pause := by
  obtain ⟨now, command⟩ := m
  by_cases hround : s.isRound command = true
  · rw [step_of_isRound hround]
    exact Station.pause_iterate _ _ _
  · have hr := Bool.of_not_eq_true hround
    cases command with
    | start | advance => rw [step_of_not_isRound hr (by simp)]
    | tick =>
      change (s.station.tick now).2.pause = s.station.pause
      rcases s.station.tick_cases now with ⟨fault, h⟩ | ⟨frame, h⟩ <;> rw [h]
    | _ => rfl

theorem running_step (m : Float × Command) :
    (s.step m).2.station.running =
      (beginsLoop (s, m) || s.station.running && !endsLoop (s, m)) := by
  obtain ⟨now, command⟩ := m
  by_cases hround : s.isRound command = true
  · rw [step_of_isRound hround]
    refine (Station.running_iterate _ _ _).trans ?_
    cases command with
    | start => exact (Bool.or_eq_true_iff.2 (.inl hround)).symm
    | advance =>
      exact (Bool.or_eq_true_iff.2 (.inr (Bool.and_eq_true_iff.2 ⟨hround, rfl⟩))).symm
    | _ => cases hround
  · have hr := Bool.of_not_eq_true hround
    cases command with
    | start =>
      have hrunning : s.station.running = true := by
        simpa only [isRound, Bool.not_eq_false'] using hr
      rw [step_of_not_isRound hr (.inl rfl), hrunning]
      exact (Bool.or_true _).symm
    | advance =>
      rw [step_of_not_isRound hr (.inr rfl)]
      exact (Bool.and_true _).symm
    | tick =>
      change (s.station.tick now).2.running = _
      rcases s.station.tick_cases now with ⟨fault, h⟩ | ⟨frame, h⟩ <;> rw [h]
      · exact (Bool.and_true _).symm
      · exact (Bool.and_true _).symm
    | stop => exact (Bool.and_not_self _).symm
    | _ => exact (Bool.and_true _).symm

theorem loops_step (m : Float × Command) :
    s.station.running.toNat + (beginsLoop (s, m)).toNat =
      (s.step m).2.station.running.toNat + (endsLoop (s, m)).toNat := by
  obtain ⟨now, command⟩ := m
  rw [running_step]
  cases command with
  | start => cases h : s.station.running <;> simp [beginsLoop, endsLoop, h]
  | stop => cases h : s.station.running <;> simp [beginsLoop, endsLoop, h]
  | _ => cases h : s.station.running <;> simp [beginsLoop, endsLoop]

theorem calls?_step (m : Float × Command) :
    (s.step m).2.station.source.calls? =
      s.station.source.calls?.map
        (· + ((isTick (s, m)).toNat + (makesBusyRound (s, m)).toNat)) := by
  -- A tick is no round of the loop, so that a command asks at most once.
  by_cases hb : makesBusyRound (s, m) = true
  · have ht : isTick (s, m) = false := by
      obtain ⟨now, command⟩ := m
      cases command with
      | tick => cases hb
      | _ => rfl
    rw [source_of_makesBusyRound hb, Source.calls?_pull, ht, hb]
    rfl
  · by_cases ht : isTick (s, m) = true
    · rw [source_of_isTick ht, Source.calls?_pull, ht, Bool.of_not_eq_true hb]
      rfl
    · rw [Bool.not_eq_true] at hb ht
      rw [source_of_not_asked ht hb, calls?_told, hb, ht]
      exact Option.map_id'.symm

end

section

variable [Machine]

/-- Without viewers the commands of the loop change nothing but whether it runs. -/
theorem runAll_of_isEmpty {s : Session} (hv : s.station.viewers.isEmpty = true)
    {commands : List (Float × Command)} (h : ∀ m ∈ commands, m.2.isOfLoop = true) :
    ∃ running, runAll step s commands = { s with station := { s.station with running } } := by
  induction commands using List.reverseRecOn with
  | nil => exact ⟨s.station.running, rfl⟩
  | append_singleton commands m ih =>
    obtain ⟨hcommands, hm⟩ := List.forall_mem_append.1 h
    obtain ⟨running, hrun⟩ := ih hcommands
    obtain ⟨now, command⟩ := m
    have hloop : command.isOfLoop = true := hm _ List.mem_cons_self
    -- The state that the last command meets has the viewers of `s`, that is none.
    rw [runAll_append, hrun]
    change ∃ r, (step { s with station := { s.station with running } } (now, command)).2 = _
    by_cases hround : isRound { s with station := { s.station with running } } command = true
    · rw [step_of_isEmpty hround hv]
      exact ⟨true, rfl⟩
    · have hr := Bool.of_not_eq_true hround
      cases command with
      | start | advance =>
        rw [step_of_not_isRound hr (by simp)]
        exact ⟨running, rfl⟩
      | stop => exact ⟨false, rfl⟩
      | _ => cases hloop

theorem runAll_eq_self {s : Session} (hv : s.station.viewers.isEmpty = true)
    {commands : List (Float × Command)} (h : ∀ m ∈ commands, m.2.isOfLoop = true)
    (hrunning : (runAll step s commands).station.running = s.station.running) :
    runAll step s commands = s := by
  obtain ⟨running, hrun⟩ := runAll_of_isEmpty hv h
  rw [hrun] at hrunning ⊢
  change running = s.station.running at hrunning
  rw [hrunning]

end

section

variable [Machine] (s : Session) (commands : List (Float × Command))

theorem loops_runAll (h : s.station.running = false) :
    (history step s commands).countP beginsLoop =
      (history step s commands).countP endsLoop +
        (runAll step s commands).station.running.toNat := by
  induction commands using List.reverseRecOn with
  | nil =>
    change 0 = 0 + s.station.running.toNat
    rw [h]
    rfl
  | append_singleton commands m ih =>
    have hstep := (runAll step s commands).loops_step m
    rw [countP_history_append_singleton, countP_history_append_singleton,
      runAll_append_singleton, ih]
    omega

theorem pauses_trace :
    (trace step s commands).flatMap (·.1.2.pauses) =
      List.replicate ((history step s commands).countP makesRound) s.station.pause := by
  induction commands generalizing s with
  | nil => rfl
  | cons m commands ih =>
    rw [trace, history, List.flatMap_cons, ih, pause_step, pauses_step, List.countP_cons]
    split_ifs
    · exact List.replicate_succ.symm
    · rfl

theorem calls?_runAll :
    (runAll step s commands).station.source.calls? =
      s.station.source.calls?.map (· + ((history step s commands).countP isTick +
        (history step s commands).countP makesBusyRound)) := by
  induction commands using List.reverseRecOn with
  | nil => exact Option.map_id'.symm
  | append_singleton commands m ih =>
    have hstep := (runAll step s commands).calls?_step m
    rw [ih, Option.map_map] at hstep
    rw [runAll_append, countP_history_append_singleton, countP_history_append_singleton]
    refine hstep.trans (congrArg (Option.map · _) (funext fun n => ?_))
    change n + _ + _ = n + _
    omega

end

/-- After any run there is one loop more that began than that ended just where one runs, each
round has begun one pause, and the source was asked once by each tick and by each round that
began with a viewer; whatever comes next is paced; and commands of the loop that come where
there are no viewers and leave it running or not as it was make no difference to anything after
them. -/
theorem lifeCycle_of_run [Machine] (graph : Graph) (source : Source) (pause : Float)
    (commands : List (Float × Command)) :
    let start : Session := { station := { graph, source, pause } }
    let s := runAll step start commands
    let events := history step start commands
    events.countP beginsLoop = events.countP endsLoop + s.station.running.toNat ∧
      (trace step start commands).flatMap (·.1.2.pauses) =
        List.replicate (events.countP makesRound) pause ∧
      s.station.source.calls? =
        source.calls?.map (· + (events.countP isTick + events.countP makesBusyRound)) ∧
      s.Paced ∧
      ∀ idle after : List (Float × Command), s.station.viewers.isEmpty = true →
        (∀ m ∈ idle, m.2.isOfLoop = true) →
          (runAll step s idle).station.running = s.station.running →
            (trace step start (commands ++ idle ++ after)).drop (commands ++ idle).length =
              (trace step start (commands ++ after)).drop commands.length := by
  intro start s events
  refine ⟨loops_runAll start commands rfl, pauses_trace start commands,
    calls?_runAll start commands, s.paced, ?_⟩
  intro idle after hv hidle hrunning
  have hself : runAll step start (commands ++ idle) = s :=
    (runAll_append step start commands idle).trans (runAll_eq_self hv hidle hrunning)
  rw [drop_trace, drop_trace, hself]

end Session

end RateCurve
