import RateCurve.Proofs.Service.Viewers
import RateCurve.Proofs.Station.Repeat

namespace RateCurve.Service

section

variable [Machine] {s : Service} {command : Command}

theorem isRound_frame (now : Float) :
    (s.step (now, .frame)).2.isRound command = s.isRound command := by
  have hrunning : (s.step (now, .frame)).2.station.running = s.station.running :=
    s.station.running_tick now
  cases command <;> simp only [isRound, hrunning]

/-- A round for viewers right after a request for a frame is as if there had been none. -/
theorem round_of_frame (hround : s.isRound command = true)
    (hv : s.station.viewers.isEmpty = false) (now : Float) :
    (s.step (now, .frame)).2.step (now, command) = s.step (now, command) := by
  have htick := s.station.tick_with s.station.viewers true now
  have hrunning : { (s.station.tick now).2 with running := true } =
      ({ s.station with running := true }.tick now).2 := by
    rw [htick, ← s.station.viewers_tick now]
  rw [step_of_isRound ((isRound_frame now).trans hround), step_of_isRound hround]
  change ((_, ({ (s.station.tick now).2 with running := true }.iterate s.isUp now).1),
    ({ s with station :=
        ({ (s.station.tick now).2 with running := true }.iterate s.isUp now).2 } :
      Service)) = _
  rw [hrunning, Station.iterate_tick s.isUp (s := { s.station with running := true }) hv]

theorem frame_of_round (hround : s.isRound command = true)
    (hv : s.station.viewers.isEmpty = false) (now : Float) :
    ((s.step (now, command)).2.step (now, .frame)).2 = (s.step (now, command)).2 := by
  rw [step_of_isRound hround]
  have h : (({ s.station with running := true }.iterate s.isUp now).2.tick now).2 =
      ({ s.station with running := true }.iterate s.isUp now).2 :=
      Station.tick_iterate s.isUp hv
  exact congrArg (fun station => ({ s with station } : Service)) h

end

section

variable [Machine]

def pushed (s : Service) (commands : List (Float × Command)) : List (Connection.Key × String) :=
  (trace step s commands).flatMap (·.1.2.sent)

theorem pushed_append (s : Service) (before after : List (Float × Command)) :
    pushed s (before ++ after) = pushed s before ++ pushed (runAll step s before) after := by
  rw [pushed, trace_append, List.flatMap_append]
  rfl

theorem pushed_cons (s : Service) (m : Float × Command) (after : List (Float × Command)) :
    pushed s (m :: after) = (s.step m).1.2.sent ++ pushed (s.step m).2 after :=
  List.flatMap_cons

/-- Nobody who is sent a text can tell whether a frame is requested at the moment of a command,
right before the command or right after it. -/
def Unnoticed (s : Service) (before : List (Float × Command)) (m : Float × Command)
    (after : List (Float × Command)) : Prop :=
  pushed s (before ++ (m.1, .frame) :: m :: after) = pushed s (before ++ m :: after) ∧
    pushed s (before ++ m :: (m.1, .frame) :: after) = pushed s (before ++ m :: after)

theorem unnoticed_of_isRound {s : Service} {before : List (Float × Command)}
    {command : Command} (hround : (runAll step s before).isRound command = true)
    (hv : (runAll step s before).station.viewers.isEmpty = false) (now : Float)
    (after : List (Float × Command)) : s.Unnoticed before (now, command) after := by
  have hearly := round_of_frame hround hv now
  have hlate := frame_of_round hround hv now
  constructor
  · rw [pushed_append, pushed_append, pushed_cons, pushed_cons, hearly, ← pushed_cons]
    rfl
  · rw [pushed_append, pushed_append, pushed_cons, pushed_cons, hlate, pushed_cons]
    rfl

/-- A frame that is drawn again at the same moment is the same, and leaves the log, the scale
and the frame shown as they are. So nobody who is sent a text can tell whether a frame is
requested at the moment of a round for viewers, right before the round or right after it. -/
theorem second_look_unnoticed :
    (∀ (ι : Type) (s : Station Source ι) (now : Float) (frame : Frame),
      (s.tick now).1 = .ok frame →
        ((s.tick now).2.tick now).1 = .ok frame ∧
          ((s.tick now).2.tick now).2.graph = (s.tick now).2.graph ∧
          ((s.tick now).2.tick now).2.source.log? = (s.tick now).2.source.log? ∧
          ((s.tick now).2.tick now).2.source.fixed?.map (·.events) =
            (s.tick now).2.source.fixed?.map (·.events)) ∧
      ∀ (s : Service) (before : List (Float × Command)) (now : Float) (command : Command)
        (after : List (Float × Command)), (runAll step s before).isRound command = true →
          (runAll step s before).station.viewers.isEmpty = false →
            s.Unnoticed before (now, command) after := by
  constructor
  · intro ι s now frame h
    rw [← h]
    exact s.tick_tick_source now
  · intro s before now command after hround hv
    exact unnoticed_of_isRound hround hv now after

end

/-- A log with an entry that is not a number, and a viewer whom the first round of the loop
finds. -/
theorem second_look_unnoticed_standard :
    (∃ s : Station Source String,
      s.source.log?.map (·.entries) = some [.double (0.0 / 0.0), .double 200.0] ∧
        ∃ frame, (s.tick 250.0).1 = .ok frame ∧ ((s.tick 250.0).2.tick 250.0).1 = .ok frame) ∧
      ∃ s, ofEnvironment [] = .ok s ∧
        s.Unnoticed [(0.0, .opened "v" .viewer)] (100.0, .startup) [(200.0, .advance)] := by
  obtain ⟨htick, hround⟩ := second_look_unnoticed
  constructor
  · -- A layout of three samples is small enough to be drawn here.
    let s : Station Source String :=
      { graph := { geometry := ⟨300, 100, 10.0, by decide, by decide, by decide +kernel⟩ }
        source := .log { retention := 67000.0, entries := [.double (0.0 / 0.0), .double 200.0] }
        pause := 0.1 }
    have hok : (s.tick 250.0).1.toOption.isSome = true := by decide +kernel
    cases h : (s.tick 250.0).1 with
    | error fault =>
      rw [h] at hok
      cases hok
    | ok frame => exact ⟨s, rfl, frame, h, (htick String s 250.0 frame h).1⟩
  · have hok : (ofEnvironment []).toOption.isSome = true := by decide +kernel
    cases hs : ofEnvironment [] with
    | error fault =>
      rw [hs] at hok
      cases hok
    | ok s =>
      obtain ⟨settings, graph, retention, pause, rfl⟩ := eq_start_of_ofEnvironment hs
      exact ⟨_, rfl, hround _ _ _ _ _ rfl rfl⟩

def brief : List (String × String) :=
  [("ACTIVITY_GRAPH_WINDOW_MS", "1"), ("ACTIVITY_GRAPH_RESOLUTION_MS", "1")]

def reported : List (Float × Command) :=
  [(0.0, .opened "r" .reporter), (0.0, .received "r" "{}")]

def watched : List (Float × Command) :=
  [(0.0, .opened "v" .viewer), (1.0, .advance)]

/-- Nothing is drawn in a round that finds no viewers. A frame that is requested at its moment
raises the scale, and so is noticed in a later one. -/
theorem not_unnoticed_idle : ∃ s, ofEnvironment brief = .ok s ∧
    (runAll step s reported).isRound .startup = true ∧
      ¬s.Unnoticed reported (0.0, .startup) watched := by
  have h : (ofEnvironment brief).toOption.map (fun s =>
      ((runAll step s reported).isRound .startup,
        decide (pushed s (reported ++ (0.0, .frame) :: (0.0, .startup) :: watched) =
          pushed s (reported ++ (0.0, .startup) :: watched)))) = some (true, false) := by
    decide +kernel
  cases hs : ofEnvironment brief with
  | error fault =>
    rw [hs] at h
    cases h
  | ok s =>
    rw [hs, Except.toOption, Option.map_some, Option.some_inj, Prod.mk.injEq,
      decide_eq_false_iff_not] at h
    obtain ⟨hround, hne⟩ := h
    exact ⟨s, rfl, hround, fun hunnoticed => hne hunnoticed.1⟩

end RateCurve.Service
