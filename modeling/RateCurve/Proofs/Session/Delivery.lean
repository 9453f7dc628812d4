import RateCurve.Proofs.History
import RateCurve.Proofs.Session.Step
import RateCurve.Proofs.Watch.Message

namespace RateCurve.Session

def Joins (v : String) : Session × Float × Command → Prop
  | (_, _, command) => command = .connect v

section

variable [Machine]

/-- A viewer disconnects, or a text that is broadcast does not reach the viewer. -/
def Leaves (v : String) : Session × Float × Command → Prop
  | (s, m) => m.2 = .disconnect v ∨ (s.broadcast? m).isSome = true ∧ s.isUp v = false

/-- What a command has to do with the texts that are broadcast. -/
structure Delivers (s : Session) (m : Float × Command) : Prop where
  /-- A viewer who can be reached receives the text once, and nobody else receives anything. -/
  received : ∀ v, (s.step m).1.2.received v =
    if v ∈ s.station.viewers.members ∧ s.isUp v = true then (s.broadcast? m).toList else []
  /-- After a text those are viewers whom it reached. -/
  left : (s.broadcast? m).isSome = true → ∀ v, v ∈ (s.step m).2.station.viewers.members ↔
    v ∈ s.station.viewers.members ∧ s.isUp v = true
  /-- A text that is announced is broadcast and answered by the number of those whom it
  reached. -/
  announced : ∀ text, m.2 = .announce text → s.broadcast? m = some text ∧
    (s.step m).1.1 = .reached (s.step m).2.station.viewers.size
  /-- A round of the loop broadcasts the text of the frame that it shows. -/
  shown : s.isRound m.2 = true → s.station.viewers.isEmpty = false →
    ∀ frame, (s.station.tick m.1).1 = .ok frame →
      (∃ text, s.broadcast? m = some text ∧ frame.Written text) ∧
        (s.step m).2.station.graph.last = some frame
  /-- A round without a frame broadcasts nothing and keeps the viewers. -/
  withheld : s.isRound m.2 = true →
    (s.station.viewers.isEmpty = true ∨ ∃ fault, (s.station.tick m.1).1 = .error fault) →
      s.broadcast? m = none ∧ (s.step m).2.station.viewers = s.station.viewers
  /-- Nothing else is broadcast. -/
  quiet : s.isRound m.2 = false → (∀ text, m.2 ≠ .announce text) → s.broadcast? m = none

theorem shown_of_isRound {s : Session} {command : Command} (h : s.isRound command = true)
    (hv : s.station.viewers.isEmpty = false) {now : Float} {frame : Frame}
    (hframe : (s.station.tick now).1 = .ok frame) :
    s.broadcast? (now, command) = some frame.text ∧
      (s.step (now, command)).2.station.graph.last = some frame := by
  have hs : s.station.shown? now = some frame := by
    rw [Station.shown?, hv, if_neg Bool.false_ne_true, hframe]
    rfl
  constructor
  · rw [broadcast?_of_isRound h, hs]
    rfl
  · rw [step_of_isRound h, Station.graph_iterate, Station.shown?_running, hs]
    rfl

theorem withheld_of_isRound {s : Session} {command : Command} (h : s.isRound command = true)
    {now : Float}
    (hnone : s.station.viewers.isEmpty = true ∨
      ∃ fault, (s.station.tick now).1 = .error fault) :
    s.broadcast? (now, command) = none ∧
      (s.step (now, command)).2.station.viewers = s.station.viewers := by
  have hs : s.station.shown? now = none := by
    rcases hnone with hv | ⟨fault, hfault⟩
    · rw [Station.shown?, hv, if_pos rfl]
    · rw [Station.shown?, hfault]
      exact ite_self _
  constructor
  · rw [broadcast?_of_isRound h, hs]
    rfl
  · rw [step_of_isRound h, Station.viewers_iterate, Station.shown?_running, hs]
    rfl

theorem delivers (s : Session) (m : Float × Command) : s.Delivers m := by
  obtain ⟨now, command⟩ := m
  constructor
  case received => exact s.received_step (now, command)
  case left =>
    intro hb v
    rw [mem_viewers_step]
    have hc : command ≠ .connect v := by
      rintro rfl
      cases hb
    have hd : command ≠ .disconnect v := by
      rintro rfl
      cases hb
    simp only [hc, hd, hb, true_and, false_or, Bool.not_eq_false]
  case announced =>
    rintro text rfl
    refine ⟨rfl, congrArg Reply.reached ?_⟩
    exact List.length_map _
  case shown =>
    intro h hv frame hframe
    obtain ⟨htext, hlast⟩ := shown_of_isRound h hv hframe
    exact ⟨⟨frame.text, htext, frame.written_text⟩, hlast⟩
  case withheld => exact fun h => withheld_of_isRound h
  case quiet =>
    intro hround hc
    cases command with
    | announce text => exact absurd rfl (hc text)
    | start | advance => exact broadcast?_of_not_isRound hround (by simp) now
    | _ => rfl

/-- After any run the viewers are those who have joined and not left since, and texts get
through to those whose links were never severed; whatever comes next delivers the text that it
broadcasts, if there is one, exactly once to each viewer whom it can reach. -/
theorem delivers_of_run (graph : Graph) (source : Source) (pause : Float)
    (commands : List (Float × Command)) (m : Float × Command) :
    let start : Session := { station := { graph, source, pause } }
    let s := runAll step start commands
    (∀ v, v ∈ s.station.viewers.members ↔
      Lasts (Joins v) (Leaves v) (history step start commands)) ∧
      (∀ v, s.isUp v = true ↔ ∀ now, (now, .sever v) ∉ commands) ∧ s.Delivers m := by
  intro start s
  refine ⟨fun v => ?_, isUp_runAll rfl commands, delivers s m⟩
  exact iff_lasts step (I := fun _ => True) (P := fun s => v ∈ s.station.viewers.members)
    (fun _ _ _ => trivial) (fun s m _ => s.mem_viewers_step m v) trivial
    List.not_mem_nil commands

end

/-- A viewer who connects twice receives a text once, and one whose link is down is parted
with. -/
example :
    let commands : List (Float × Command) := [(0.0, .connect "a"), (0.0, .connect "b"),
      (0.0, .connect "a"), (0.0, .sever "b"), (0.0, .announce "x"), (0.0, .announce "y")]
    let start : Session :=
      { station :=
        { graph := { geometry := .standard }
          source := .fixed { events := none }
          pause := 0.1 } }
    (trace step start commands).map
      (fun ((_, output), s) => (output.sent, s.station.viewers.members)) =
      [([], ["a"]), ([], ["a", "b"]), ([], ["a", "b"]), ([], ["a", "b"]), ([("a", "x")], ["a"]),
        ([("a", "y")], ["a"])] := by
  decide

end RateCurve.Session
