import Mathlib.Data.List.Induction
import Mathlib.Tactic.SplitIfs
import RateCurve.Proofs.Station.Round
import RateCurve.Session
import RateCurve.Trace

namespace RateCurve.Session

/-- A round of the loop: its first one, or the one after a pause. -/
def isRound (s : Session) : Command → Bool
  | .start => !s.station.running
  | .advance => s.station.running
  | _ => false

section

variable [Machine]

theorem step_of_isRound {s : Session} {command : Command} (h : s.isRound command = true)
    (now : Float) :
    s.step (now, command) =
      ((.done, ({ s.station with running := true }.iterate s.isUp now).1),
        { s with station := ({ s.station with running := true }.iterate s.isUp now).2 }) := by
  cases command with
  | start =>
    have hr : s.station.running = false := by simpa only [isRound, Bool.not_eq_true'] using h
    simp only [step, Station.start_of_not_running s.isUp now hr]
  | advance => simp only [step, Station.advance_of_running s.isUp now h]
  | _ => cases h

theorem step_of_not_isRound {s : Session} {command : Command} (h : s.isRound command = false)
    (hc : command = .start ∨ command = .advance) (now : Float) :
    s.step (now, command) = ((.done, {}), s) := by
  rcases hc with rfl | rfl
  · have hr : s.station.running = true := by simpa only [isRound, Bool.not_eq_false'] using h
    simp only [step, Station.start_of_running s.isUp now hr]
  · simp only [step, Station.advance_of_not_running s.isUp now h]

/-- The text that a command broadcasts, if it broadcasts one. -/
def broadcast? (s : Session) (m : Float × Command) : Option String :=
  match m.2 with
  | .announce text => some text
  | command => if s.isRound command then (s.station.shown? m.1).map (·.text) else none

theorem broadcast?_of_isRound {s : Session} {command : Command} (h : s.isRound command = true)
    (now : Float) :
    s.broadcast? (now, command) = (s.station.shown? now).map (·.text) := by
  cases command with
  | start => exact if_pos h
  | advance => exact if_pos h
  | _ => cases h

theorem broadcast?_of_not_isRound {s : Session} {command : Command}
    (h : s.isRound command = false) (hc : command = .start ∨ command = .advance) (now : Float) :
    s.broadcast? (now, command) = none := by
  rcases hc with rfl | rfl <;> exact if_neg (by rw [h]; decide)

end

section Links

variable (s : Session)

theorem id_link (id : String) : (s.link id).id = id := by
  cases h : s.links.find? (·.id == id) with
  | none => rw [link, h, Option.getD_none]
  | some l =>
    rw [link, h, Option.getD_some]
    simpa only [beq_iff_eq] using List.find?_some h

theorem link_setLink (l : Link) (id : String) :
    (s.setLink l).link id = if l.id = id then l else s.link id := by
  simp only [link, setLink]
  by_cases h : l.id = id
  · simp only [List.find?_cons, beq_iff_eq.2 h, if_pos h, Option.getD_some]
  · simp only [List.find?_cons, beq_eq_false_iff_ne.2 h, if_neg h, List.find?_filter]
    congr 2
    funext k
    by_cases hk : k.id = id
    · have hne : k.id ≠ l.id := fun hkl => h (hkl.symm.trans hk)
      simp only [bne_iff_ne.2 hne, true_and, Bool.decide_eq_true]
    · simp only [beq_eq_false_iff_ne.2 hk, Bool.false_eq_true, and_false, decide_false]

theorem isUp_setLink (l : Link) (v : String) :
    (s.setLink l).isUp v = if l.id = v then l.up else s.isUp v := by
  rw [isUp, link_setLink]
  split_ifs <;> rfl

theorem isUp_step [Machine] (m : Float × Command) (v : String) :
    (s.step m).2.isUp v = true ↔ s.isUp v = true ∧ m.2 ≠ .sever v := by
  obtain ⟨now, command⟩ := m
  cases command with
  | connect id =>
    change (s.setLink { s.link id with accepted := (s.link id).accepted + 1 }).isUp v = true ↔ _
    simp only [isUp_setLink, id_link, ne_eq, reduceCtorEq, not_false_eq_true, and_true]
    split_ifs with h
    · rw [← h]
      rfl
    · rfl
  | sever id =>
    change (s.setLink { s.link id with up := false }).isUp v = true ↔ _
    simp only [isUp_setLink, id_link, ne_eq, Command.sever.injEq]
    split_ifs with h
    · exact iff_of_false not_false fun hup => hup.2 h
    · exact (and_iff_left h).symm
  | _ => exact (and_iff_left nofun).symm

end Links

variable [Machine]

theorem isUp_runAll {s : Session} (h : s.links = []) (commands : List (Float × Command))
    (v : String) :
    (runAll step s commands).isUp v = true ↔ ∀ now, (now, .sever v) ∉ commands := by
  induction commands using List.reverseRecOn with
  | nil =>
    refine iff_of_true ?_ fun _ => List.not_mem_nil
    change (s.link v).up = true
    rw [link, h]
    rfl
  | append_singleton commands m ih =>
    rw [runAll_append_singleton, isUp_step, ih]
    simp only [List.mem_append, List.mem_singleton, not_or, forall_and]
    refine and_congr_right fun _ => ?_
    constructor
    · rintro hne now rfl
      exact hne rfl
    · rintro hne hm
      exact hne m.1 (Prod.ext rfl hm.symm)

/-- A command makes a viewer of whom it connects. Of those who were viewers it parts with whom
it disconnects and with whom a text that it broadcasts does not reach. -/
theorem mem_viewers_step (s : Session) (m : Float × Command) (v : String) :
    v ∈ (s.step m).2.station.viewers.members ↔
      m.2 = .connect v ∨ v ∈ s.station.viewers.members ∧
        ¬(m.2 = .disconnect v ∨ (s.broadcast? m).isSome = true ∧ s.isUp v = false) := by
  obtain ⟨now, command⟩ := m
  by_cases hround : s.isRound command = true
  · have hc : command ≠ .connect v := by rintro rfl; cases hround
    have hd : command ≠ .disconnect v := by rintro rfl; cases hround
    simp only [step_of_isRound hround, broadcast?_of_isRound hround,
      Station.mem_viewers_iterate, Station.shown?_running, Option.isSome_map, hc, hd, false_or,
      not_and, Bool.not_eq_false]
  · -- Of the other commands only an announcement broadcasts, so that nobody else is missed.
    have hquiet (h : s.broadcast? (now, command) = none) :
        ¬((s.broadcast? (now, command)).isSome = true ∧ s.isUp v = false) := by
      rw [h]
      exact fun hm => Bool.false_ne_true hm.1
    cases command with
    | connect id =>
      change v ∈ (s.station.viewers.insert id).members ↔ _
      simp only [Audience.mem_insert, hquiet rfl, Command.connect.injEq, reduceCtorEq, or_self,
        not_false_eq_true, and_true]
      exact or_comm.trans (or_congr_left eq_comm)
    | disconnect id =>
      change v ∈ (s.station.viewers.erase id).members ↔ _
      simp only [Audience.mem_erase, hquiet rfl, Command.disconnect.injEq,
        reduceCtorEq, or_false, false_or]
      exact and_congr_right' (not_congr eq_comm)
    | announce text =>
      change v ∈ (s.station.viewers.filter s.isUp).members ↔ _
      have hb : s.broadcast? (now, .announce text) = some text := rfl
      simp only [Audience.mem_filter, hb, Option.isSome_some, true_and, reduceCtorEq, false_or,
        Bool.not_eq_false]
    | tick =>
      change v ∈ (s.station.tick now).2.viewers.members ↔ _
      simp only [hquiet rfl, reduceCtorEq, or_self, not_false_eq_true, and_true, false_or]
      rcases s.station.tick_cases now with ⟨fault, h⟩ | ⟨frame, h⟩ <;> rw [h]
    | start | advance =>
      have hr := Bool.of_not_eq_true hround
      rw [step_of_not_isRound hr (by simp)]
      simp only [hquiet (broadcast?_of_not_isRound hr (by simp) now), reduceCtorEq, or_self,
        not_false_eq_true, and_true, false_or]
    | _ =>
      change v ∈ s.station.viewers.members ↔ _
      simp only [hquiet rfl, reduceCtorEq, or_self, not_false_eq_true, and_true, false_or]

theorem received_step (s : Session) (m : Float × Command) (v : String) :
    (s.step m).1.2.received v =
      if v ∈ s.station.viewers.members ∧ s.isUp v = true then (s.broadcast? m).toList
      else [] := by
  obtain ⟨now, command⟩ := m
  by_cases hround : s.isRound command = true
  · simp only [step_of_isRound hround, broadcast?_of_isRound hround, Station.received_iterate,
      Station.shown?_running]
  · have hr := Bool.of_not_eq_true hround
    cases command with
    | announce text => exact s.station.received_broadcast s.isUp text [] v
    | start | advance =>
      rw [step_of_not_isRound hr (by simp), broadcast?_of_not_isRound hr (by simp)]
      exact (ite_self _).symm
    | _ => exact (ite_self _).symm

end RateCurve.Session
