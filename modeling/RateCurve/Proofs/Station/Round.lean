import RateCurve.Station

namespace RateCurve

def Output.received {ι : Type} [DecidableEq ι] (o : Output ι) (v : ι) : List String :=
  o.sent.filterMap fun (w, text) => if w = v then some text else none

theorem filterMap_sent {ι : Type} [DecidableEq ι] {vs : List ι} (h : vs.Nodup) (text : String)
    (v : ι) :
    (vs.map (·, text)).filterMap (fun (w, text) => if w = v then some text else none) =
      if v ∈ vs then [text] else [] := by
  induction vs with
  | nil => rfl
  | cons w vs ih =>
    obtain ⟨hw, hvs⟩ := List.nodup_cons.1 h
    rw [List.map_cons, List.filterMap_cons, ih hvs]
    by_cases hwv : w = v
    · subst hwv
      simp only [if_true, if_neg hw, List.mem_cons_self]
    · simp only [if_neg hwv, List.mem_cons, Ne.symm hwv, false_or]

namespace Station

variable {σ ι : Type} [Feed σ] [Machine]

/-- Drawing a frame asks the source once. It fails and leaves the display as it is, or shows the
frame. -/
theorem tick_cases (s : Station σ ι) (now : Float) :
    (∃ fault, s.tick now = (.error fault, { s with source := (Feed.pull s.source now).2 })) ∨
      ∃ frame, s.tick now = (.ok frame, { s with
        source := (Feed.pull s.source now).2
        graph := { s.graph with last := some frame } }) := by
  unfold tick
  cases hp : Feed.pull s.source now with
  | mk events source =>
    cases events with
    | error fault => exact .inl ⟨fault, rfl⟩
    | ok events =>
      simp only [Graph.refresh]
      cases Frame.next s.graph.geometry (.double now) events (.double s.graph.peak) with
      | error fault => exact .inl ⟨fault, rfl⟩
      | ok frame => exact .inr ⟨frame, rfl⟩

/-- The frame that a round of the loop shows: none without viewers or where drawing it fails. -/
def shown? (s : Station σ ι) (now : Float) : Option Frame :=
  if s.viewers.isEmpty then none else (s.tick now).1.toOption

@[simp]
theorem shown?_running (s : Station σ ι) (running : Bool) (now : Float) :
    { s with running }.shown? now = s.shown? now := by
  unfold shown? tick
  cases Feed.pull s.source now with
  | mk events source => cases events <;> rfl

/-- A round without viewers leaves everything as it is, one that fails has asked the source, and
one that shows a frame sends its text to the viewers whom it reaches and parts with the
others. -/
theorem iterate_cases (s : Station σ ι) (up : ι → Bool) (now : Float) :
    (s.viewers.isEmpty = true ∧ s.shown? now = none ∧
        s.iterate up now = ({ pauses := [s.pause] }, s)) ∨
      (s.viewers.isEmpty = false ∧ s.shown? now = none ∧
        s.iterate up now =
          ({ pauses := [s.pause] }, { s with source := (Feed.pull s.source now).2 })) ∨
      ∃ frame, s.viewers.isEmpty = false ∧ s.shown? now = some frame ∧
        s.iterate up now =
          ({ sent := (s.viewers.reached up).map (·, frame.text), pauses := [s.pause] },
            { s with
              source := (Feed.pull s.source now).2
              graph := { s.graph with last := some frame }
              viewers := s.viewers.filter up }) := by
  unfold iterate shown?
  cases hv : s.viewers.isEmpty with
  | true => exact .inl ⟨rfl, rfl, rfl⟩
  | false =>
    rcases s.tick_cases now with ⟨fault, htick⟩ | ⟨frame, htick⟩
    · rw [htick]
      exact .inr (.inl ⟨rfl, rfl, rfl⟩)
    · rw [htick]
      exact .inr (.inr ⟨frame, rfl, rfl, rfl⟩)

section

variable {s : Station σ ι} (up : ι → Bool) (now : Float)

theorem start_of_not_running (h : s.running = false) :
    s.start up now = { s with running := true }.iterate up now := by
  rw [start, h, if_neg Bool.false_ne_true]

theorem start_of_running (h : s.running = true) : s.start up now = ({}, s) := by
  rw [start, if_pos h]

theorem advance_of_running (h : s.running = true) :
    s.advance up now = { s with running := true }.iterate up now := by
  rw [advance, if_pos h, ← h]

theorem advance_of_not_running (h : s.running = false) : s.advance up now = ({}, s) := by
  rw [advance, h, if_neg Bool.false_ne_true]

end

theorem iterate_of_isEmpty {s : Station σ ι} (h : s.viewers.isEmpty = true) (up : ι → Bool)
    (now : Float) : s.iterate up now = ({ pauses := [s.pause] }, s) := by
  rw [iterate, h, if_pos rfl]

section

variable (s : Station σ ι) (up : ι → Bool) (now : Float)

theorem pauses_iterate : (s.iterate up now).1.pauses = [s.pause] := by
  rcases s.iterate_cases up now with ⟨-, -, h⟩ | ⟨-, -, h⟩ | ⟨frame, -, -, h⟩ <;> rw [h]

theorem running_iterate : (s.iterate up now).2.running = s.running := by
  rcases s.iterate_cases up now with ⟨-, -, h⟩ | ⟨-, -, h⟩ | ⟨frame, -, -, h⟩ <;> rw [h]

theorem pause_iterate : (s.iterate up now).2.pause = s.pause := by
  rcases s.iterate_cases up now with ⟨-, -, h⟩ | ⟨-, -, h⟩ | ⟨frame, -, -, h⟩ <;> rw [h]

theorem source_iterate :
    (s.iterate up now).2.source =
      if s.viewers.isEmpty then s.source else (Feed.pull s.source now).2 := by
  rcases s.iterate_cases up now with ⟨hv, -, h⟩ | ⟨hv, -, h⟩ | ⟨frame, hv, -, h⟩ <;>
    simp only [h, hv, if_true, Bool.false_eq_true, if_false]

theorem graph_iterate :
    (s.iterate up now).2.graph =
      (s.shown? now).elim s.graph fun frame => { s.graph with last := some frame } := by
  rcases s.iterate_cases up now with ⟨-, hs, h⟩ | ⟨-, hs, h⟩ | ⟨frame, -, hs, h⟩ <;>
    rw [h, hs] <;> rfl

theorem viewers_iterate :
    (s.iterate up now).2.viewers =
      (s.shown? now).elim s.viewers fun _ => s.viewers.filter up := by
  rcases s.iterate_cases up now with ⟨-, hs, h⟩ | ⟨-, hs, h⟩ | ⟨frame, -, hs, h⟩ <;>
    rw [h, hs] <;> rfl

theorem mem_viewers_iterate {v : ι} :
    v ∈ (s.iterate up now).2.viewers.members ↔
      v ∈ s.viewers.members ∧ ((s.shown? now).isSome = true → up v = true) := by
  rw [viewers_iterate]
  cases s.shown? now with
  | none => exact (and_iff_left nofun).symm
  | some frame =>
    simp only [Option.elim, Audience.mem_filter, Option.isSome_some, true_imp_iff]

theorem sent_iterate_eq :
    (s.iterate up now).1.sent =
      (s.shown? now).elim [] fun frame => (s.viewers.reached up).map (·, frame.text) := by
  rcases s.iterate_cases up now with ⟨-, hs, h⟩ | ⟨-, hs, h⟩ | ⟨frame, -, hs, h⟩ <;>
    rw [h, hs] <;> rfl

end

omit [Feed σ] [Machine] in
theorem received_broadcast [DecidableEq ι] (s : Station σ ι) (up : ι → Bool) (text : String)
    (pauses : List Float) (v : ι) :
    ({ sent := (s.broadcast up text).1, pauses } : Output ι).received v =
      if v ∈ s.viewers.members ∧ up v = true then [text] else [] := by
  have h := filterMap_sent (s.viewers.nodup.sublist (List.filter_sublist (p := up))) text v
  simp only [List.mem_filter] at h
  exact h

theorem received_iterate [DecidableEq ι] (s : Station σ ι) (up : ι → Bool)
    (now : Float) (v : ι) :
    (s.iterate up now).1.received v =
      if v ∈ s.viewers.members ∧ up v = true then ((s.shown? now).map (·.text)).toList
      else [] := by
  rcases s.iterate_cases up now with ⟨-, hs, h⟩ | ⟨-, hs, h⟩ | ⟨frame, -, hs, h⟩
  · rw [h, hs]
    exact (ite_self _).symm
  · rw [h, hs]
    exact (ite_self _).symm
  · rw [h, hs]
    exact s.received_broadcast up frame.text [s.pause] v

end Station

end RateCurve
