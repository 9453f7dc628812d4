import RateCurve.Curve.Geometry
import RateCurve.Proofs.EventLog.Retention

namespace RateCurve.EventLog
open Double

/-- No command of a run leaves an entry that is too old as of its moment. -/
def Forgets (retention : Float) (commands : List (Float × Command)) : Prop :=
  ∀ before command, before ++ [command] <+: commands → ∀ now ∈ moment? command,
    ∀ t ∈ (runAll step { retention } (before ++ [command])).entries,
      isKept retention now t = true

/-- A log whose first entry is not a number. Nothing is below that entry, so that the search for
the earliest one ends where it began. -/
def Clogged (log : EventLog) : Prop :=
  ∃ t ∈ log.entries.head?, ¬t.IsNumber

/-- After a run a command records what is not a number into an empty log. -/
def Clogs (retention : Float) (before : List (Float × Command)) (command : Float × Command) :
    Prop :=
  (runAll step { retention } before).entries = [] ∧ ∃ t ∈ recorded? command, ¬t.IsNumber

theorem earliest?_cons_of_not_isNumber {first : Number} (h : ¬first.IsNumber)
    (rest : List Number) :
    earliest? (first :: rest) = some first := by
  rw [earliest?, Option.some_inj]
  induction rest with
  | nil => rfl
  | cons t rest ih =>
    rw [List.foldl_cons, if_neg fun hlt => h (Number.isNumber_of_isBelow hlt).2, ih]

section

variable {log : EventLog} {command : Float × Command}

theorem Clogged.prune (h : log.Clogged) (now : Float) : log.prune now = log := by
  obtain ⟨first, hfirst, hnumber⟩ := h
  obtain ⟨rest, hentries⟩ := List.head?_eq_some_iff.1 hfirst
  apply prune_of_not_isBelow
  intro t ht
  rw [hentries, earliest?_cons_of_not_isNumber hnumber] at ht
  cases ht
  exact Bool.of_not_eq_true fun hlt => hnumber (Number.isNumber_of_isBelow hlt).1

theorem Clogged.extended (h : log.Clogged) (command : Float × Command) :
    (log.extended command).Clogged := by
  obtain ⟨first, hfirst, hnumber⟩ := h
  obtain ⟨rest, hentries⟩ := List.head?_eq_some_iff.1 hfirst
  refine ⟨first, ?_, hnumber⟩
  rw [EventLog.extended, hentries]
  rfl

theorem step_of_clogged (h : (log.extended command).Clogged) :
    (log.step command).2 = log.extended command := by
  rw [step_eq_prune]
  cases moment? command with
  | none => rfl
  | some now => exact h.prune now

theorem Clogged.entries_runAll (h : log.Clogged) (commands : List (Float × Command)) :
    (runAll step log commands).entries = log.entries ++ commands.filterMap recorded? := by
  induction commands generalizing log with
  | nil => exact (List.append_nil _).symm
  | cons command commands ih =>
    have hextended := h.extended command
    change (runAll step (log.step command).2 commands).entries = _
    rw [step_of_clogged hextended, ih hextended, filterMap_cons_eq_append, ← List.append_assoc]
    rfl

theorem isKept_of_not_clogged (h : ¬(log.extended command).Clogged) {now : Float}
    (hnow : now ∈ moment? command) :
    ∀ t ∈ (log.step command).2.entries, isKept log.retention now t = true := by
  rw [step_eq_prune, Option.mem_def.1 hnow]
  apply isKept_of_mem_prune
  intro t ht
  by_contra hnumber
  exact h ⟨t, ht, hnumber⟩

/-- Where something is forgotten, only numbers remain. -/
theorem clogged_extended_of_step (h : (log.step command).2.Clogged) :
    (log.extended command).Clogged := by
  rw [step_eq_prune] at h
  cases hmoment : moment? command with
  | none =>
    rw [hmoment] at h
    exact h
  | some now =>
    rw [hmoment] at h
    change ((log.extended command).prune now).Clogged at h
    rcases prune_cases (log.extended command) now with ⟨-, heq⟩ | ⟨-, -, -, heq⟩
    · rwa [heq] at h
    · obtain ⟨t, ht, hnumber⟩ := h
      rw [heq] at ht
      have hkept := (List.mem_filter.1 (List.mem_of_mem_head? ht)).2
      exact absurd (Number.isNumber_of_isAtMost hkept) hnumber

theorem clogged_or_of_extended (h : (log.extended command).Clogged) :
    log.Clogged ∨ log.entries = [] ∧ ∃ t ∈ recorded? command, ¬t.IsNumber := by
  obtain ⟨t, ht, hnumber⟩ := h
  cases hentries : log.entries with
  | nil =>
    simp only [extended, hentries, List.nil_append, Option.head?_toList] at ht
    exact .inr ⟨rfl, t, ht, hnumber⟩
  | cons first rest =>
    simp only [extended, hentries, List.cons_append, List.head?_cons] at ht
    exact .inl ⟨t, by rw [hentries]; exact ht, hnumber⟩

end

section

variable {retention : Float} {commands earlier : List (Float × Command)}
  {first : Float × Command}

theorem exists_clogs (h : (runAll step { retention } commands).Clogged) :
    ∃ earlier first since, earlier ++ first :: since = commands ∧
    Clogs retention earlier first := by
  induction commands using List.reverseRecOn with
  | nil =>
    obtain ⟨t, ht, -⟩ := h
    cases ht
  | append_singleton commands command ih =>
    rw [runAll_append_singleton] at h
    -- Forgetting clogs nothing: either the log was clogged before, or this command clogs it.
    rcases clogged_or_of_extended (clogged_extended_of_step h) with hbefore | hclogs
    · obtain ⟨earlier, first, since, rfl, hclogs⟩ := ih hbefore
      exact ⟨earlier, first, since ++ [command],
        by rw [List.append_assoc, List.cons_append], hclogs⟩
    · exact ⟨commands, command, [], rfl, hclogs⟩

theorem Clogs.entries_runAll (h : Clogs retention earlier first)
    (since : List (Float × Command)) :
    (runAll step { retention } (earlier ++ first :: since)).entries =
      (first :: since).filterMap recorded? := by
  obtain ⟨hentries, t, ht, hnumber⟩ := h
  have hextended : ((runAll step { retention } earlier).extended first).entries =
      (recorded? first).toList := by
    rw [extended, hentries]
    rfl
  have hclogged : ((runAll step { retention } earlier).extended first).Clogged := by
    refine ⟨t, ?_, hnumber⟩
    rwa [hextended, Option.head?_toList]
  rw [List.append_cons, runAll_append, runAll_append_singleton, step_of_clogged hclogged,
    hclogged.entries_runAll, hextended, filterMap_cons_eq_append]

/-- A run forgets what is too old except while the log is clogged: from the command that records
what is not a number into an empty log nothing is forgotten, so that nothing recorded since may
become too old. -/
theorem forgets_iff (retention : Float) (commands : List (Float × Command)) :
    Forgets retention commands ↔
      ∀ before command, before ++ [command] <+: commands → ∀ now ∈ moment? command,
        ∀ earlier first since, earlier ++ first :: since = before ++ [command] →
          Clogs retention earlier first →
          ∀ t ∈ (first :: since).filterMap recorded?, isKept retention now t = true := by
  constructor
  · intro h before command hprefix now hnow earlier first since hsplit hclogs t ht
    apply h before command hprefix now hnow
    rwa [← hsplit, hclogs.entries_runAll]
  · intro h before command hprefix now hnow t ht
    by_cases hclogged : (runAll step { retention } (before ++ [command])).Clogged
    · obtain ⟨earlier, first, since, hsplit, hclogs⟩ := exists_clogs hclogged
      apply h before command hprefix now hnow earlier first since hsplit hclogs
      rwa [← hsplit, hclogs.entries_runAll] at ht
    · rw [runAll_append_singleton] at hclogged ht
      have hextended : ¬((runAll step { retention } before).extended command).Clogged := by
        intro hextended
        rw [step_of_clogged hextended] at hclogged
        exact hclogged hextended
      have hkept := isKept_of_not_clogged hextended hnow t ht
      rwa [retention_runAll] at hkept

/-- After a `NaN` a log of one minute keeps an event of more than a minute and a half ago. -/
theorem not_forgets_nan :
    ∃ retention, Geometry.standard.visibleAge = .ok retention ∧ HasValue retention ∧
      ¬Forgets retention [(0.0, .record (some (.double (0.0 / 0.0)))),
        (0.0, .record (some (.double (-100000.0))))] := by
  have hold : Geometry.standard.visibleAge.toOption.any
      (fun r => r.isFinite && !isKept r 0.0 (.double (-100000.0))) = true := by
    decide +kernel
  cases hage : Geometry.standard.visibleAge with
  | error e =>
    rw [hage] at hold
    cases hold
  | ok retention =>
    rw [hage] at hold
    obtain ⟨hfinite, hold⟩ := (Bool.and_eq_true _ _).mp hold
    refine ⟨retention, rfl, hasValue_of_isFinite hfinite, fun h => ?_⟩
    have hnan : ¬(Number.double (0.0 / 0.0)).IsNumber := fun hnumber => hnumber (by rfl)
    have hclogs : Clogs retention [] (0.0, .record (some (.double (0.0 / 0.0)))) :=
      ⟨rfl, _, rfl, hnan⟩
    have hentries := hclogs.entries_runAll [(0.0, .record (some (.double (-100000.0))))]
    have hkept := h [_] _ List.prefix_rfl 0.0 rfl (.double (-100000.0))
      (hentries ▸ List.mem_cons_of_mem _ List.mem_cons_self)
    rw [hkept] at hold
    cases hold

end

end RateCurve.EventLog
