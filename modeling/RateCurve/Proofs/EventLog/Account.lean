import RateCurve.Proofs.EventLog.Retention

namespace RateCurve.EventLog
open Double

/-- Commands that look at the entries as of finite moments and record numbers, which may go back
and forth. -/
structure Legible (commands : List (Float × Command)) : Prop where
  moments_finite : ∀ m ∈ commands.filterMap moment?, m.isFinite = true
  recorded_isNumber : ∀ t ∈ commands.filterMap recorded?, t.IsNumber

theorem Legible.of_append {commands later : List (Float × Command)}
    (h : Legible (commands ++ later)) : Legible commands := by
  obtain ⟨hm, hr⟩ := h
  rw [List.filterMap_append] at hm hr
  constructor
  · intro m hmem
    exact hm m (List.mem_append_left _ hmem)
  · intro t hmem
    exact hr t (List.mem_append_left _ hmem)

/-- The log that a run of commands has to lead to. -/
def account (retention : Float) (commands : List (Float × Command)) : EventLog :=
  { retention
    entries := surviving retention commands
    total := (commands.filterMap recorded?).length }

/-- What a log that has carried out a command answers to it. A moment that cannot be read has no
answer. -/
def answer? (log : EventLog) : Float × Command → Option Reply
  | (_, .record _) => some (.recorded log.total)
  | (now, .entries time) => (moment? (now, .entries time)).map fun _ => .entries log.entries
  | (_, .size) => some (.size log.entries.length)

theorem toOption_step (log : EventLog) (command : Float × Command) :
    (log.step command).1.toOption = (log.step command).2.answer? command := by
  obtain ⟨now, time | time | _⟩ := command
  · rfl
  · simp only [step, answer?, moment?]
    cases time.elim (.ok now) Number.toDouble? <;> rfl
  · rfl

theorem total_step (log : EventLog) (command : Float × Command) :
    (log.step command).2.total = log.total + (recorded? command).toList.length := by
  rw [step_eq_prune]
  cases moment? command with
  | none => rfl
  | some now => exact total_prune _ _

theorem total_runAll (retention : Float) (commands : List (Float × Command)) :
    (runAll step { retention } commands).total = (commands.filterMap recorded?).length := by
  induction commands using List.reverseRecOn with
  | nil => rfl
  | append_singleton commands command ih =>
    rw [runAll_append_singleton, filterMap_append_singleton, List.length_append, ← ih,
      total_step]

theorem runAll_eq_account (retention : Float) {commands : List (Float × Command)}
    (h : ∀ t ∈ commands.filterMap recorded?, t.IsNumber) :
    runAll step { retention } commands = account retention commands := by
  have hretention := retention_runAll { retention } commands
  have hentries := entries_runAll_eq_surviving retention h
  have htotal := total_runAll retention commands
  generalize runAll step { retention } commands = log at hretention hentries htotal ⊢
  obtain ⟨r, entries, total⟩ := log
  cases hretention
  cases hentries
  cases htotal
  rfl

/-- What survives a command that is not before the others is all that is not too old. -/
theorem surviving_eq_filter {retention now : Float} (hr : HasValue retention)
    {commands : List (Float × Command)} {command : Float × Command}
    (h : Legible (commands ++ [command])) (hnow : moment? command = some now)
    (hle : ∀ m ∈ commands.filterMap moment?, m ≤ now) :
    surviving retention (commands ++ [command]) =
      ((commands ++ [command]).filterMap recorded?).filter
        (Number.double (now - retention)).isAtMost := by
  have hn : now.isFinite = true := by
    apply h.moments_finite
    rw [filterMap_append_singleton, hnow]
    exact List.mem_append_right _ List.mem_cons_self
  have hbefore : (surviving retention commands).filter (isKept retention now) =
      (commands.filterMap recorded?).filter (isKept retention now) :=
    filter_surviving hn fun m hm => ⟨h.of_append.moments_finite m hm, hle m hm⟩
  have hcutoff : HasValue (now - retention) := hasValue_finite_sub hn hr
  calc
    surviving retention (commands ++ [command]) =
        (surviving retention commands ++ (recorded? command).toList).filter
          (isKept retention now) := by
      rw [surviving_append_singleton, hnow]
      rfl
    _ = ((commands ++ [command]).filterMap recorded?).filter (isKept retention now) := by
      rw [filterMap_append_singleton, List.filter_append, List.filter_append, hbefore]
    _ = _ := by
      apply List.filter_congr
      intro t ht
      rw [isKept, Bool.eq_iff_iff, Bool.not_eq_true',
        Number.double_isAtMost_iff (h.recorded_isNumber t ht) hcutoff]

/-- After any run of commands a log holds exactly the times recorded that no command since has
found too old, in the order of the records, and has counted every record; it answers each
command by what it then holds; and where the moments are in order, that is all ever recorded
that is not too old. -/
theorem account_of_run {retention : Float} (hr : HasValue retention)
    {commands : List (Float × Command)} (h : Legible commands) :
    runAll step { retention } commands = account retention commands ∧
      ∀ before command after, commands = before ++ command :: after →
        ((runAll step { retention } before).step command).1.toOption =
            (account retention (before ++ [command])).answer? command ∧
          ((commands.filterMap moment?).Pairwise (· ≤ ·) →
            ∀ now, moment? command = some now →
              (account retention (before ++ [command])).entries =
                ((before ++ [command]).filterMap recorded?).filter
                  (Number.double (now - retention)).isAtMost) := by
  constructor
  · exact runAll_eq_account retention h.recorded_isNumber
  rintro before command after rfl
  rw [List.append_cons] at h
  have hbefore : Legible (before ++ [command]) := h.of_append
  constructor
  · rw [toOption_step, ← runAll_eq_account retention hbefore.recorded_isNumber, runAll_append]
    rfl
  · intro hsorted now hnow
    apply surviving_eq_filter hr hbefore hnow
    intro m hm
    rw [List.filterMap_append, List.filterMap_cons_some hnow] at hsorted
    exact (List.pairwise_append.1 hsorted).2.2 m hm now List.mem_cons_self

def skewed : List (Float × Command) :=
  [(5.0, .record none), (0.0, .entries (some (.int 14))),
    (3.0, .record (some (.double (-20.0)))), (3.0, .record (some (.int 400))),
    (17.0, .record none), (2.0, .size)]

/-- Of four records two survive, one too old when it is made and one at a later moment. -/
theorem account_of_run_skewed :
    ((runAll step { retention := 10.0 } skewed).entries.length,
        (runAll step { retention := 10.0 } skewed).total) = (2, 4) ∧
      ((runAll step { retention := 10.0 } (skewed.take 5)).step (2.0, .size)).1.toOption =
        some (.size 2) := by
  have hfinite : ∀ t ∈ skewed.filterMap recorded?, t.IsFinite := by decide +kernel
  have hretention : HasValue 10.0 := hasValue_of_isFinite (by decide +kernel)
  have hlegible : Legible skewed := ⟨by decide +kernel, fun t ht => (hfinite t ht).isNumber⟩
  obtain ⟨hrun, hanswers⟩ := account_of_run hretention hlegible
  obtain ⟨hanswer, -⟩ := hanswers (skewed.take 5) (2.0, .size) [] rfl
  have hlength : (account 10.0 skewed).entries.length = 2 := by decide +kernel
  rw [hrun]
  exact ⟨Prod.ext hlength rfl, hanswer.trans (congrArg (some ∘ Reply.size) hlength)⟩

end RateCurve.EventLog
