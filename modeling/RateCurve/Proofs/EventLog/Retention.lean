import RateCurve.EventLog
import RateCurve.Proofs.Number
import RateCurve.Trace

namespace RateCurve.EventLog
open Double

/-- An entry that is not too old at a moment. -/
def isKept (retention now : Float) (t : Number) : Bool :=
  !t.isBelow (.double (now - retention))

theorem isKept_of_isAtMost {retention now : Float} {t : Number}
    (h : (Number.double (now - retention)).isAtMost t = true) :
    isKept retention now t = true := by
  rw [isKept, Bool.not_eq_true', ← Bool.not_eq_true]
  intro hbelow
  obtain ⟨hnumber, hcutoff⟩ := Number.isNumber_of_isBelow hbelow
  rw [(Number.double_isAtMost_iff hnumber hcutoff).1 h] at hbelow
  cases hbelow

theorem foldl_least_mem (ts : List Number) (t : Number) :
    ts.foldl (fun least t => if t.isBelow least then t else least) t ∈ t :: ts := by
  induction ts generalizing t with
  | nil => exact List.mem_cons_self
  | cons u ts ih =>
    rw [List.foldl_cons]
    split_ifs
    · exact List.mem_cons_of_mem t (ih u)
    · rcases List.mem_cons.1 (ih t) with h | h
      · rw [h]
        exact List.mem_cons_self
      · exact List.mem_cons_of_mem t (List.mem_cons_of_mem u h)

theorem mem_of_earliest? {ts : List Number} {t : Number} (h : earliest? ts = some t) :
    t ∈ ts := by
  cases ts with
  | nil => cases h
  | cons first rest =>
    rw [← Option.some.inj h]
    exact foldl_least_mem rest first

theorem prune_of_not_isBelow {log : EventLog} {now : Float}
    (h : ∀ t ∈ earliest? log.entries, t.isBelow (.double (now - log.retention)) = false) :
    log.prune now = log := by
  unfold prune
  cases he : earliest? log.entries with
  | none => rfl
  | some t => simp only [h t he, Bool.false_eq_true, if_false]

/-- Either nothing is forgotten, or all entries are compared with the same moment. -/
theorem prune_cases (log : EventLog) (now : Float) :
    (∀ t ∈ earliest? log.entries, t.isBelow (.double (now - log.retention)) = false) ∧
        log.prune now = log ∨
      ∃ t ∈ earliest? log.entries, t.isBelow (.double (now - log.retention)) = true ∧
        log.prune now =
          { log with
            entries := log.entries.filter (Number.double (now - log.retention)).isAtMost } := by
  by_cases hbelow : ∃ t ∈ earliest? log.entries,
      t.isBelow (.double (now - log.retention)) = true
  · obtain ⟨t, he, ht⟩ := hbelow
    refine .inr ⟨t, he, ht, ?_⟩
    rw [Option.mem_def] at he
    simp only [prune, he, ht, if_true]
  · have hnot : ∀ t ∈ earliest? log.entries,
        t.isBelow (.double (now - log.retention)) = false :=
      fun t he => Bool.of_not_eq_true fun ht => hbelow ⟨t, he, ht⟩
    exact .inl ⟨hnot, prune_of_not_isBelow hnot⟩

theorem earliest?_cons {first : Number} (h : first.IsNumber) (rest : List Number) :
    ∃ t, earliest? (first :: rest) = some t ∧ t.IsNumber ∧
      ∀ s ∈ first :: rest, s.IsNumber → t.toEReal ≤ s.toEReal := by
  refine ⟨_, rfl, ?_⟩
  induction rest generalizing first with
  | nil =>
    refine ⟨h, fun s hs _ => ?_⟩
    rw [List.mem_singleton.1 hs]
    exact le_rfl
  | cons t rest ih =>
    rw [List.foldl_cons]
    by_cases hlt : t.isBelow first = true
    · rw [if_pos hlt]
      obtain ⟨ht, -⟩ := Number.isNumber_of_isBelow hlt
      obtain ⟨hnumber, hle⟩ := ih ht
      have hlt := (Number.isBelow_iff ht h).1 hlt
      exact ⟨hnumber,
        List.forall_mem_cons.2 ⟨fun _ => (hle t List.mem_cons_self ht).trans hlt.le, hle⟩⟩
    · rw [if_neg hlt]
      obtain ⟨hnumber, hle⟩ := ih h
      obtain ⟨hfirst, hle⟩ := List.forall_mem_cons.1 hle
      refine ⟨hnumber, List.forall_mem_cons.2 ⟨hfirst,
        List.forall_mem_cons.2 ⟨fun ht => ?_, hle⟩⟩⟩
      exact (hfirst h).trans (not_lt.1 ((Number.isBelow_iff ht h).not.1 hlt))

theorem isKept_of_mem_prune {log : EventLog} (h : ∀ t ∈ log.entries.head?, t.IsNumber)
    (now : Float) :
    ∀ t ∈ (log.prune now).entries, isKept log.retention now t = true := by
  intro s hs
  rcases prune_cases log now with ⟨hleast, heq⟩ | ⟨t, -, -, heq⟩
  · -- An entry that is too old would be below the cutoff together with the earliest one.
    rw [heq] at hs
    rw [isKept, Bool.not_eq_true', ← Bool.not_eq_true]
    intro hbelow
    obtain ⟨hnumber, hcutoff⟩ := Number.isNumber_of_isBelow hbelow
    obtain ⟨first, rest, hentries⟩ := List.exists_cons_of_ne_nil (List.ne_nil_of_mem hs)
    rw [hentries] at h hs hleast
    obtain ⟨t, he, ht, hle⟩ := earliest?_cons (h first rfl) rest
    have hlt := (hle s hs hnumber).trans_lt ((Number.isBelow_iff hnumber hcutoff).1 hbelow)
    rw [← Number.isBelow_iff ht hcutoff, hleast t he] at hlt
    cases hlt
  · rw [heq] at hs
    exact isKept_of_isAtMost (List.mem_filter.1 hs).2

/-- Looking at the earliest entry first leaves what looking at all entries would leave. -/
theorem entries_prune {log : EventLog} (h : ∀ t ∈ log.entries, t.IsNumber) (now : Float) :
    (log.prune now).entries = log.entries.filter (isKept log.retention now) := by
  have hkept := isKept_of_mem_prune (fun t ht => h t (List.mem_of_mem_head? ht)) now
  rcases prune_cases log now with ⟨-, heq⟩ | ⟨t, -, ht, heq⟩
  · rw [heq] at hkept ⊢
    exact (List.filter_eq_self.2 hkept).symm
  · obtain ⟨-, hcutoff⟩ := Number.isNumber_of_isBelow ht
    rw [heq]
    apply List.filter_congr
    intro s hs
    rw [isKept, Bool.eq_iff_iff, Number.double_isAtMost_iff (h s hs) hcutoff, Bool.not_eq_true']

/-- Forgetting twice at a moment is forgetting once, whatever the entries are: what the cutoff
is at most is not below it. -/
theorem prune_prune (log : EventLog) (now : Float) :
    (log.prune now).prune now = log.prune now := by
  rcases prune_cases log now with ⟨-, heq⟩ | ⟨t, -, -, heq⟩
  · rw [heq, heq]
  · rw [heq]
    apply prune_of_not_isBelow
    intro u hu
    have hkept := isKept_of_isAtMost (List.mem_filter.1 (mem_of_earliest? hu)).2
    rwa [isKept, Bool.not_eq_true'] at hkept

@[simp]
theorem retention_prune (log : EventLog) (now : Float) :
    (log.prune now).retention = log.retention := by
  rcases prune_cases log now with ⟨-, heq⟩ | ⟨t, -, -, heq⟩
  · rw [heq]
  · rw [heq]

@[simp]
theorem total_prune (log : EventLog) (now : Float) : (log.prune now).total = log.total := by
  rcases prune_cases log now with ⟨-, heq⟩ | ⟨t, -, -, heq⟩
  · rw [heq]
  · rw [heq]

theorem isKept_of_le {retention m now : Float} (hm : m.isFinite = true)
    (hn : now.isFinite = true) (h : m ≤ now) {t : Number} (hk : isKept retention now t = true) :
    isKept retention m t = true := by
  rw [isKept, Bool.not_eq_true', ← Bool.not_eq_true] at hk ⊢
  intro hb
  obtain ⟨-, hc⟩ := Number.isNumber_of_isBelow hb
  exact hk (Number.isBelow_mono (sub_mono_left hm hn h (hasValue_of_sub hc)) hb)

/-- The moment as of which a command looks at the entries, if it does. -/
def moment? : Float × Command → Option Float
  | (now, .record _) => some now
  | (now, .entries time) => (time.elim (.ok now) Number.toDouble?).toOption
  | (now, .size) => some now

def recorded? : Float × Command → Option Number
  | (now, .record time) => some (time.getD (.double now))
  | _ => none

theorem filterMap_cons_eq_append {α β : Type} (f : α → Option β) (a : α) (as : List α) :
    (a :: as).filterMap f = (f a).toList ++ as.filterMap f := by
  cases h : f a with
  | none => exact List.filterMap_cons_none h
  | some b => exact List.filterMap_cons_some h

theorem filterMap_append_singleton {α β : Type} (f : α → Option β) (a : α) (as : List α) :
    (as ++ [a]).filterMap f = as.filterMap f ++ (f a).toList := by
  rw [List.filterMap_append, filterMap_cons_eq_append, List.filterMap_nil, List.append_nil]

/-- Of the times that a run of commands records, those that neither their own command nor a
later one finds too old. -/
def surviving (retention : Float) : List (Float × Command) → List Number
  | [] => []
  | command :: later =>
    (recorded? command).toList.filter
        (fun t => ((command :: later).filterMap moment?).all (isKept retention · t)) ++
      surviving retention later

theorem surviving_sublist (retention : Float) (commands : List (Float × Command)) :
    (surviving retention commands).Sublist (commands.filterMap recorded?) := by
  induction commands with
  | nil => exact .slnil
  | cons command later ih =>
    rw [filterMap_cons_eq_append]
    exact List.filter_sublist.append ih

theorem surviving_append_singleton (retention : Float) (commands : List (Float × Command))
    (command : Float × Command) :
    surviving retention (commands ++ [command]) =
      (surviving retention commands ++ (recorded? command).toList).filter
        fun t => (moment? command).all (isKept retention · t) := by
  have hall (t : Number) :
      (moment? command).toList.all (isKept retention · t) =
        (moment? command).all (isKept retention · t) := by
    cases moment? command with
    | none => rfl
    | some m => exact Bool.and_true _
  induction commands with
  | nil =>
    simp only [List.nil_append, surviving, List.append_nil, filterMap_cons_eq_append,
      List.filterMap_nil, hall]
  | cons first commands ih =>
    have hsplit (t : Number) :
        ((first :: (commands ++ [command])).filterMap moment?).all (isKept retention · t) =
          ((moment? command).all (isKept retention · t) &&
            ((first :: commands).filterMap moment?).all (isKept retention · t)) := by
      rw [← List.cons_append, filterMap_append_singleton, List.all_append, hall, Bool.and_comm]
    simp only [List.cons_append, surviving, ih, hsplit, List.append_assoc, List.filter_append,
      List.filter_filter]

/-- As of a moment that none of the commands is after, what survives is what was recorded. -/
theorem filter_surviving {retention now : Float} (hn : now.isFinite = true)
    {commands : List (Float × Command)}
    (h : ∀ m ∈ commands.filterMap moment?, m.isFinite = true ∧ m ≤ now) :
    (surviving retention commands).filter (isKept retention now) =
      (commands.filterMap recorded?).filter (isKept retention now) := by
  induction commands with
  | nil => rfl
  | cons command later ih =>
    have hlater : ∀ m ∈ later.filterMap moment?, m.isFinite = true ∧ m ≤ now := by
      intro m hm
      apply h
      rw [filterMap_cons_eq_append]
      exact List.mem_append_right _ hm
    rw [surviving, filterMap_cons_eq_append recorded?, List.filter_append, List.filter_append,
      ih hlater, List.filter_filter]
    refine congrArg (· ++ _) (List.filter_congr fun t _ => ?_)
    rw [Bool.and_eq_left_iff_imp, List.all_eq_true]
    intro hk m hm
    exact isKept_of_le (h m hm).1 hn (h m hm).2 hk

/-- A log with what a command records, before anything is forgotten. -/
def extended (log : EventLog) (command : Float × Command) : EventLog :=
  { log with
    entries := log.entries ++ (recorded? command).toList
    total := log.total + (recorded? command).toList.length }

/-- Every command does the same: it adds what it records and forgets as of its moment. -/
theorem step_eq_prune (log : EventLog) (command : Float × Command) :
    (log.step command).2 =
      (moment? command).elim (log.extended command) (log.extended command).prune := by
  have hread (h : recorded? command = none) : log.extended command = log := by
    rw [extended, h, Option.toList_none, List.append_nil]
    rfl
  obtain ⟨now, time | time | _⟩ := command
  · rfl
  · rw [hread rfl]
    simp only [step, moment?]
    cases time.elim (.ok now) Number.toDouble? <;> rfl
  · rw [hread rfl]
    rfl

theorem entries_step {log : EventLog} {command : Float × Command}
    (h : ∀ t ∈ log.entries ++ (recorded? command).toList, t.IsNumber) :
    (log.step command).2.entries =
      (log.entries ++ (recorded? command).toList).filter
        fun t => (moment? command).all (isKept log.retention · t) := by
  rw [step_eq_prune]
  cases moment? command with
  | none => exact (List.filter_eq_self.2 fun _ _ => rfl).symm
  | some now =>
    exact entries_prune (show ∀ t ∈ (log.extended command).entries, t.IsNumber from h) now

@[simp]
theorem retention_step (log : EventLog) (command : Float × Command) :
    (log.step command).2.retention = log.retention := by
  rw [step_eq_prune]
  cases moment? command with
  | none => rfl
  | some now => exact retention_prune _ _

theorem retention_runAll (log : EventLog) (commands : List (Float × Command)) :
    (runAll step log commands).retention = log.retention :=
  runAll_induction step (fun s i h => (retention_step s i).trans h) rfl commands

theorem entries_runAll_eq_surviving (retention : Float) {commands : List (Float × Command)}
    (h : ∀ t ∈ commands.filterMap recorded?, t.IsNumber) :
    (runAll step { retention } commands).entries = surviving retention commands := by
  induction commands using List.reverseRecOn with
  | nil => rfl
  | append_singleton commands command ih =>
    rw [filterMap_append_singleton] at h
    have hbefore := ih fun t ht => h t (List.mem_append_left _ ht)
    have hret := retention_runAll { retention } commands
    rw [runAll_append_singleton, entries_step, hbefore, hret, surviving_append_singleton]
    intro t ht
    rw [hbefore] at ht
    exact h t (List.Sublist.mem ht ((surviving_sublist retention commands).append_right _))

/-- Commands that look at the entries as of finite moments in order, none of them after a given
moment, and record finite times, in whatever order. -/
structure Orderly (commands : List (Float × Command)) (now : Float) : Prop where
  moments_finite : ∀ m ∈ commands.filterMap moment?, m.isFinite = true
  moments_sorted : (commands.filterMap moment? ++ [now]).Pairwise (· ≤ ·)
  now_finite : now.isFinite = true
  recorded_finite : ∀ t ∈ commands.filterMap recorded?, t.IsFinite

theorem orderly_record {now : Float} {t : Number} (hn : now.isFinite = true) (ht : t.IsFinite) :
    Orderly [(now, .record (some t))] now := by
  refine ⟨fun m hm => ?_, ?_, hn, fun s hs => ?_⟩
  · cases List.mem_singleton.1 hm
    exact hn
  · exact List.pairwise_pair.2 (Double.le_refl (hasValue_of_isFinite hn))
  · cases List.mem_singleton.1 hs
    exact ht

theorem entries_runAll (retention : Float) {commands : List (Float × Command)} {now : Float}
    (h : Orderly commands now) :
    (∀ t ∈ (runAll step { retention } commands).entries, t.IsNumber) ∧
      (runAll step { retention } commands).entries.filter (isKept retention now) =
        (commands.filterMap recorded?).filter (isKept retention now) := by
  have hnumber : ∀ t ∈ commands.filterMap recorded?, t.IsNumber := fun t ht =>
    (h.recorded_finite t ht).isNumber
  have hsorted := (List.pairwise_append.1 h.moments_sorted).2.2
  rw [entries_runAll_eq_surviving retention hnumber]
  refine ⟨fun t ht => hnumber t ((surviving_sublist retention commands).mem ht), ?_⟩
  exact filter_surviving h.now_finite fun m hm =>
    ⟨h.moments_finite m hm, hsorted m hm now List.mem_cons_self⟩

end RateCurve.EventLog
