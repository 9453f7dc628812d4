import Mathlib.Data.List.Basic
import Mathlib.Data.List.Induction
import RateCurve.Trace

namespace RateCurve

/-- Something lasts at the end of a sequence of events: one of them begins it and none since
ends it. -/
def Lasts {α : Type} (begins ends : α → Prop) (events : List α) : Prop :=
  ∃ before event since, events = before ++ event :: since ∧ begins event ∧ ∀ e ∈ since, ¬ends e

section

variable {α : Type} {begins ends : α → Prop}

theorem not_lasts_nil : ¬Lasts begins ends [] := by
  rintro ⟨before, event, since, h, -⟩
  exact List.append_ne_nil_of_right_ne_nil before (List.cons_ne_nil event since) h.symm

/-- It lasts after one more event if the event begins it, or if it lasted and the event does not
end it. -/
theorem lasts_append_singleton {events : List α} {e : α} :
    Lasts begins ends (events ++ [e]) ↔ begins e ∨ Lasts begins ends events ∧ ¬ends e := by
  constructor
  · rintro ⟨before, event, since, h, hb, he⟩
    rcases List.eq_nil_or_concat' since with rfl | ⟨since, last, rfl⟩
    · obtain ⟨-, hlast⟩ := List.append_inj' h rfl
      cases hlast
      exact .inl hb
    · rw [← List.cons_append, ← List.append_assoc] at h
      obtain ⟨rfl, hlast⟩ := List.append_inj' h rfl
      cases hlast
      rw [List.forall_mem_append, List.forall_mem_singleton] at he
      exact .inr ⟨⟨before, event, since, rfl, hb, he.1⟩, he.2⟩
  · rintro (hb | ⟨⟨before, event, since, rfl, hb, he⟩, hlast⟩)
    · exact ⟨events, e, [], rfl, hb, nofun⟩
    · refine ⟨before, event, since ++ [e], by rw [List.append_assoc, List.cons_append], hb, ?_⟩
      rw [List.forall_mem_append, List.forall_mem_singleton]
      exact ⟨he, hlast⟩

end

section

variable {σ ι ω : Type} (step : σ → ι → ω × σ)

theorem drop_trace (s : σ) (is js : List ι) :
    (trace step s (is ++ js)).drop is.length = trace step (runAll step s is) js := by
  rw [trace_append]
  exact List.drop_left' (length_trace step s is)

/-- The inputs of a run, each with the state that it meets. -/
def history : σ → List ι → List (σ × ι)
  | _, [] => []
  | s, i :: is => (s, i) :: history (step s i).2 is

theorem history_append_singleton (s : σ) (is : List ι) (i : ι) :
    history step s (is ++ [i]) = history step s is ++ [(runAll step s is, i)] := by
  induction is generalizing s with
  | nil => rfl
  | cons j is ih => simp only [List.cons_append, history, ih, runAll, List.foldl_cons]

theorem map_snd_history (s : σ) (is : List ι) : (history step s is).map Prod.snd = is := by
  induction is generalizing s with
  | nil => rfl
  | cons i is ih => rw [history, List.map_cons, ih]

theorem countP_history_append_singleton (p : σ × ι → Bool) (s : σ) (is : List ι) (i : ι) :
    (history step s (is ++ [i])).countP p =
      (history step s is).countP p + (p (runAll step s is, i)).toNat := by
  rw [history_append_singleton, List.countP_append, List.countP_singleton]
  cases p (runAll step s is, i) <;> rfl

/-- What begins and ends at the steps of a run lasts at its end if the history of the run says
so. -/
theorem iff_lasts {I P : σ → Prop} {begins ends : σ × ι → Prop}
    (hI : ∀ s i, I s → I (step s i).2)
    (hP : ∀ s i, I s → (P (step s i).2 ↔ begins (s, i) ∨ P s ∧ ¬ends (s, i)))
    {s : σ} (hs : I s) (h0 : ¬P s) (is : List ι) :
    P (runAll step s is) ↔ Lasts begins ends (history step s is) := by
  induction is using List.reverseRecOn with
  | nil => exact iff_of_false h0 not_lasts_nil
  | append_singleton is i ih =>
    rw [history_append_singleton, lasts_append_singleton, ← ih, runAll_append_singleton]
    exact hP _ i (runAll_induction step hI hs is)

end

end RateCurve
