import Mathlib.Tactic.SplitIfs
import RateCurve.Proofs.Except
import RateCurve.Query

namespace RateCurve

open Validation in
/-- What a field may be is its value for when it is not there, or what the rule for it makes of
a value. -/
theorem Validation.of_defaulted {α : Type} {fields : List (String × Json)} {name : String}
    {value a : α} {rule : Rule α} {p : α → Prop} (h : defaulted fields name value rule = .ok a)
    (hvalue : p value) (hrule : ∀ v a, rule v = .ok a → p a) : p a := by
  rw [defaulted, located, mapError_eq_ok] at h
  cases hf : Json.field? fields name with
  | none =>
    rw [hf] at h
    cases h
    exact hvalue
  | some v =>
    rw [hf] at h
    exact hrule v a h

namespace Query

theorem checkTime_eq_ok {time checked : Option Float} (h : checkTime time = .ok checked) :
    ∀ x ∈ checked, x.isFinite = true := by
  cases time with
  | none =>
    cases h
    nofun
  | some t =>
    rw [checkTime] at h
    split_ifs at h with ht
    cases h
    exact fun x hx => Option.some.inj hx ▸ ht

theorem time_finite {text : String} {query : Query} (h : ofText text = .ok query) :
    ∀ x ∈ query.time, x.isFinite = true := by
  unfold ofText at h
  split at h
  · cases h
  · simp only [ofFields, map_eq_ok] at h
    obtain ⟨time, h, rfl⟩ := h
    refine Validation.of_defaulted (p := fun time => ∀ x ∈ time, x.isFinite = true) h nofun ?_
    intro v a ha
    obtain ⟨time, -, ha⟩ := bind_eq_ok.1 ha
    exact checkTime_eq_ok ha
  · cases h

end Query

end RateCurve
