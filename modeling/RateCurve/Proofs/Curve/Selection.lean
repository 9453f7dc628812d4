import RateCurve.Curve.Hump
import RateCurve.Proofs.Double.Integer

namespace RateCurve
open Double

section IntegerParts

variable {x : Float}

theorem Double.parts_of_isNaN (h : x.isNaN = true) : parts x = .error .notANumber := by
  change x.toModel.unpack.isNaN = true at h
  unfold parts
  cases hu : x.toModel.unpack with
  | notANumber => rfl
  | infinity s | zero s | finite s m e hm => rw [hu] at h; cases h

theorem Double.parts_of_isInf (h : x.isInf = true) : parts x = .error .infinite := by
  change x.toModel.unpack.isInf = true at h
  unfold parts
  cases hu : x.toModel.unpack with
  | infinity s => rfl
  | notANumber | zero s | finite s m e hm => rw [hu] at h; cases h

theorem Double.floor_of_parts_error {e : RangeError} (h : parts x = .error e) :
    Double.floor x = .error e := by
  rw [Double.floor, h]
  rfl

theorem Double.ceil_of_parts_error {e : RangeError} (h : parts x = .error e) :
    Double.ceil x = .error e := by
  rw [Double.ceil, h]
  rfl

end IntegerParts

namespace Span

variable {centre width : Float} {count : ℤ}

theorem around_of_ceil_error {e : RangeError}
    (h : Double.ceil (Spread.lower centre width) = .error e) :
    around centre width count = .error e := by
  rw [around, Arithmetic.ceil_double, h]
  rfl

theorem around_of_ceil {m : ℤ} (h : Double.ceil (Spread.lower centre width) = .ok m) :
    around centre width count =
      if count ≤ (m.toNat : ℤ) then .ok none
      else (Double.floor (Spread.upper centre width)).map fun n =>
        some ⟨m.toNat, min (count - 1) n⟩ := by
  rw [around, Arithmetic.ceil_double, Arithmetic.floor_double, h]
  simp only [bind, Except.bind, pure, Except.pure]
  split_ifs with hcount
  · rfl
  · cases Double.floor (Spread.upper centre width) <;> rfl

/-- An integer part is past all samples just where each sample is below the number. -/
theorem le_toNat_ceil_iff (x : ℝ) :
    count ≤ (⌈x⌉.toNat : ℤ) ↔ ∀ i : ℤ, 0 ≤ i → i < count → (i : ℝ) < x := by
  constructor
  · intro hle i h0 hi
    apply Int.lt_ceil.1
    omega
  · intro hbelow
    by_contra hlt
    have hlast := Int.lt_ceil.2 (hbelow (count - 1) (by omega) (by omega))
    omega

theorem mem_iff (count : ℤ) (lower upper : ℝ) (i : ℤ) :
    (⌈lower⌉.toNat : ℤ) ≤ i ∧ i ≤ min (count - 1) ⌊upper⌋ ↔
      0 ≤ i ∧ i < count ∧ lower ≤ i ∧ (i : ℝ) ≤ upper := by
  rw [le_min_iff, Int.le_floor, ← Int.ceil_le, Int.le_sub_one_iff]
  constructor
  · rintro ⟨hfirst, hcount, hupper⟩
    exact ⟨by omega, hcount, by omega, hupper⟩
  · rintro ⟨h0, hcount, hlower, hupper⟩
    exact ⟨by omega, hcount, hupper⟩

/-- For any two doubles and any number of samples: where a hump begins at no finite number, its
samples cannot be worked out; where it begins after the last sample, it has none, wherever it
ends; and else it must end at a finite number, and then its samples are exactly the integers
from where it begins to where it ends that number a sample. Nothing is rounded in this
comparison. -/
theorem around_selects (centre width : Float) (count : ℤ) :
    let lower := Spread.lower centre width
    let upper := Spread.upper centre width
    let isPast := ∀ i : ℤ, 0 ≤ i → i < count → (i : ℝ) < value lower
    (lower.isNaN = true → around centre width count = .error .notANumber) ∧
      (lower.isInf = true → around centre width count = .error .infinite) ∧
      (lower.isFinite = true →
        (around centre width count = .ok none ↔ isPast) ∧
          (¬isPast →
            (upper.isNaN = true → around centre width count = .error .notANumber) ∧
              (upper.isInf = true → around centre width count = .error .infinite) ∧
              (upper.isFinite = true → ∃ s, around centre width count = .ok (some s) ∧
                (s.first : ℤ) < count ∧ s.last < count ∧
                ∀ i : ℤ, s.first ≤ i ∧ i ≤ s.last ↔
                  0 ≤ i ∧ i < count ∧ value lower ≤ i ∧ (i : ℝ) ≤ value upper))) := by
  intro lower upper isPast
  refine ⟨fun h => ?_, fun h => ?_, fun hlower => ?_⟩
  · exact around_of_ceil_error (ceil_of_parts_error (parts_of_isNaN h))
  · exact around_of_ceil_error (ceil_of_parts_error (parts_of_isInf h))
  have haround : around centre width count = _ := around_of_ceil (ceil_of_isFinite hlower)
  have hpast : count ≤ (⌈value lower⌉.toNat : ℤ) ↔ isPast := le_toNat_ceil_iff (value lower)
  constructor
  · rw [haround, ← hpast]
    split_ifs with hcount
    · exact iff_of_true rfl hcount
    · refine iff_of_false ?_ hcount
      cases Double.floor (Spread.upper centre width) <;> nofun
  · intro hnot
    rw [← hpast] at hnot
    rw [haround, if_neg hnot]
    refine ⟨fun h => ?_, fun h => ?_, fun hupper => ?_⟩
    · rw [floor_of_parts_error (parts_of_isNaN h)]
      rfl
    · rw [floor_of_parts_error (parts_of_isInf h)]
      rfl
    · rw [floor_of_isFinite hupper]
      refine ⟨_, rfl, not_le.1 hnot, ?_, mem_iff count (value lower) (value upper)⟩
      exact (min_le_left _ _).trans_lt (sub_one_lt count)

end Span

end RateCurve
