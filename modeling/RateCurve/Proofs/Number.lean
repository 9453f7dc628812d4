import RateCurve.Number
import RateCurve.Proofs.Double.Integer

namespace RateCurve.Number
open Double

/-- Integers and doubles that stand for a number, possibly an infinite one. -/
def IsNumber : Number → Prop
  | int _ => True
  | double x => HasValue x

def IsFinite : Number → Prop
  | int _ => True
  | double x => x.isFinite = true

instance : DecidablePred IsFinite
  | int _ => isTrue trivial
  | double x => inferInstanceAs (Decidable (x.isFinite = true))

theorem IsFinite.isNumber {t : Number} (h : t.IsFinite) : t.IsNumber := by
  cases t with
  | int n => trivial
  | double x => exact hasValue_of_isFinite h

noncomputable def toEReal : Number → EReal
  | int n => ((n : ℝ) : EReal)
  | double x => if x.isFinite = true then (value x : EReal) else if 0 < value x then ⊤ else ⊥

theorem toEReal_of_isFinite {x : Float} (h : x.isFinite = true) :
    (double x).toEReal = (value x : EReal) :=
  if_pos h

theorem toEReal_of_not_isFinite {x : Float} (hx : HasValue x) (h : x.isFinite = false) :
    value x = limit ∧ (double x).toEReal = ⊤ ∨ value x = -limit ∧ (double x).toEReal = ⊥ := by
  have hl := limit_pos
  have hne : ¬x.isFinite = true := by rw [h]; exact Bool.false_ne_true
  rcases value_of_not_isFinite hx h with hv | hv
  · exact .inl ⟨hv, by rw [toEReal, if_neg hne, if_pos (by linarith)]⟩
  · exact .inr ⟨hv, by rw [toEReal, if_neg hne, if_neg (by linarith)]⟩

theorem toEReal_lt_iff {x y : Float} (hx : HasValue x) (hy : HasValue y) :
    (double x).toEReal < (double y).toEReal ↔ value x < value y := by
  have hl := limit_pos
  by_cases hxf : x.isFinite = true <;> by_cases hyf : y.isFinite = true
  · rw [toEReal_of_isFinite hxf, toEReal_of_isFinite hyf, EReal.coe_lt_coe_iff]
  · obtain ⟨hlo, hhi⟩ := abs_lt.1 (isFinite_iff.1 hxf).2
    rw [toEReal_of_isFinite hxf]
    rcases toEReal_of_not_isFinite hy (Bool.of_not_eq_true hyf) with ⟨hv, ht⟩ | ⟨hv, ht⟩ <;>
      rw [hv, ht]
    · exact iff_of_true (EReal.coe_lt_top _) hhi
    · exact iff_of_false not_lt_bot hlo.not_gt
  · obtain ⟨hlo, hhi⟩ := abs_lt.1 (isFinite_iff.1 hyf).2
    rw [toEReal_of_isFinite hyf]
    rcases toEReal_of_not_isFinite hx (Bool.of_not_eq_true hxf) with ⟨hv, ht⟩ | ⟨hv, ht⟩ <;>
      rw [hv, ht]
    · exact iff_of_false not_top_lt hhi.not_gt
    · exact iff_of_true (EReal.bot_lt_coe _) hlo
  · rcases toEReal_of_not_isFinite hx (Bool.of_not_eq_true hxf) with ⟨hv, ht⟩ | ⟨hv, ht⟩ <;>
      rcases toEReal_of_not_isFinite hy (Bool.of_not_eq_true hyf) with ⟨hw, hu⟩ | ⟨hw, hu⟩ <;>
        rw [hv, ht, hw, hu]
    · exact iff_of_false (lt_irrefl _) (lt_irrefl _)
    · exact iff_of_false not_top_lt (by linarith)
    · exact iff_of_true bot_lt_top (by linarith)
    · exact iff_of_false (lt_irrefl _) (lt_irrefl _)

theorem parts_eq {x : Float} (h : x.isFinite = true) :
    ∃ m e, parts x = .ok (m, e) ∧ floorScaled m e = ⌊value x⌋ ∧ ceilScaled m e = ⌈value x⌉ := by
  obtain ⟨m, e, hp, hv, -⟩ := parts_of_isFinite h
  exact ⟨m, e, hp, by rw [hv, floorScaled_eq], by rw [hv, ceilScaled_eq]⟩

theorem isNumber_of_isBelow {t u : Number} (h : t.isBelow u = true) :
    t.IsNumber ∧ u.IsNumber := by
  cases t with
  | int n =>
    cases u with
    | int k => exact ⟨trivial, trivial⟩
    | double y =>
      refine ⟨trivial, ?_⟩
      by_cases hy : y.isFinite = true
      · exact hasValue_of_isFinite hy
      · obtain ⟨err, hp⟩ := parts_of_not_isFinite (Bool.of_not_eq_true hy)
        simp only [isBelow, hp, decide_eq_true_eq] at h
        exact (pos_iff.1 h).1
  | double x =>
    cases u with
    | int k =>
      refine ⟨?_, trivial⟩
      by_cases hx : x.isFinite = true
      · exact hasValue_of_isFinite hx
      · obtain ⟨err, hp⟩ := parts_of_not_isFinite (Bool.of_not_eq_true hx)
        simp only [isBelow, hp, decide_eq_true_eq] at h
        exact (lt_iff.1 h).1
    | double y =>
      simp only [isBelow, decide_eq_true_eq] at h
      exact ⟨(lt_iff.1 h).1, (lt_iff.1 h).2.1⟩

theorem isNumber_of_isAtMost {t : Number} {c : Float} (h : (double c).isAtMost t = true) :
    t.IsNumber := by
  cases t with
  | int n => trivial
  | double x => exact (le_iff.1 (of_decide_eq_true h)).2.1

theorem isBelow_iff {t u : Number} (ht : t.IsNumber) (hu : u.IsNumber) :
    t.isBelow u = true ↔ t.toEReal < u.toEReal := by
  cases t with
  | int n =>
    cases u with
    | int k =>
      simp only [isBelow, decide_eq_true_eq, toEReal, EReal.coe_lt_coe_iff, Int.cast_lt]
    | double y =>
      by_cases hy : y.isFinite = true
      · obtain ⟨m, e, hp, -, hceil⟩ := parts_eq hy
        rw [toEReal_of_isFinite hy]
        simp only [isBelow, hp, hceil, decide_eq_true_eq, toEReal, EReal.coe_lt_coe_iff,
          Int.lt_ceil]
      · obtain ⟨err, hp⟩ := parts_of_not_isFinite (Bool.of_not_eq_true hy)
        have hl := limit_pos
        simp only [isBelow, hp, decide_eq_true_eq]
        rw [pos_iff, and_iff_right (show HasValue y from hu)]
        rcases toEReal_of_not_isFinite hu (Bool.of_not_eq_true hy) with ⟨hv, ht⟩ | ⟨hv, ht⟩ <;>
          rw [hv, ht]
        · exact iff_of_true hl (EReal.coe_lt_top _)
        · exact iff_of_false (by linarith) not_lt_bot
  | double x =>
    cases u with
    | int k =>
      by_cases hx : x.isFinite = true
      · obtain ⟨m, e, hp, hfloor, -⟩ := parts_eq hx
        rw [toEReal_of_isFinite hx]
        simp only [isBelow, hp, hfloor, decide_eq_true_eq, toEReal, EReal.coe_lt_coe_iff,
          Int.floor_lt]
      · obtain ⟨err, hp⟩ := parts_of_not_isFinite (Bool.of_not_eq_true hx)
        have hl := limit_pos
        simp only [isBelow, hp, decide_eq_true_eq]
        rw [lt_iff, value_zero, and_iff_right (show HasValue x from ht),
          and_iff_right hasValue_zero]
        rcases toEReal_of_not_isFinite ht (Bool.of_not_eq_true hx) with ⟨hv, ht⟩ | ⟨hv, ht⟩ <;>
          rw [hv, ht]
        · exact iff_of_false (by linarith) not_top_lt
        · exact iff_of_true (by linarith) (EReal.bot_lt_coe _)
    | double y =>
      rw [toEReal_lt_iff ht hu]
      simp only [isBelow, decide_eq_true_eq]
      rw [lt_iff, and_iff_right (show HasValue x from ht),
        and_iff_right (show HasValue y from hu)]

theorem double_isAtMost_iff {t : Number} (ht : t.IsNumber) {c : Float} (hc : HasValue c) :
    (double c).isAtMost t = true ↔ t.isBelow (double c) = false := by
  rw [← Bool.not_eq_true]
  cases t with
  | int n =>
    by_cases hf : c.isFinite = true
    · obtain ⟨m, e, hp, -⟩ := parts_eq hf
      simp only [isAtMost, isBelow, hp, decide_eq_true_eq, not_lt]
    · obtain ⟨err, hp⟩ := parts_of_not_isFinite (Bool.of_not_eq_true hf)
      have hne := value_ne_zero_of_not_isFinite hc (Bool.of_not_eq_true hf)
      simp only [isAtMost, isBelow, hp, decide_eq_true_eq, lt_iff, value_zero, hc,
        hasValue_zero, true_and, not_lt]
      exact ⟨le_of_lt, fun h => lt_of_le_of_ne h hne⟩
  | double x =>
    have hx : HasValue x := ht
    simp only [isAtMost, isBelow, decide_eq_true_eq, le_iff, lt_iff, hc, hx, true_and, not_lt]

theorem isBelow_mono {t : Number} {c d : Float} (h : c ≤ d)
    (hc : t.isBelow (.double c) = true) :
    t.isBelow (.double d) = true := by
  obtain ⟨ht, hcv⟩ := isNumber_of_isBelow hc
  obtain ⟨-, hdv, hle⟩ := le_iff.1 h
  rw [isBelow_iff ht hcv] at hc
  rw [isBelow_iff ht (show IsNumber (double d) from hdv)]
  exact hc.trans_le (not_lt.1 fun hlt => hle.not_gt ((toEReal_lt_iff hdv hcv).1 hlt))

end RateCurve.Number
