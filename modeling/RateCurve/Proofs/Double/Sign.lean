import RateCurve.Proofs.Double.Order

namespace RateCurve.Double
open Float.Model Float.Model.UnpackedFloat

/-- A double that stands for a number and has no sign bit. Sums that begin with such a double
never arrive at the negative zero. -/
def Unsigned (x : Float) : Prop :=
  HasValue x ∧ isNegative x = false

theorem unsigned_zero : Unsigned 0.0 :=
  ⟨hasValue_zero, by rfl⟩

theorem pack_unpack (x : Float) : Float.ofModel (.pack x.toModel.unpack) = x :=
  Float.ofBits_toBits x

section

variable {x y : Float}

theorem unsigned_of_pos (h : 0.0 < x) : Unsigned x := by
  obtain ⟨hx, hpos⟩ := pos_iff.1 h
  refine ⟨hx, ?_⟩
  have hl := limit_pos
  unfold value at hpos
  unfold isNegative
  cases hu : x.toModel.unpack with
  | notANumber => rfl
  | infinity s =>
    rw [hu] at hpos
    cases s with
    | negative => simp only [unpackedValue, factor] at hpos; linarith
    | positive => rfl
  | zero s => rw [hu] at hpos; exact absurd hpos (lt_irrefl _)
  | finite s m e hm =>
    rw [hu] at hpos
    cases s with
    | negative =>
      have : (0 : ℝ) ≤ m * 2 ^ e := by positivity
      simp only [unpackedValue, factor] at hpos
      linarith
    | positive => rfl

theorem Unsigned.nonneg (h : Unsigned x) : 0.0 ≤ x := by
  obtain ⟨hx, hs⟩ := h
  refine nonneg_iff.2 ⟨hx, ?_⟩
  have hl := limit_pos
  unfold value
  unfold isNegative at hs
  cases hu : x.toModel.unpack with
  | notANumber => exact absurd hu hx
  | infinity s =>
    rw [hu] at hs
    cases s with
    | negative => cases hs
    | positive => simp only [unpackedValue, factor]; linarith
  | zero s => exact le_rfl
  | finite s m e hm =>
    rw [hu] at hs
    cases s with
    | negative => cases hs
    | positive => simp only [unpackedValue, factor]; positivity

theorem unpack_eq_zero (hx : HasValue x) (h0 : value x = 0) :
    ∃ s, x.toModel.unpack = .zero s := by
  unfold value at h0
  cases hu : x.toModel.unpack with
  | notANumber => exact absurd hu hx
  | infinity s =>
    have := value_ne_zero_of_not_isFinite hx (isFinite_of_infinity hu)
    rw [value, hu] at this
    exact absurd (hu ▸ h0) this
  | zero s => exact ⟨s, rfl⟩
  | finite s m e hm =>
    rw [hu] at h0
    have : (0 : ℝ) < m * 2 ^ e := by positivity
    cases s <;> simp only [unpackedValue, factor] at h0 <;> linarith

theorem Unsigned.add_eq_left (hx : Unsigned x) (hy : HasValue y) (hy0 : value y = 0) :
    x + y = x := by
  obtain ⟨t, ht⟩ := unpack_eq_zero hy hy0
  refine Eq.trans ?_ (pack_unpack x)
  have hmodel : x + y = .ofModel (.pack (.add .binary64 x.toModel.unpack y.toModel.unpack)) :=
    rfl
  rw [hmodel, ht]
  obtain ⟨hv, hs⟩ := hx
  unfold isNegative at hs
  cases hu : x.toModel.unpack with
  | notANumber => exact absurd hu hv
  | infinity s | finite s m e hm => rfl
  | zero s =>
    rw [hu] at hs
    cases s with
    | negative => cases hs
    | positive => cases t <;> rfl

theorem Unsigned.zero_add (hx : Unsigned x) : 0.0 + x = x := by
  refine Eq.trans ?_ (pack_unpack x)
  have hmodel :
      0.0 + x = .ofModel (.pack (.add .binary64 (.zero .positive) x.toModel.unpack)) := rfl
  rw [hmodel]
  obtain ⟨hv, hs⟩ := hx
  unfold isNegative at hs
  cases hu : x.toModel.unpack with
  | notANumber => exact absurd hu hv
  | infinity s | finite s m e hm => rfl
  | zero s =>
    rw [hu] at hs
    cases s with
    | negative => cases hs
    | positive => rfl

theorem Unsigned.add (hx : Unsigned x) (hy : 0.0 ≤ y) : Unsigned (x + y) := by
  have hsum := nonneg_add hx.nonneg hy
  rcases (value_nonneg hsum).lt_or_eq with hpos | h0
  · exact unsigned_of_pos (pos_iff.2 ⟨hasValue_of_nonneg hsum, hpos⟩)
  · have hy0 := ((value_add_eq_zero_iff hx.nonneg hy).1 h0.symm).2
    rwa [hx.add_eq_left (hasValue_of_nonneg hy) hy0]

theorem Unsigned.foldl_add {xs : List Float} (hx : Unsigned x) (hxs : ∀ y ∈ xs, 0.0 ≤ y) :
    Unsigned (xs.foldl (· + ·) x) := by
  induction xs generalizing x with
  | nil => exact hx
  | cons y xs ih =>
    obtain ⟨hy, hxs⟩ := List.forall_mem_cons.1 hxs
    exact ih (hx.add hy) hxs

theorem unpack_abs (x : Float) : x.abs.toModel.unpack = x.toModel.unpack.abs := by
  apply unpack_pack_of_storable
  have h := storable_unpack x
  cases hu : x.toModel.unpack with
  | finite s m e hm => rwa [hu] at h
  | _ => trivial

theorem value_abs (x : Float) : value x.abs = |value x| := by
  have hl := limit_pos
  rw [value, value, unpack_abs]
  cases x.toModel.unpack with
  | notANumber | zero s => exact abs_zero.symm
  | infinity s =>
    rw [UnpackedFloat.abs, unpackedValue, unpackedValue, abs_factor_mul, factor, one_mul,
      abs_of_pos hl]
  | finite s m e hm =>
    have hp : (0 : ℝ) ≤ m * 2 ^ e := by positivity
    rw [UnpackedFloat.abs, unpackedValue, unpackedValue, abs_factor_mul, factor, one_mul,
      abs_of_nonneg hp]

theorem abs_pos_of_ne_zero (hx : HasValue x) (h0 : value x ≠ 0) : 0.0 < x.abs := by
  refine pos_iff.2 ⟨?_, by rw [value_abs]; exact abs_pos.2 h0⟩
  unfold HasValue at hx ⊢
  rw [unpack_abs]
  cases hu : x.toModel.unpack with
  | notANumber => exact absurd hu hx
  | _ => nofun

theorem abs_eq_zero (hx : HasValue x) (h0 : value x = 0) : x.abs = 0.0 := by
  obtain ⟨s, hs⟩ := unpack_eq_zero hx h0
  have hmodel : x.abs = .ofModel (.pack x.toModel.unpack.abs) := rfl
  rw [hmodel, hs]
  rfl

theorem abs_of_infinity {s : Sign} (h : x.toModel.unpack = .infinity s) :
    x.abs = 1.0 / 0.0 := by
  have hmodel : x.abs = .ofModel (.pack x.toModel.unpack.abs) := rfl
  rw [hmodel, h]
  rfl

theorem eq_nan (h : ¬HasValue x) : x = 0.0 / 0.0 := by
  rw [← pack_unpack x, show x.toModel.unpack = .notANumber from not_not.1 h]
  rfl

theorem eq_signed_abs (x : Float) : (if isNegative x then -x.abs else x.abs) = x := by
  refine Eq.trans ?_ (pack_unpack x)
  have hmodel : -x.abs = .ofModel (.pack x.abs.toModel.unpack.neg) := rfl
  have habs : x.abs = .ofModel (.pack x.toModel.unpack.abs) := rfl
  rw [hmodel, unpack_abs, habs, isNegative]
  rcases x.toModel.unpack with s | _ | s | ⟨s, m, e, hm⟩
  case notANumber => rfl
  all_goals cases s <;> rfl

end

end RateCurve.Double
