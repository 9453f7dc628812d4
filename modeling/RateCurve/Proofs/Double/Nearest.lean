import RateCurve.Proofs.Double.Operations

namespace RateCurve.Double
open Float.Model Float.Model.UnpackedFloat

theorem bounded_eq {u : UnpackedFloat} (h : Storable u) : bounded u = u := by
  cases u with
  | finite s m e hm => exact if_neg (not_lt.2 h.2.2.1)
  | _ => rfl

theorem unpack_pack_of_storable {u : UnpackedFloat} (h : Storable u) :
    (Float.ofModel (.pack u)).toModel.unpack = u :=
  (unpack_pack h.canonical).trans (bounded_eq h)

theorem unpack_pack_infinity (s : Sign) :
    (Float.Model.pack (.infinity s)).unpack = .infinity s :=
  unpack_pack (u := .infinity s) trivial

theorem isNaN_iff {x : Float} : x.isNaN = true ↔ ¬HasValue x := by
  change x.toModel.unpack.isNaN = true ↔ _
  rw [HasValue, not_not]
  cases x.toModel.unpack with
  | notANumber => exact iff_of_true rfl rfl
  | infinity s | zero s | finite s m e hm =>
    refine iff_of_false Bool.false_ne_true fun h => ?_
    cases h

theorem isFinite_eq_false_iff {x : Float} :
    x.isFinite = false ↔ x.isNaN = true ∨ x.isInf = true := by
  change x.toModel.unpack.isFinite = false ↔
    x.toModel.unpack.isNaN = true ∨ x.toModel.unpack.isInf = true
  cases x.toModel.unpack with
  | notANumber => exact iff_of_true rfl (.inl rfl)
  | infinity s => exact iff_of_true rfl (.inr rfl)
  | zero s | finite s m e hm =>
    refine iff_of_false Bool.false_ne_true.symm ?_
    rintro (h | h) <;> cases h

theorem hasValue_of_isFinite {x : Float} (h : x.isFinite = true) : HasValue x :=
  (isFinite_iff.1 h).1

theorem unpack_eq_infinity {x : Float} (h : HasValue x) (hf : x.isFinite = false) :
    ∃ s, x.toModel.unpack = .infinity s := by
  change x.toModel.unpack.isFinite = false at hf
  unfold HasValue at h
  revert h hf
  cases x.toModel.unpack with
  | notANumber => exact fun h => absurd rfl h
  | infinity s => exact fun _ _ => ⟨s, rfl⟩
  | zero s => exact fun _ => nofun
  | finite s m e hm => exact fun _ => nofun

theorem value_of_infinity {x : Float} {s : Sign} (h : x.toModel.unpack = .infinity s) :
    value x = factor s * limit := by
  rw [value, h, unpackedValue]

theorem hasValue_of_infinity {x : Float} {s : Sign} (h : x.toModel.unpack = .infinity s) :
    HasValue x := by
  rw [HasValue, h]
  intro hu
  cases hu

theorem isFinite_of_infinity {x : Float} {s : Sign} (h : x.toModel.unpack = .infinity s) :
    x.isFinite = false := by
  change x.toModel.unpack.isFinite = false
  rw [h]
  rfl

theorem unpack_eq_infinity_of_nonneg {x : Float} (h : HasValue x) (hf : x.isFinite = false)
    (h0 : 0 ≤ value x) : x.toModel.unpack = .infinity .positive := by
  obtain ⟨s, hs⟩ := unpack_eq_infinity h hf
  have hl := limit_pos
  cases s with
  | negative =>
    rw [value_of_infinity hs, factor] at h0
    linarith
  | positive => exact hs

section Operations

variable {x y : Float}

theorem nearestTo_add (hx : x.isFinite = true) (hy : y.isFinite = true) :
    NearestTo (x + y) (value x + value y) :=
  (isRounding_add (storable_unpack x) (storable_unpack y) hx hy).nearestTo

@[simp]
theorem unpack_neg (x : Float) : (-x).toModel.unpack = x.toModel.unpack.neg :=
  unpack_pack_of_storable (storable_neg (storable_unpack x))

@[simp]
theorem value_neg (x : Float) : value (-x) = -value x := by
  rw [value, unpack_neg, unpackedValue_neg, value]

@[simp]
theorem isFinite_neg (x : Float) : (-x).isFinite = x.isFinite := by
  change (-x).toModel.unpack.isFinite = x.toModel.unpack.isFinite
  rw [unpack_neg]
  cases x.toModel.unpack <;> rfl

@[simp]
theorem hasValue_neg : HasValue (-x) ↔ HasValue x := by
  unfold HasValue
  rw [unpack_neg]
  cases x.toModel.unpack <;> simp only [UnpackedFloat.neg, ne_eq, reduceCtorEq]

theorem sub_eq (x y : Float) : x - y = x + -y := by
  change Float.ofModel (.pack (UnpackedFloat.sub .binary64 x.toModel.unpack y.toModel.unpack)) =
    Float.ofModel (.pack (UnpackedFloat.add .binary64 x.toModel.unpack (-y).toModel.unpack))
  rw [unpack_neg, unpackedSub_eq]

theorem nearestTo_sub (hx : x.isFinite = true) (hy : y.isFinite = true) :
    NearestTo (x - y) (value x - value y) := by
  rw [sub_eq, sub_eq_add_neg, ← value_neg]
  exact nearestTo_add hx ((isFinite_neg y).trans hy)

theorem nearestTo_mul (hx : x.isFinite = true) (hy : y.isFinite = true) :
    NearestTo (x * y) (value x * value y) :=
  (isRounding_mul (storable_unpack x) (storable_unpack y) hx hy).nearestTo

theorem nearestTo_div (hx : x.isFinite = true) (hy : y.isFinite = true) (hy0 : value y ≠ 0) :
    NearestTo (x / y) (value x / value y) :=
  (isRounding_div hx hy hy0).nearestTo

theorem nearestTo_sqrt (hx : x.isFinite = true) (hx0 : 0 ≤ value x) :
    NearestTo x.sqrt √(value x) :=
  (isRounding_sqrt hx hx0).nearestTo

theorem nearestTo_ofInt (n : ℤ) : NearestTo (ofInt n) n := by
  have h := isRounding_normalize n 0 .positive
  rw [zpow_zero, mul_one] at h
  exact h.nearestTo

theorem nearestTo_ofInt_natCast (n : ℕ) : NearestTo (ofInt n) n := by
  have h := nearestTo_ofInt n
  rwa [Int.cast_natCast] at h

theorem unpack_add_of_infinity {s : Sign} (hx : x.toModel.unpack = .infinity s)
    (hy : y.isFinite = true ∨ y.toModel.unpack = .infinity s) :
    (x + y).toModel.unpack = .infinity s := by
  have hmodel : (x + y).toModel = .pack (.add .binary64 x.toModel.unpack y.toModel.unpack) :=
    rfl
  change y.toModel.unpack.isFinite = true ∨ _ at hy
  rw [hmodel, hx]
  cases hv : y.toModel.unpack with
  | notANumber => rw [hv] at hy; rcases hy with hy | hy <;> cases hy
  | infinity t =>
    rw [hv] at hy
    obtain rfl : t = s := UnpackedFloat.infinity.inj (hy.resolve_left nofun)
    cases t <;> exact unpack_pack_infinity _
  | zero t | finite t m e hm => exact unpack_pack_infinity s

theorem unpack_infinity_add {s : Sign} (hx : x.isFinite = true)
    (hy : y.toModel.unpack = .infinity s) : (x + y).toModel.unpack = .infinity s := by
  have hmodel : (x + y).toModel = .pack (.add .binary64 x.toModel.unpack y.toModel.unpack) :=
    rfl
  change x.toModel.unpack.isFinite = true at hx
  rw [hmodel, hy]
  cases hu : x.toModel.unpack with
  | notANumber | infinity t => rw [hu] at hx; cases hx
  | zero t | finite t m e hm => exact unpack_pack_infinity s

theorem unpack_sub_of_infinity {s : Sign} (hx : x.toModel.unpack = .infinity s)
    (hy : y.isFinite = true) : (x - y).toModel.unpack = .infinity s := by
  rw [sub_eq]
  exact unpack_add_of_infinity hx (.inl ((isFinite_neg y).trans hy))

theorem unpack_infinity_sub {s : Sign} (hx : x.isFinite = true)
    (hy : y.toModel.unpack = .infinity s) : (x - y).toModel.unpack = .infinity (-s) := by
  rw [sub_eq]
  apply unpack_infinity_add hx
  rw [unpack_neg, hy]
  rfl

theorem unpack_sqrt_of_infinity (hx : x.toModel.unpack = .infinity .positive) :
    x.sqrt.toModel.unpack = .infinity .positive := by
  have hmodel : x.sqrt.toModel = .pack (.sqrt .binary64 x.toModel.unpack) := rfl
  rw [hmodel, hx]
  exact unpack_pack_infinity .positive

theorem unpack_of_pos (hx : x.isFinite = true) (hx0 : 0 < value x) :
    ∃ m e hm, x.toModel.unpack = .finite .positive m e hm := by
  change x.toModel.unpack.isFinite = true at hx
  unfold value at hx0
  cases hu : x.toModel.unpack with
  | notANumber | infinity s => rw [hu] at hx; cases hx
  | zero s => rw [hu] at hx0; exact absurd hx0 (lt_irrefl _)
  | finite s m e hm =>
    cases s with
    | negative =>
      have : (0 : ℝ) ≤ m * 2 ^ e := by positivity
      rw [hu, unpackedValue, factor] at hx0
      linarith
    | positive => exact ⟨m, e, hm, rfl⟩

theorem unpack_mul_of_infinity {s : Sign} (hx : x.isFinite = true) (hx0 : 0 < value x)
    (hy : y.toModel.unpack = .infinity s) : (x * y).toModel.unpack = .infinity s := by
  have hmodel : (x * y).toModel = .pack (.mul .binary64 x.toModel.unpack y.toModel.unpack) :=
    rfl
  obtain ⟨m, e, hm, hu⟩ := unpack_of_pos hx hx0
  rw [hmodel, hu, hy]
  cases s <;> exact unpack_pack_infinity _

theorem unpack_infinity_mul (hx : x.toModel.unpack = .infinity .positive)
    (hy : y.isFinite = true) (hy0 : 0 < value y) :
    (x * y).toModel.unpack = .infinity .positive := by
  have hmodel : (x * y).toModel = .pack (.mul .binary64 x.toModel.unpack y.toModel.unpack) :=
    rfl
  obtain ⟨m, e, hm, hv⟩ := unpack_of_pos hy hy0
  rw [hmodel, hx, hv]
  exact unpack_pack_infinity .positive

theorem unpack_div_of_infinity (hx : x.toModel.unpack = .infinity .positive)
    (hy : y.isFinite = true) (hy0 : 0 < value y) :
    (x / y).toModel.unpack = .infinity .positive := by
  have hmodel : (x / y).toModel = .pack (.div .binary64 x.toModel.unpack y.toModel.unpack) :=
    rfl
  obtain ⟨m, e, hm, hv⟩ := unpack_of_pos hy hy0
  rw [hmodel, hx, hv]
  exact unpack_pack_infinity .positive

theorem unpack_infinity_mul_self (hx : x.toModel.unpack = .infinity .positive) :
    (x * x).toModel.unpack = .infinity .positive := by
  have hmodel : (x * x).toModel = .pack (.mul .binary64 x.toModel.unpack x.toModel.unpack) :=
    rfl
  rw [hmodel, hx]
  exact unpack_pack_infinity .positive

end Operations

end RateCurve.Double
