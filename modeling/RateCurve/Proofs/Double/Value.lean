import RateCurve.Double
import RateCurve.Proofs.Double.Mantissa

namespace RateCurve.Double
open Float.Model Float.Model.UnpackedFloat

def Storable : UnpackedFloat → Prop
  | .finite _ m e _ => m < 2 ^ 53 ∧ -1074 ≤ e ∧ e ≤ 971 ∧ (2 ^ 52 ≤ m ∨ e = -1074)
  | _ => True

/-- What packing makes of an unpacked double: an exponent beyond the largest one gives an
infinity. -/
def bounded : UnpackedFloat → UnpackedFloat
  | .finite s m e h => if 971 < e then .infinity s else .finite s m e h
  | u => u

theorem toNat_one_append (m : BitVec 52) : (1#1 ++ m).toNat = 2 ^ 52 + m.toNat := by
  rw [BitVec.toNat_append, BitVec.toNat_ofNat, Nat.shiftLeft_eq, Nat.or_comm,
    show 1 % 2 ^ 1 * 2 ^ 52 = 2 ^ 52 from rfl, Nat.or_two_pow_eq_add_of_lt m.isLt, Nat.add_comm]

theorem unpack_packComponents (s : Sign) (e : BitVec 11) (m : BitVec 52) :
    UnpackedFloat.unpack .binary64 (packComponents .binary64 s e m) =
      if e = -1#_ then if m = 0#_ then .infinity s else .notANumber
      else if e = 0#_ then
        if h : m = 0#_ then .zero s
        else .finite s m.toNat (e.toNat - 1074)
        (by simpa [BitVec.toNat_pos, BitVec.pos_iff_ne_zero])
      else .finite s (2 ^ 52 + m.toNat) (e.toNat - 1075) (by omega) := by
  have h₁ : (e.toNat : ℤ) - ((1023 : ℕ) + (52 : ℕ)) = e.toNat - 1075 := by omega
  have h₂ : (e.toNat : ℤ) - 1075 + 1 = e.toNat - 1074 := by omega
  have hb : Format.exponentBias .binary64 = 1023 := rfl
  simp only [UnpackedFloat.unpack, unpackMantissa_packComponents, unpackExponent_packComponents,
    unpackSign_packComponents, Sign.ofBitVec_toBitVec, hb, h₁, h₂, toNat_one_append]

/-- The leading bit of a normal mantissa is not stored, but its exponent is not that of a
subnormal. -/
theorem unpack_normal (s : Sign) {m : ℕ} {e : ℤ} (hm : 0 < m) (hlo : 2 ^ 52 ≤ m)
    (hhi : m < 2 ^ 53) (he : -1074 ≤ e) (he' : e ≤ 971) :
    UnpackedFloat.unpack .binary64
        (packComponents .binary64 s (BitVec.ofNat 11 (e + 1075).toNat) (BitVec.ofNat 52 m)) =
      .finite s m e hm := by
  have hE : (BitVec.ofNat 11 (e + 1075).toNat).toNat = (e + 1075).toNat := by
    rw [BitVec.toNat_ofNat, Nat.mod_eq_of_lt (by simp only [Nat.reducePow]; omega)]
  have hne (k : BitVec 11) (hk : k.toNat ≠ (e + 1075).toNat) :
      BitVec.ofNat 11 (e + 1075).toNat ≠ k := fun h => hk (h ▸ hE)
  have hE₁ := hne (-1#11) (by simp only [BitVec.reduceNeg, BitVec.reduceToNat]; omega)
  have hE₀ := hne 0#11 (by simp only [BitVec.toNat_ofNat, Nat.zero_mod]; omega)
  have hM : 2 ^ 52 + (BitVec.ofNat 52 m).toNat = m := by
    rw [BitVec.toNat_ofNat]
    omega
  rw [unpack_packComponents, if_neg hE₁, if_neg hE₀]
  simp only [hM, hE]
  congr 1
  omega

theorem unpack_subnormal (s : Sign) {m : ℕ} (hm : 0 < m) (hlt : m < 2 ^ 52) :
    UnpackedFloat.unpack .binary64 (packComponents .binary64 s 0#11 (BitVec.ofNat 52 m)) =
      .finite s m (-1074) hm := by
  have hM : (BitVec.ofNat 52 m).toNat = m := by
    rw [BitVec.toNat_ofNat, Nat.mod_eq_of_lt hlt]
  have hM₀ : BitVec.ofNat 52 m ≠ 0#52 := fun h => hm.ne' (hM ▸ h ▸ rfl)
  rw [unpack_packComponents, if_neg (by decide), if_pos rfl, dif_neg hM₀]
  simp only [hM, BitVec.toNat_ofNat, Nat.zero_mod]
  congr 1

theorem unpack_pack {u : UnpackedFloat} (h : Canonical u) :
    (Float.Model.pack u).unpack = bounded u := by
  change UnpackedFloat.unpack .binary64 (UnpackedFloat.pack .binary64 u) = bounded u
  have hb : Format.exponentBias .binary64 = 1023 := rfl
  cases u with
  | notANumber => exact unpack_packedNaN
  | infinity s =>
    simp only [UnpackedFloat.pack, packedInfinity, unpack_packComponents, if_true, bounded]
    rfl
  | zero s => exact unpack_packedZero
  | finite s m e hm =>
    obtain ⟨hm53, he, hn⟩ := h
    have hbias : e + ((1023 : ℕ) : ℤ) + ((52 : ℕ) : ℤ) = e + 1075 := by omega
    simp only [UnpackedFloat.pack, hb, hbias, bounded]
    by_cases hbig : 971 < e
    · rw [if_pos (by simp only [Nat.reducePow]; omega), if_pos hbig]
      simp only [packedInfinity, unpack_packComponents, if_true]
      rfl
    · rw [if_neg (by simp only [Nat.reducePow]; omega), if_neg hbig]
      by_cases hnormal : 2 ^ 52 ≤ m
      · have hl : m.log2 = 52 := (Nat.log2_eq_iff hm.ne').2 ⟨hnormal, hm53⟩
        rw [if_pos (by rw [hl]; rfl)]
        exact unpack_normal s hm hnormal hm53 he (not_lt.1 hbig)
      · have hl : ¬ m.log2 + 1 = Format.binary64.mantissaBits := by
          have := (Nat.log2_lt hm.ne').2 (not_le.1 hnormal)
          simp only [Format.mantissaBits]
          omega
        obtain rfl : e = -1074 := hn.resolve_left hnormal
        rw [if_neg hl]
        exact unpack_subnormal s hm (not_le.1 hnormal)

theorem storable_unpack (x : Float) : Storable x.toModel.unpack := by
  change Storable (UnpackedFloat.unpack .binary64 x.toModel.toBits.toBitVec)
  rw [← @packComponents_unpackSign_unpackExponent_unpackMantissa .binary64
    x.toModel.toBits.toBitVec, unpack_packComponents]
  generalize @unpackExponent .binary64 x.toModel.toBits.toBitVec = e
  generalize @unpackMantissa .binary64 x.toModel.toBits.toBitVec = m
  have hm : m.toNat < 2 ^ 52 := m.isLt
  have he : e.toNat < 2 ^ 11 := e.isLt
  split_ifs with h₁ h₂ h₃ h₄
  · trivial
  · trivial
  · trivial
  · rw [h₃]
    exact ⟨by omega, by decide, by decide, .inr rfl⟩
  · have he₀ : e.toNat ≠ 0 := fun h => h₃ (BitVec.eq_of_toNat_eq h)
    have he₁ : e.toNat ≠ 2047 := fun h => h₁ (BitVec.eq_of_toNat_eq h)
    simp only [Storable]
    omega

/-- A double that stands for a number, possibly an infinite one. -/
def HasValue (x : Float) : Prop :=
  x.toModel.unpack ≠ .notANumber

/-- The real number that a double stands for; see `unpackedValue` for infinities. -/
noncomputable def value (x : Float) : ℝ :=
  unpackedValue x.toModel.unpack

theorem abs_factor_mul (s : Sign) (x : ℝ) : |factor s * x| = |x| := by
  cases s
  · rw [factor, neg_mul, one_mul, abs_neg]
  · rw [factor, one_mul]

theorem mul_zpow_lt_limit {m : ℕ} {e : ℤ} (hm : m < 2 ^ 53) (he : e ≤ 971) :
    (m : ℝ) * 2 ^ e < limit := by
  have hp : (0 : ℝ) < 2 ^ e := by positivity
  have hm' : (m : ℝ) < 2 ^ (53 : ℤ) := by exact_mod_cast hm
  calc
    (m : ℝ) * 2 ^ e < 2 ^ (53 : ℤ) * 2 ^ e := mul_lt_mul_of_pos_right hm' hp
    _ = 2 ^ (53 + e) := (zpow_add₀ two_ne_zero _ _).symm
    _ ≤ limit := zpow_le_zpow_right₀ one_le_two (by omega)

theorem abs_unpackedValue_lt_limit_iff {u : UnpackedFloat} (h : Storable u)
    (hu : u ≠ .notANumber) : |unpackedValue u| < limit ↔ u.isFinite = true := by
  have := limit_pos
  cases u with
  | notANumber => exact absurd rfl hu
  | infinity s =>
    simp only [unpackedValue, abs_factor_mul, abs_of_pos this, lt_irrefl,
      UnpackedFloat.isFinite, Bool.false_eq_true]
  | zero s => simpa only [unpackedValue, abs_zero, UnpackedFloat.isFinite, iff_true]
  | finite s m e hm =>
    have hp : (0 : ℝ) ≤ m * 2 ^ e := by positivity
    simpa only [unpackedValue, abs_factor_mul, abs_of_nonneg hp, UnpackedFloat.isFinite,
      iff_true] using
      mul_zpow_lt_limit h.1 h.2.2.1

theorem isFinite_iff {x : Float} : x.isFinite = true ↔ HasValue x ∧ |value x| < limit := by
  have h := storable_unpack x
  by_cases hx : HasValue x
  · rw [and_iff_right hx]
    exact (abs_unpackedValue_lt_limit_iff h hx).symm
  · have hn : x.toModel.unpack = .notANumber := not_not.1 hx
    have : x.isFinite = false := by
      change x.toModel.unpack.isFinite = false
      rw [hn]
      rfl
    simp only [this, hx, false_and, Bool.false_eq_true]

theorem compare_then_eq_cmp {s₁ s₂ : Sign} {m₁ m₂ : ℕ} {e₁ e₂ : ℤ} {hm₁ : 0 < m₁} {hm₂ : 0 < m₂}
    (h₁ : Storable (.finite s₁ m₁ e₁ hm₁)) (h₂ : Storable (.finite s₂ m₂ e₂ hm₂)) :
    (compare e₁ e₂).then (compare m₁ m₂) = cmp ((m₁ : ℝ) * 2 ^ e₁) (m₂ * 2 ^ e₂) := by
  -- With a larger exponent comes a number that has all its bits.
  have hlt {m₁ m₂ : ℕ} {e₁ e₂ : ℤ} (hm₁ : m₁ < 2 ^ 53) (he₁ : -1074 ≤ e₁)
      (h₂ : 2 ^ 52 ≤ m₂ ∨ e₂ = -1074) (h : e₁ < e₂) : (m₁ : ℝ) * 2 ^ e₁ < m₂ * 2 ^ e₂ := by
    have hp₁ : (0 : ℝ) < 2 ^ e₁ := by positivity
    have hp₂ : (0 : ℝ) < 2 ^ e₂ := by positivity
    have hm₁' : (m₁ : ℝ) < 2 ^ (53 : ℤ) := by exact_mod_cast hm₁
    have hm₂ : 2 ^ 52 ≤ m₂ := h₂.resolve_right (by omega)
    have hm₂' : (2 : ℝ) ^ (52 : ℤ) ≤ m₂ := by exact_mod_cast hm₂
    calc
      (m₁ : ℝ) * 2 ^ e₁ < 2 ^ (53 : ℤ) * 2 ^ e₁ := mul_lt_mul_of_pos_right hm₁' hp₁
      _ = 2 ^ (53 + e₁) := (zpow_add₀ two_ne_zero _ _).symm
      _ ≤ 2 ^ (52 + e₂) := zpow_le_zpow_right₀ one_le_two (by omega)
      _ = 2 ^ (52 : ℤ) * 2 ^ e₂ := zpow_add₀ two_ne_zero _ _
      _ ≤ m₂ * 2 ^ e₂ := mul_le_mul_of_nonneg_right hm₂' hp₂.le
  rcases lt_trichotomy e₁ e₂ with h | rfl | h
  · rw [Int.compare_eq_lt.2 h, Ordering.lt_then, eq_comm, cmp_eq_lt_iff]
    exact hlt h₁.1 h₁.2.1 h₂.2.2.2 h
  · have hp : (0 : ℝ) < 2 ^ e₁ := by positivity
    rw [Int.compare_eq_eq.2 rfl, Ordering.eq_then, eq_comm]
    rcases lt_trichotomy m₁ m₂ with h | rfl | h
    · rw [Nat.compare_eq_lt.2 h, cmp_eq_lt_iff]
      exact mul_lt_mul_of_pos_right (by exact_mod_cast h) hp
    · rw [Nat.compare_eq_eq.2 rfl, cmp_self_eq_eq]
    · rw [Nat.compare_eq_gt.2 h, cmp_eq_gt_iff]
      exact mul_lt_mul_of_pos_right (by exact_mod_cast h) hp
  · rw [Int.compare_eq_gt.2 h, Ordering.gt_then, eq_comm, cmp_eq_gt_iff]
    exact hlt h₂.1 h₂.2.1 h₁.2.2.2 h

theorem compare_eq_cmp {u v : UnpackedFloat} (hu : Storable u) (hv : Storable v)
    (hu' : u ≠ .notANumber) (hv' : v ≠ .notANumber) :
    UnpackedFloat.compare u v = some (cmp (unpackedValue u) (unpackedValue v)) := by
  have hl := limit_pos
  have hfin {s : Sign} {m : ℕ} {e : ℤ} {hm : 0 < m} (h : Storable (.finite s m e hm)) :
      (0 : ℝ) < m * 2 ^ e ∧ (m : ℝ) * 2 ^ e < limit :=
    ⟨by positivity, mul_zpow_lt_limit h.1 h.2.2.1⟩
  have lt {x y : ℝ} (h : x < y) : some Ordering.lt = some (cmp x y) :=
    congrArg some ((cmp_eq_lt_iff x y).2 h).symm
  have eq (x : ℝ) : some Ordering.eq = some (cmp x x) :=
    congrArg some (cmp_self_eq_eq x).symm
  have gt {x y : ℝ} (h : y < x) : some Ordering.gt = some (cmp x y) :=
    congrArg some ((cmp_eq_gt_iff x y).2 h).symm
  rcases u with s | _ | s | ⟨s, m, e, hm⟩ <;> rcases v with t | _ | t | ⟨t, n, f, hn⟩
  case finite.finite =>
    obtain ⟨hx, hx'⟩ := hfin hu
    obtain ⟨hy, hy'⟩ := hfin hv
    cases s <;> cases t <;> simp only [UnpackedFloat.compare, unpackedValue, factor]
    · have hneg : StrictAnti fun r : ℝ => -1 * r := fun a b h => by linarith
      rw [compare_then_eq_cmp hu hv, cmp_swap]
      exact congrArg some (hneg.cmp_map_eq _ _).symm
    · exact lt (by linarith)
    · exact gt (by linarith)
    · rw [compare_then_eq_cmp hu hv, one_mul, one_mul]
  case notANumber.infinity | notANumber.notANumber | notANumber.zero | notANumber.finite =>
    exact absurd rfl hu'
  case infinity.notANumber | zero.notANumber | finite.notANumber => exact absurd rfl hv'
  case zero.zero => exact eq 0
  case infinity.infinity =>
    cases s <;> cases t <;> simp only [unpackedValue, factor]
    · exact eq _
    · exact lt (by linarith)
    · exact gt (by linarith)
    · exact eq _
  case infinity.zero | zero.infinity =>
    cases s <;> cases t <;> simp only [unpackedValue, factor] <;>
      first | exact lt (by linarith) | exact gt (by linarith)
  case infinity.finite =>
    obtain ⟨hy, hy'⟩ := hfin hv
    cases s <;> cases t <;> simp only [unpackedValue, factor] <;>
      first | exact lt (by linarith) | exact gt (by linarith)
  case finite.infinity | finite.zero =>
    obtain ⟨hx, hx'⟩ := hfin hu
    cases s <;> cases t <;> simp only [unpackedValue, factor] <;>
      first | exact lt (by linarith) | exact gt (by linarith)
  case zero.finite =>
    obtain ⟨hy, hy'⟩ := hfin hv
    cases s <;> cases t <;> simp only [unpackedValue, factor] <;>
      first | exact lt (by linarith) | exact gt (by linarith)

section

variable {x y : Float}

theorem compare_eq_none (h : ¬(HasValue x ∧ HasValue y)) :
    UnpackedFloat.compare x.toModel.unpack y.toModel.unpack = none := by
  by_cases hx : HasValue x
  · have hy : y.toModel.unpack = .notANumber := not_not.1 fun hy => h ⟨hx, hy⟩
    rw [hy]
    cases x.toModel.unpack <;> rfl
  · rw [show x.toModel.unpack = .notANumber from not_not.1 hx]
    rfl

theorem compare_eq_some (hx : HasValue x) (hy : HasValue y) :
    UnpackedFloat.compare x.toModel.unpack y.toModel.unpack = some (cmp (value x) (value y)) :=
  compare_eq_cmp (storable_unpack x) (storable_unpack y) hx hy

theorem lt_iff : x < y ↔ HasValue x ∧ HasValue y ∧ value x < value y := by
  apply decide_eq_true_iff.trans
  change (UnpackedFloat.compare x.toModel.unpack y.toModel.unpack == some .lt) = true ↔ _
  by_cases h : HasValue x ∧ HasValue y
  · simp only [compare_eq_some h.1 h.2, h, true_and, beq_iff_eq, Option.some.injEq,
      cmp_eq_lt_iff]
  · rw [compare_eq_none h]
    simp only [← and_assoc, h, false_and, iff_false]
    decide

theorem le_iff : x ≤ y ↔ HasValue x ∧ HasValue y ∧ value x ≤ value y := by
  apply decide_eq_true_iff.trans
  change (UnpackedFloat.compare x.toModel.unpack y.toModel.unpack).any (·.isLE) = true ↔ _
  by_cases h : HasValue x ∧ HasValue y
  · simp only [compare_eq_some h.1 h.2, Option.any_some, Ordering.isLE_iff_ne_gt,
      cmp_eq_gt_iff, not_lt, h, true_and]
  · rw [compare_eq_none h]
    simp only [← and_assoc, h, false_and, Option.any_none, Bool.false_eq_true]

theorem beq_iff : (x == y) = true ↔ HasValue x ∧ HasValue y ∧ value x = value y := by
  change (UnpackedFloat.compare x.toModel.unpack y.toModel.unpack == some .eq) = true ↔ _
  by_cases h : HasValue x ∧ HasValue y
  · simp only [compare_eq_some h.1 h.2, h, true_and, beq_iff_eq, Option.some.injEq,
      cmp_eq_eq_iff]
  · rw [compare_eq_none h]
    simp only [← and_assoc, h, false_and, iff_false]
    decide

end

end RateCurve.Double
