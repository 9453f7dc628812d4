import RateCurve.Proofs.Decimal.Digits
import RateCurve.Proofs.Double.Decimal
import RateCurve.Proofs.Double.Integer

namespace RateCurve.Decimal
open Double

section Grid

variable {a b : ℕ}

theorem ten_zpow_mul (e : ℤ) : (10 : ℝ) ^ e * 10 ^ (-e).toNat = 10 ^ e.toNat := by
  rw [← zpow_natCast, ← zpow_natCast, ← zpow_add₀ (by norm_num)]
  congr 1
  omega

theorem ten_zpow_le_div_iff (hb : 0 < b) (e : ℤ) :
    (10 : ℝ) ^ e ≤ a / b ↔ b * 10 ^ e.toNat ≤ a * 10 ^ (-e).toNat := by
  have hb' : (0 : ℝ) < b := by exact_mod_cast hb
  have hp : (0 : ℝ) < 10 ^ (-e).toNat := by positivity
  rw [le_div_iff₀ hb', ← mul_le_mul_iff_of_pos_right hp, mul_right_comm, ten_zpow_mul, mul_comm]
  exact_mod_cast Iff.rfl

theorem magnitude_spec (ha : 0 < a) (hb : 0 < b) :
    (10 : ℝ) ^ magnitude a b ≤ a / b ∧ (a / b : ℝ) < 10 ^ (magnitude a b + 1) := by
  have hb' : (0 : ℝ) < b := by exact_mod_cast hb
  have hla := length_digits_pos a
  have hlb := length_digits_pos b
  have hlo : (10 : ℝ) ^ ((digits a).length - (digits b).length - 1 : ℤ) < a / b := by
    have h₁ : (10 : ℝ) ^ ((digits a).length - 1) ≤ a := by exact_mod_cast pow_length_le ha
    have h₂ : (b : ℝ) < 10 ^ (digits b).length := by exact_mod_cast lt_pow_length b
    rw [lt_div_iff₀ hb']
    refine lt_of_lt_of_le (mul_lt_mul_of_pos_left h₂ (by positivity))
      (le_trans (le_of_eq ?_) h₁)
    rw [← zpow_natCast, ← zpow_natCast, ← zpow_add₀ (by norm_num)]
    congr 1
    omega
  have hhi : (a / b : ℝ) < 10 ^ ((digits a).length - (digits b).length + 1 : ℤ) := by
    have h₁ : (a : ℝ) < 10 ^ (digits a).length := by exact_mod_cast lt_pow_length a
    have h₂ : (10 : ℝ) ^ ((digits b).length - 1) ≤ b := by exact_mod_cast pow_length_le hb
    rw [div_lt_iff₀ hb']
    refine lt_of_lt_of_le (h₁.trans_eq ?_) (mul_le_mul_of_nonneg_left h₂ (by positivity))
    rw [← zpow_natCast, ← zpow_natCast, ← zpow_add₀ (by norm_num)]
    congr 1
    omega
  simp only [magnitude, ← ten_zpow_le_div_iff hb, Nat.pow_eq]
  split_ifs with h
  · exact ⟨h, hhi⟩
  · refine ⟨hlo.le, ?_⟩
    rw [sub_add_cancel]
    exact not_le.1 h

theorem gridPoint_spec (hb : 0 < b) (e : ℤ) :
    ((gridPoint a b e).1 : ℝ) * 10 ^ e ≤ a / b ∧
      (a / b : ℝ) < ((gridPoint a b e).1 + 1) * 10 ^ e := by
  have hp : (0 : ℝ) < 10 ^ e := by positivity
  have hb' : (0 : ℝ) < b := by exact_mod_cast hb
  have hq : (0 : ℝ) ≤ a / b / 10 ^ e := by positivity
  have hfloor : (gridPoint a b e).1 = ⌊(a / b / 10 ^ e : ℝ)⌋₊ := by
    have hdiv : (a / b / 10 ^ e : ℝ) = (a * 10 ^ (-e).toNat : ℕ) / (b * 10 ^ e.toNat : ℕ) := by
      push_cast
      rw [← ten_zpow_mul e]
      field_simp
    rw [hdiv, Nat.floor_div_eq_div]
    rfl
  rw [hfloor, ← le_div_iff₀ hp, ← div_lt_iff₀ hp]
  exact ⟨Nat.floor_le hq, Nat.lt_floor_add_one _⟩

end Grid

section ReadBack

variable {x : Float} {a b d : ℕ} {e : ℤ}

theorem ofDecimal_of_readsBack? (h : readsBack? x a b e = some d) : ofDecimal d e = x := by
  unfold readsBack? at h
  generalize gridPoint a b e = point at h
  obtain ⟨below, side⟩ := point
  by_cases hb : ofDecimal below e = x <;> by_cases ha : ofDecimal (below + 1) e = x <;>
    simp only [hb, ha, decide_true, decide_false] at h
  · cases side with
    | lt => cases h; exact hb
    | gt => cases h; exact ha
    | eq =>
      cases h
      rcases Nat.mod_two_eq_zero_or_one below with h2 | h2
      · rwa [h2]
      · rwa [h2]
  · cases h
    exact hb
  · cases h
    exact ha
  · cases h

theorem isSome_readsBack? (h : ofDecimal (gridPoint a b e).1 e = x ∨
    ofDecimal ((gridPoint a b e).1 + 1) e = x) : (readsBack? x a b e).isSome = true := by
  unfold readsBack?
  generalize gridPoint a b e = point at h
  obtain ⟨below, side⟩ := point
  by_cases hb : ofDecimal below e = x <;> by_cases ha : ofDecimal (below + 1) e = x <;>
    simp only [hb, ha, decide_true, decide_false]
  · cases side <;> rfl
  · rfl
  · rfl
  · exact absurd h (not_or.2 ⟨hb, ha⟩)

/-- What is found reads back, if with seventeen digits something does. -/
theorem ofDecimal_shortest_of_isSome
    (h : (readsBack? x a b (magnitude a b - 16)).isSome = true) :
    ofDecimal (shortest x a b).1 (shortest x a b).2 = x := by
  have hshortest : shortest x a b =
      ((List.range 17).findSome? fun n : ℕ =>
        (readsBack? x a b (magnitude a b - n)).map (·, magnitude a b - (n : ℤ))).getD
          (a * Nat.pow 10 1074 / b, -1074) := rfl
  rw [hshortest]
  cases hfound : (List.range 17).findSome? fun n : ℕ =>
      (readsBack? x a b (magnitude a b - n)).map (·, magnitude a b - (n : ℤ)) with
  | none =>
    obtain ⟨d, hd⟩ := Option.isSome_iff_exists.1 h
    have := List.findSome?_eq_none_iff.1 hfound 16 (List.mem_range.2 (by decide))
    rw [Nat.cast_ofNat, hd] at this
    cases this
  | some point =>
    obtain ⟨n, -, hn⟩ := List.exists_of_findSome?_eq_some hfound
    obtain ⟨d, hd, rfl⟩ := Option.map_eq_some_iff.1 hn
    rw [Option.getD_some]
    exact ofDecimal_of_readsBack? hd

theorem ofDecimal_eq_of_abs_sub_le (hx : 0.0 < x) (hd : 10 ^ 16 ≤ d)
    (hv : 10 ^ 16 * (10 : ℝ) ^ e ≤ Double.value x)
    (h : |d * 10 ^ e - Double.value x| ≤ 10 ^ e / 2) :
    ofDecimal d e = x := by
  obtain ⟨hxv, hpos⟩ := pos_iff.1 hx
  have hp : (0 : ℝ) < 10 ^ e := by positivity
  have hd' : (10 : ℝ) ^ 16 ≤ d := by exact_mod_cast hd
  have hy : 10 ^ 16 * (10 : ℝ) ^ e ≤ d * 10 ^ e := mul_le_mul_of_nonneg_right hd' hp.le
  have hnear : |d * 10 ^ e - Double.value x| * 2 ^ (54 : ℤ) < 10 ^ 16 * (10 : ℝ) ^ e :=
    calc
      |d * 10 ^ e - Double.value x| * 2 ^ (54 : ℤ) ≤ 10 ^ e / 2 * 2 ^ (54 : ℤ) :=
        mul_le_mul_of_nonneg_right h (by positivity)
      _ = 2 ^ (53 : ℤ) * 10 ^ e := by
        rw [show (54 : ℤ) = 53 + 1 from rfl, zpow_add_one₀ two_ne_zero]
        ring
      _ < 10 ^ 16 * 10 ^ e := mul_lt_mul_of_pos_right (by norm_num) hp
  have hround := (onGrid_value x).round_eq_of_abs_sub_lt hpos
    (lt_of_lt_of_le (by positivity) hy) (hnear.trans_le hv) (hnear.trans_le hy)
  obtain ⟨hlo, hhi⟩ := abs_le.1 (abs_value_le x)
  apply (nearestTo_ofDecimal d e).eq_of_value_eq hxv _ hpos.ne'
  rw [nearest, hround, min_eq_right hhi, max_eq_right hlo]

/-- Seventeen digits are enough for every double. -/
theorem ofDecimal_shortest (hx : 0.0 < x) (hb : 0 < b) (h : (a / b : ℝ) = Double.value x) :
    ofDecimal (shortest x a b).1 (shortest x a b).2 = x := by
  have hpos := (pos_iff.1 hx).2
  have ha : 0 < a := by
    rw [← h] at hpos
    by_contra h0
    obtain rfl : a = 0 := by omega
    rw [Nat.cast_zero, zero_div] at hpos
    exact lt_irrefl _ hpos
  obtain ⟨hmag, -⟩ := magnitude_spec ha hb
  set e := magnitude a b - 16 with he
  have hp : (0 : ℝ) < 10 ^ e := by positivity
  rw [show magnitude a b = 16 + e by omega, zpow_add₀ (by norm_num), h] at hmag
  obtain ⟨hlo, hhi⟩ := gridPoint_spec (a := a) hb e
  rw [h] at hlo hhi
  apply ofDecimal_shortest_of_isSome
  rw [← he]
  apply isSome_readsBack?
  generalize (gridPoint a b e).1 = d at hlo hhi ⊢
  have hd : 10 ^ 16 ≤ d := by
    have hlt : (10 : ℝ) ^ (16 : ℤ) < d + 1 := lt_of_mul_lt_mul_right (hmag.trans_lt hhi) hp.le
    exact Nat.lt_succ_iff.1 (by exact_mod_cast hlt)
  have hmag : 10 ^ 16 * (10 : ℝ) ^ e ≤ Double.value x := by exact_mod_cast hmag
  -- One of the two neighbours is not further away than half the distance between them.
  rcases le_total (Double.value x - d * 10 ^ e) (10 ^ e / 2) with hnear | hfar
  · exact .inl (ofDecimal_eq_of_abs_sub_le hx hd hmag (abs_le.2 ⟨by linarith, by linarith⟩))
  · refine .inr (ofDecimal_eq_of_abs_sub_le hx (by omega) hmag ?_)
    push_cast
    exact abs_le.2 ⟨by linarith, by linarith⟩

end ReadBack

end RateCurve.Decimal
