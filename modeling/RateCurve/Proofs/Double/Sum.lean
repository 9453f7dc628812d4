import RateCurve.Proofs.Double.Order

namespace RateCurve.Double

/-- A quarter of the spacing of the doubles beyond a power of two is lost beside it. -/
theorem round_zpow_add {n : ℤ} (hn : -1022 ≤ n) : round (2 ^ n + 2 ^ (n - 54)) = 2 ^ n := by
  have hp : (0 : ℝ) < 2 ^ n := by positivity
  have hq : (0 : ℝ) < 2 ^ (n - 54) := by positivity
  have hlt : (2 : ℝ) ^ (n - 54) < 2 ^ n := zpow_lt_zpow_right₀ one_lt_two (by omega)
  have hpos : (0 : ℝ) < 2 ^ n + 2 ^ (n - 54) := by linarith
  have hexp : exponent (2 ^ n + 2 ^ (n - 54) : ℝ) = n - 52 := by
    have hlo : n ≤ Int.log 2 (2 ^ n + 2 ^ (n - 54) : ℝ) :=
      (Int.zpow_le_iff_le_log (b := 2) (by norm_num) hpos).1 (by push_cast; linarith)
    have hhi : Int.log 2 (2 ^ n + 2 ^ (n - 54) : ℝ) < n + 1 :=
      (Int.lt_zpow_iff_log_lt (b := 2) (by norm_num) hpos).1 (by
        push_cast
        rw [zpow_add_one₀ two_ne_zero]
        linarith)
    rw [exponent, abs_of_pos hpos]
    omega
  have hdiv : (2 ^ n + 2 ^ (n - 54) : ℝ) / 2 ^ (n - 52) = ((2 ^ 52 : ℤ) : ℝ) + 1 / 4 := by
    rw [add_div, ← zpow_sub₀ two_ne_zero, ← zpow_sub₀ two_ne_zero]
    rw [show n - (n - 52) = 52 by ring, show n - 54 - (n - 52) = -2 by ring]
    norm_num
  have hfract : Int.fract (((2 ^ 52 : ℤ) : ℝ) + 1 / 4) = 1 / 4 := by
    rw [Int.fract_intCast_add]
    exact Int.fract_eq_self.2 ⟨by norm_num, by norm_num⟩
  have hfloor : ⌊((2 ^ 52 : ℤ) : ℝ) + 1 / 4⌋ = 2 ^ 52 := by
    rw [Int.floor_intCast_add]
    norm_num
  rw [round, hexp, hdiv, halfEven_of_lt (by rw [hfract]; norm_num), hfloor]
  rw [show ((2 ^ 52 : ℤ) : ℝ) = 2 ^ (52 : ℤ) by norm_num, ← zpow_add₀ two_ne_zero]
  congr 1
  ring

theorem nearest_add_le_zpow {n : ℤ} (hn : -1022 ≤ n) {x y : ℝ} (hx : x ≤ 2 ^ n)
    (hy : y ≤ 2 ^ (n - 54)) : nearest (x + y) ≤ 2 ^ n := by
  have hp : (0 : ℝ) < 2 ^ n := by positivity
  have hl := limit_pos
  calc
    nearest (x + y) ≤ nearest (2 ^ n + 2 ^ (n - 54)) := nearest_mono (by linarith)
    _ = max (-limit) (min limit (2 ^ n)) := by rw [nearest, round_zpow_add hn]
    _ ≤ 2 ^ n := max_le (by linarith) (min_le_right _ _)

section

variable {x y : Float}

theorem le_add_right (hx : 0.0 ≤ x) (hy : 0.0 ≤ y) : x ≤ x + y := by
  have h := nearestTo_add_of_nonneg hx hy
  exact le_iff.2 ⟨hasValue_of_nonneg hx, h.hasValue, h.le (by linarith [value_nonneg hy])⟩

theorem add_mono_left {z : Float} (hx : 0.0 ≤ x) (h : x ≤ y) (hz : 0.0 ≤ z) :
    x + z ≤ y + z := by
  have hx' := nearestTo_add_of_nonneg hx hz
  have hy' := nearestTo_add_of_nonneg (Double.le_trans hx h) hz
  have hle := (le_iff.1 h).2.2
  exact le_iff.2 ⟨hx'.hasValue, hy'.hasValue, hx'.mono hy' (by linarith)⟩

theorem add_mono_right {z : Float} (hz : 0.0 ≤ z) (hx : 0.0 ≤ x) (h : x ≤ y) :
    z + x ≤ z + y := by
  have hx' := nearestTo_add_of_nonneg hz hx
  have hy' := nearestTo_add_of_nonneg hz (Double.le_trans hx h)
  have hle := (le_iff.1 h).2.2
  exact le_iff.2 ⟨hx'.hasValue, hy'.hasValue, hx'.mono hy' (by linarith)⟩

end

section

variable {xs ys : List Float} {a b : Float}

theorem nonneg_foldl_add (hxs : ∀ x ∈ xs, 0.0 ≤ x) (ha : 0.0 ≤ a) :
    0.0 ≤ xs.foldl (· + ·) a := by
  induction xs generalizing a with
  | nil => exact ha
  | cons x xs ih =>
    exact ih (fun y hy => hxs y (List.mem_cons_of_mem x hy))
      (nonneg_add ha (hxs x List.mem_cons_self))

theorem value_foldl_add_eq_zero_iff (hxs : ∀ x ∈ xs, 0.0 ≤ x) (ha : 0.0 ≤ a) :
    value (xs.foldl (· + ·) a) = 0 ↔ value a = 0 ∧ ∀ x ∈ xs, value x = 0 := by
  induction xs generalizing a with
  | nil => simp only [List.foldl_nil, List.not_mem_nil, false_imp_iff, implies_true, and_true]
  | cons x xs ih =>
    have hx := hxs x List.mem_cons_self
    rw [List.foldl_cons, ih (fun y hy => hxs y (List.mem_cons_of_mem x hy)) (nonneg_add ha hx),
      value_add_eq_zero_iff ha hx, List.forall_mem_cons, and_assoc]

/-- Doubles that are small beside a power of two do not add up to more than it, however many
there are: from some point on nothing is added any more. -/
theorem value_foldl_add_le {n : ℤ} (hn : -1022 ≤ n)
    (hxs : ∀ x ∈ xs, 0.0 ≤ x ∧ value x ≤ 2 ^ (n - 54)) (ha : 0.0 ≤ a) (han : value a ≤ 2 ^ n) :
    value (xs.foldl (· + ·) a) ≤ 2 ^ n := by
  induction xs generalizing a with
  | nil => exact han
  | cons x xs ih =>
    obtain ⟨hx, hxs⟩ := List.forall_mem_cons.1 hxs
    refine ih hxs (nonneg_add ha hx.1) ?_
    rw [(nearestTo_add_of_nonneg ha hx.1).value_eq]
    exact nearest_add_le_zpow hn han hx.2

theorem foldl_add_mono (h : xs.Sublist ys) (hys : ∀ y ∈ ys, 0.0 ≤ y) (ha : 0.0 ≤ a)
    (hab : a ≤ b) :
    xs.foldl (· + ·) a ≤ ys.foldl (· + ·) b := by
  induction h generalizing a b with
  | slnil => exact hab
  | cons y _ ih =>
    obtain ⟨hy, hys⟩ := List.forall_mem_cons.1 hys
    exact ih hys ha (Double.le_trans hab (le_add_right (Double.le_trans ha hab) hy))
  | cons_cons y _ ih =>
    obtain ⟨hy, hys⟩ := List.forall_mem_cons.1 hys
    exact ih hys (nonneg_add ha hy) (add_mono_left ha hab hy)

end

end RateCurve.Double
