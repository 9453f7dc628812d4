import Mathlib
import RateCurve.Decimal.Shortest

namespace RateCurve.Decimal

variable {ds es rest : List Char} {n : ℕ}

theorem value_eq (ds : List Char) : value ds = Nat.ofDigitChars 10 ds 0 :=
  Nat.ofDigitChars_eq_foldl.symm

theorem value_append (ds es : List Char) :
    value (ds ++ es) = value ds * 10 ^ es.length + value es := by
  rw [value_eq, Nat.ofDigitChars_append, Nat.ofDigitChars_eq_ofDigitChars_zero,
    value_eq, value_eq, Nat.mul_comm]

@[simp]
theorem value_digits (n : ℕ) : value (digits n) = n :=
  (value_eq _).trans Nat.ofDigitChars_ten_toDigits

theorem value_replicate_zero (n : ℕ) : value (List.replicate n '0') = 0 := by
  rw [value_eq, Nat.ofDigitChars_replicate_zero, Nat.mul_zero]

theorem value_append_zeros (ds : List Char) (n : ℕ) :
    value (ds ++ List.replicate n '0') = value ds * 10 ^ n := by
  rw [value_append, value_replicate_zero, List.length_replicate, Nat.add_zero]

theorem value_zeros_append (n : ℕ) (ds : List Char) :
    value (List.replicate n '0' ++ ds) = value ds := by
  rw [value_append, value_replicate_zero, Nat.zero_mul, Nat.zero_add]

theorem isDigit_of_mem_digits {c : Char} (h : c ∈ digits n) : c.isDigit = true :=
  Nat.isDigit_of_mem_toDigits (by decide) (by decide) h

theorem isDigit_of_mem_zeros (n : ℕ) : ∀ c ∈ List.replicate n '0', c.isDigit = true := by
  intro c hc
  rw [List.eq_of_mem_replicate hc]
  rfl

theorem digits_ne_nil (n : ℕ) : digits n ≠ [] :=
  Nat.toDigits_ne_nil

theorem length_digits_pos (n : ℕ) : 0 < (digits n).length :=
  Nat.length_toDigits_pos

theorem lt_pow_length (n : ℕ) : n < 10 ^ (digits n).length :=
  (Nat.length_toDigits_le_iff (by decide) (length_digits_pos n)).1 le_rfl

theorem pow_length_le (hn : 0 < n) : 10 ^ ((digits n).length - 1) ≤ n := by
  rcases (Nat.succ_le_of_lt (length_digits_pos n)).eq_or_lt with h | h
  · rw [← h]
    exact hn
  · by_contra hlt
    have := (Nat.length_toDigits_le_iff (b := 10) (by decide) (by omega)).2 (not_le.1 hlt)
    change (digits n).length ≤ _ at this
    omega

theorem value_lt (h : ∀ c ∈ ds, c.isDigit = true) : value ds < 10 ^ ds.length := by
  induction ds using List.reverseRecOn with
  | nil => exact Nat.one_pos
  | append_singleton ds c ih =>
    obtain ⟨hds, hc⟩ := List.forall_mem_append.1 h
    have hlt := ih hds
    have hc := Char.isDigit_iff_toNat.1 (hc c List.mem_cons_self)
    have hv : value [c] = c.toNat - '0'.toNat := Nat.zero_add _
    rw [value_append, hv, List.length_append, List.length_singleton, pow_one, pow_succ]
    have h0 : '0'.toNat = 48 := rfl
    have h9 : '9'.toNat = 57 := rfl
    omega

theorem head?_digits_ne (hn : 0 < n) : (digits n).head? ≠ some '0' := by
  intro h
  obtain ⟨cs, hcs⟩ := List.head?_eq_some_iff.1 h
  have hlt : value cs < 10 ^ cs.length := value_lt fun c hc =>
    isDigit_of_mem_digits (n := n) (by rw [hcs]; exact List.mem_cons_of_mem _ hc)
  have hle := pow_length_le hn
  have hv : n = value cs := by
    rw [← value_digits n, hcs]
    exact value_zeros_append 1 cs
  rw [hcs, List.length_cons, Nat.add_sub_cancel] at hle
  omega

theorem spanDigits_append (h : ∀ c ∈ ds, c.isDigit = true)
    (hrest : ∀ c ∈ rest.head?, c.isDigit = false) : spanDigits (ds ++ rest) = (ds, rest) := by
  rw [spanDigits, List.span_eq_takeWhile_dropWhile, List.takeWhile_append_of_pos h,
    List.dropWhile_append_of_pos h]
  cases rest with
  | nil => rw [List.takeWhile_nil, List.dropWhile_nil, List.append_nil]
  | cons c rest =>
    have hc := hrest c rfl
    rw [List.takeWhile_cons_of_neg (by rw [hc]; decide),
      List.dropWhile_cons_of_neg (by rw [hc]; decide),
      List.append_nil]

theorem exists_dropTrailingZeros_append (ds : List Char) :
    ∃ n, ds = dropTrailingZeros ds ++ List.replicate n '0' := by
  refine ⟨(ds.rtakeWhile (· == '0')).length, ?_⟩
  have hzeros : ds.rtakeWhile (· == '0') =
      List.replicate (ds.rtakeWhile (· == '0')).length '0' :=
    List.eq_replicate_iff.2 ⟨rfl, fun c hc => beq_iff_eq.1
      (List.mem_rtakeWhile_imp (p := (· == '0')) hc)⟩
  rw [← hzeros]
  exact List.rdropWhile_append_rtakeWhile.symm

theorem dropTrailingZeros_digits (hn : 0 < n) :
    dropTrailingZeros (digits n) ≠ [] ∧ (∀ c ∈ dropTrailingZeros (digits n), c.isDigit = true) ∧
      (dropTrailingZeros (digits n)).head? ≠ some '0' := by
  obtain ⟨k, hk⟩ := exists_dropTrailingZeros_append (digits n)
  have hmem : ∀ c ∈ dropTrailingZeros (digits n), c ∈ digits n := by
    intro c hc
    rw [hk]
    exact List.mem_append_left _ hc
  have hhead := head?_digits_ne hn
  generalize dropTrailingZeros (digits n) = ts at hk hmem ⊢
  rw [hk] at hhead
  have hne : ts ≠ [] := by
    rintro rfl
    rw [List.nil_append] at hk hhead
    cases k with
    | zero => exact digits_ne_nil n hk
    | succ k => exact hhead rfl
  refine ⟨hne, fun c hc => isDigit_of_mem_digits (hmem c hc), ?_⟩
  rwa [List.head?_append_of_ne_nil _ hne] at hhead

end RateCurve.Decimal
