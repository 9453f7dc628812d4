import RateCurve.Clock
import RateCurve.Proofs.Double.NearestEven
import RateCurve.Proofs.Number

namespace RateCurve
open Double

namespace Number

def IsDouble : Number → Prop
  | int _ => False
  | double _ => True

/-- Beside a double a number counts as a double: an integer is rounded to one. -/
def CountsAs : Number → Float → Prop
  | int n, x => Rounds x n
  | double y, x => x = y

/-- An integer that is rounded to the limit of the doubles or beyond it counts as no double. -/
def Overflows : Number → Prop
  | int n => limit ≤ |Double.round n|
  | double _ => False

section

variable {t u : Number} {x y : Float}

theorem exists_eq_int (h : ¬t.IsDouble) : ∃ n, t = .int n := by
  cases t with
  | int n => exact ⟨n, rfl⟩
  | double x => exact absurd trivial h

theorem toDouble?_of_overflows (h : t.Overflows) : t.toDouble? = .error .tooLarge := by
  cases t with
  | double x => exact h.elim
  | int n =>
    have hf := (nearestTo_ofInt n).isFinite_iff_abs_round_lt
    exact if_neg (by rw [hf]; exact h.not_gt)

theorem exists_countsAs (h : ¬t.Overflows) : ∃ x, t.CountsAs x ∧ t.toDouble? = .ok x := by
  cases t with
  | double x => exact ⟨x, rfl, rfl⟩
  | int n =>
    have hf := (nearestTo_ofInt n).isFinite_iff_abs_round_lt.2 (not_le.1 h)
    exact ⟨ofInt n, rounds_ofInt hf, if_pos hf⟩

theorem minus_of_isDouble (h : t.IsDouble ∨ u.IsDouble) :
    t.minus u = do return (← t.toDouble?) - (← u.toDouble?) := by
  cases t with
  | double x => cases u <;> rfl
  | int n =>
    cases u with
    | double y => rfl
    | int k => exact (or_self_iff.1 h).elim

theorem exists_nearestTo (h : t.toDouble? = .ok x) (hf : x.isFinite = true) :
    t.IsFinite ∧ ∃ r : ℝ, t.toEReal = r ∧ NearestTo x r := by
  cases t with
  | int n =>
    obtain ⟨rfl, -⟩ := ofInt?_eq_ok h
    exact ⟨trivial, n, rfl, nearestTo_ofInt n⟩
  | double y =>
    obtain rfl : y = x := Except.ok.inj h
    exact ⟨hf, value y, toEReal_of_isFinite hf, hasValue_of_isFinite hf,
      ((onGrid_value y).nearest_eq (abs_value_le y)).symm⟩

/-- The doubles that numbers count as are in the order of the numbers. -/
theorem value_le_of_isBelow (ht : t.toDouble? = .ok x) (hx : x.isFinite = true)
    (hu : u.toDouble? = .ok y) (hy : y.isFinite = true) (h : t.isBelow u = true) :
    value x ≤ value y := by
  obtain ⟨htf, r, hr, hxr⟩ := exists_nearestTo ht hx
  obtain ⟨huf, s, hs, hys⟩ := exists_nearestTo hu hy
  rw [isBelow_iff htf.isNumber huf.isNumber, hr, hs, EReal.coe_lt_coe_iff] at h
  exact hxr.mono hys h.le

end

end Number

section

variable {now event : Json} {t u : Number} {x y age : Float}

theorem age?_of_toNumber?_eq_none (h : now.toNumber? = none ∨ event.toNumber? = none) :
    age? now event = none := by
  rcases h with h | h
  · rw [age?, h]
    rfl
  · rw [age?, h]
    cases now.toNumber? <;> rfl

section

variable (ht : now.toNumber? = some t) (hu : event.toNumber? = some u)
include ht hu

theorem age?_of_minus_error {e : RangeError} (h : t.minus u = .error e) :
    age? now event = none := by
  rw [age?, ht, hu]
  simp only [Option.bind_eq_bind, Option.bind_some, h]
  rfl

theorem age?_of_minus {d : Float} (h : t.minus u = .ok d) :
    age? now event = if d.isFinite = true ∧ ¬d < 0.0 then some d else none := by
  rw [age?, ht, hu]
  simp only [Option.bind_eq_bind, Option.bind_some, h, Except.toOption, Bool.and_eq_true,
    Bool.not_eq_true', decide_eq_false_iff_not]

end

theorem age?_bounds (h : age? now event = some age) : age.isFinite = true ∧ 0.0 ≤ age := by
  simp only [age?, Option.bind_eq_bind, Option.bind_eq_some_iff] at h
  obtain ⟨t, -, u, -, d, -, h⟩ := h
  split_ifs at h with hd
  cases h
  rw [Bool.and_eq_true, Bool.not_eq_true', decide_eq_false_iff_not] at hd
  exact ⟨hd.1, Double.le_of_not_lt (hasValue_of_isFinite hd.1) hasValue_zero hd.2⟩

theorem age?_of_int {a b : ℤ} (ha : now.toNumber? = some (.int a))
    (hb : event.toNumber? = some (.int b)) :
    age? now event =
      if 0 ≤ a - b ∧ a - b < 2 ^ 1024 - 2 ^ 970 then some (ofInt (a - b)) else none := by
  have hiff : (ofInt (a - b)).isFinite = true ∧ ¬ofInt (a - b) < 0.0 ↔
      0 ≤ a - b ∧ a - b < 2 ^ 1024 - 2 ^ 970 := by
    rw [isFinite_ofInt_iff, ofInt_lt_zero_iff, abs_lt]
    omega
  by_cases hf : (ofInt (a - b)).isFinite = true
  · exact (age?_of_minus ha hb (if_pos hf)).trans (if_congr hiff rfl rfl)
  · rw [age?_of_minus_error ha hb (if_neg hf), if_neg fun h => hf (hiff.2 h).1]

theorem age?_of_int_eq_none_iff {a b : ℤ} (ha : now.toNumber? = some (.int a))
    (hb : event.toNumber? = some (.int b)) :
    age? now event = none ↔ a - b < 0 ∨ 2 ^ 1024 - 2 ^ 970 ≤ a - b := by
  rw [age?_of_int ha hb]
  split_ifs with h
  · exact iff_of_false nofun (by omega)
  · exact iff_of_true rfl (by omega)

theorem rounds_of_age?_of_int {a b : ℤ} (ha : now.toNumber? = some (.int a))
    (hb : event.toNumber? = some (.int b)) (h : age? now event = some age) :
    Rounds age (a - b) := by
  have hf := (age?_bounds h).1
  rw [age?_of_int ha hb] at h
  split_ifs at h
  cases h
  exact rounds_ofInt hf

/-- Beside a double the numbers are rounded before they are subtracted. -/
theorem age?_of_isDouble (ht : now.toNumber? = some t) (hu : event.toNumber? = some u)
    (hd : t.IsDouble ∨ u.IsDouble) (hx : t.toDouble? = .ok x) (hy : u.toDouble? = .ok y) :
    age? now event = if (x - y).isFinite = true ∧ ¬x - y < 0.0 then some (x - y) else none := by
  apply age?_of_minus ht hu
  rw [Number.minus_of_isDouble hd, hx, hy]
  rfl

theorem sub_eq_of_age? {now x : Float}
    (h : age? (.double now) (Json.ofNumber (.double x)) = some age) : now - x = age := by
  rw [age?_of_isDouble (t := .double now) (u := .double x) rfl rfl (.inl trivial) rfl rfl] at h
  split_ifs at h
  exact Option.some.inj h

theorem age?_of_overflows (ht : now.toNumber? = some t) (hu : event.toNumber? = some u)
    (hd : t.IsDouble ∨ u.IsDouble) (h : t.Overflows ∨ u.Overflows) : age? now event = none := by
  have hminus : t.minus u = .error .tooLarge := by
    rw [Number.minus_of_isDouble hd]
    by_cases hto : t.Overflows
    · rw [Number.toDouble?_of_overflows hto]
      rfl
    · obtain ⟨x, -, hx⟩ := Number.exists_countsAs hto
      rw [hx, Number.toDouble?_of_overflows (h.resolve_left hto)]
      rfl
  exact age?_of_minus_error ht hu hminus

theorem age?_eq_none_iff_of_isDouble (ht : now.toNumber? = some t)
    (hu : event.toNumber? = some u) (hd : t.IsDouble ∨ u.IsDouble) (hx : t.toDouble? = .ok x)
    (hy : u.toDouble? = .ok y) :
    age? now event = none ↔ (x - y).isNaN = true ∨ (x - y).isInf = true ∨ x - y < 0.0 := by
  rw [age?_of_isDouble ht hu hd hx hy, ← or_assoc, ← isFinite_eq_false_iff]
  split_ifs with h
  · refine iff_of_false nofun ?_
    rw [h.1, not_or]
    exact ⟨Bool.false_ne_true.symm, h.2⟩
  · refine iff_of_true rfl ?_
    rwa [not_and_or, Bool.not_eq_true, not_not] at h

theorem exists_sub_of_age? (ht : now.toNumber? = some t) (hu : event.toNumber? = some u)
    (hd : t.IsDouble ∨ u.IsDouble) (h : age? now event = some age) :
    ∃ x y, t.toDouble? = .ok x ∧ u.toDouble? = .ok y ∧ x.isFinite = true ∧ y.isFinite = true ∧
      age = x - y := by
  by_cases ho : t.Overflows ∨ u.Overflows
  · rw [age?_of_overflows ht hu hd ho] at h
    cases h
  · push Not at ho
    obtain ⟨x, -, hx⟩ := Number.exists_countsAs ho.1
    obtain ⟨y, -, hy⟩ := Number.exists_countsAs ho.2
    rw [age?_of_isDouble ht hu hd hx hy] at h
    split_ifs at h with hif
    cases h
    obtain ⟨hxf, hyf⟩ := isFinite_of_sub hif.1
    exact ⟨x, y, hx, hy, hxf, hyf, rfl⟩

section

variable {later : Json} (hx : age? now event = some x) (hy : age? now later = some y)
include hx hy

theorem age?_antitone_of_int {a b c : ℤ} (ha : now.toNumber? = some (.int a))
    (hb : event.toNumber? = some (.int b)) (hc : later.toNumber? = some (.int c))
    (hbc : b < c) :
    y ≤ x := by
  rw [age?_of_int ha hb] at hx
  rw [age?_of_int ha hc] at hy
  split_ifs at hx hy
  cases hx
  cases hy
  have hle : ((a - c : ℤ) : ℝ) ≤ (a - b : ℤ) := by exact_mod_cast sub_le_sub_left hbc.le a
  have hb := nearestTo_ofInt (a - b)
  have hc := nearestTo_ofInt (a - c)
  exact le_iff.2 ⟨hc.hasValue, hb.hasValue, hc.mono hb hle⟩

variable {n : Number} (hn : now.toNumber? = some n) (ht : event.toNumber? = some t)
  (hu : later.toNumber? = some u)
include hn ht hu

theorem age?_antitone_of_isDouble (hnt : n.IsDouble ∨ t.IsDouble)
    (hnu : n.IsDouble ∨ u.IsDouble) (hlt : t.isBelow u = true) : y ≤ x := by
  obtain ⟨a, b, ha, hb, haf, hbf, rfl⟩ := exists_sub_of_age? hn ht hnt hx
  obtain ⟨a', c, ha', hc, -, hcf, rfl⟩ := exists_sub_of_age? hn hu hnu hy
  obtain rfl : a = a' := Except.ok.inj (ha.symm.trans ha')
  have hbc := Number.value_le_of_isBelow hb hbf hc hcf hlt
  have hab := nearestTo_sub haf hbf
  have hac := nearestTo_sub haf hcf
  exact le_iff.2 ⟨hac.hasValue, hab.hasValue, hac.mono hab (sub_le_sub_left hbc _)⟩

theorem age?_antitone (hkind : n.IsDouble ∨ (t.IsDouble ↔ u.IsDouble))
    (hlt : t.isBelow u = true) :
    y ≤ x := by
  by_cases hnt : n.IsDouble ∨ t.IsDouble
  · exact age?_antitone_of_isDouble hx hy hn ht hu hnt (by tauto) hlt
  · push Not at hnt
    obtain ⟨a, rfl⟩ := Number.exists_eq_int hnt.1
    obtain ⟨b, rfl⟩ := Number.exists_eq_int hnt.2
    obtain ⟨c, rfl⟩ := Number.exists_eq_int (t := u) (by tauto)
    exact age?_antitone_of_int hx hy hn ht hu (of_decide_eq_true hlt)

end

/-- An age is a finite double and not below zero, and only numbers have one. Between integers it
is the difference rounded to the nearest double, ties to even, and there is none just where the
difference is negative or is rounded to the limit. Beside a double an integer is rounded before
it is subtracted. So a shift of both integers changes nothing. Of two events the one with the
smaller time never has the smaller age, unless the moment is an integer and just one of the
times is. -/
theorem age?_correctly_rounded (now event : Json) :
    (∀ age, age? now event = some age → age.isFinite = true ∧ ¬age < 0.0) ∧
      (now.toNumber? = none ∨ event.toNumber? = none → age? now event = none) ∧
      (∀ a b : ℤ, now.toNumber? = some (.int a) → event.toNumber? = some (.int b) →
        (age? now event = none ↔ a - b < 0 ∨ limit ≤ Double.round (a - b : ℤ)) ∧
          (limit ≤ Double.round (a - b : ℤ) ↔ 2 ^ 1024 - 2 ^ 970 ≤ a - b) ∧
          (∀ age, age? now event = some age → Rounds age (a - b)) ∧
          ∀ k : ℤ, age? (.int (a + k)) (.int (b + k)) = age? now event) ∧
      (∀ t u : Number, now.toNumber? = some t → event.toNumber? = some u →
      t.IsDouble ∨ u.IsDouble →
        (t.Overflows ∨ u.Overflows → age? now event = none) ∧
          (¬(t.Overflows ∨ u.Overflows) → ∃ x y, t.CountsAs x ∧ u.CountsAs y ∧
            (age? now event = none ↔
              (x - y).isNaN = true ∨ (x - y).isInf = true ∨ x - y < 0.0) ∧
            ∀ age, age? now event = some age → age = x - y)) ∧
      ∀ (later : Json) (n t u : Number) (x y : Float), now.toNumber? = some n →
        event.toNumber? = some t → later.toNumber? = some u →
        n.IsDouble ∨ (t.IsDouble ↔ u.IsDouble) → t.isBelow u = true →
        age? now event = some x → age? now later = some y → y ≤ x := by
  refine ⟨fun age h => ?_, age?_of_toNumber?_eq_none,
    fun a b ha hb => ⟨?_, limit_le_round_iff, ?_, ?_⟩,
    fun t u ht hu hd => ⟨age?_of_overflows ht hu hd, fun ho => ?_⟩, ?_⟩
  · obtain ⟨hf, h0⟩ := age?_bounds h
    refine ⟨hf, fun hlt => ?_⟩
    exact (lt_iff.1 hlt).2.2.not_ge (le_iff.1 h0).2.2
  · rw [limit_le_round_iff]
    exact age?_of_int_eq_none_iff ha hb
  · exact fun age => rounds_of_age?_of_int ha hb
  · intro k
    rw [age?_of_int ha hb, age?_of_int rfl rfl, add_sub_add_right_eq_sub]
  · push Not at ho
    obtain ⟨x, hcx, hx⟩ := Number.exists_countsAs ho.1
    obtain ⟨y, hcy, hy⟩ := Number.exists_countsAs ho.2
    refine ⟨x, y, hcx, hcy, age?_eq_none_iff_of_isDouble ht hu hd hx hy, fun age h => ?_⟩
    rw [age?_of_isDouble ht hu hd hx hy] at h
    split_ifs at h
    exact (Option.some.inj h).symm
  · exact fun later n t u x y hn ht hu hkind hlt hx hy => age?_antitone hx hy hn ht hu hkind hlt

/-- The last difference that has a double nearest to it and the first one that has none, with a
truth value as an integer. -/
theorem age?_correctly_rounded_boundary :
    (∃ age, age? (.int (2 ^ 1024 - 2 ^ 970)) (.bool true) = some age ∧
      Rounds age (2 ^ 1024 - 2 ^ 970 - 1)) ∧
      age? (.int (2 ^ 1024 - 2 ^ 970 + 1)) (.bool true) = none := by
  obtain ⟨-, -, hlast, -⟩ :=
    age?_correctly_rounded (.int (2 ^ 1024 - 2 ^ 970)) (.bool true)
  obtain ⟨-, -, hfirst, -⟩ :=
    age?_correctly_rounded (.int (2 ^ 1024 - 2 ^ 970 + 1)) (.bool true)
  obtain ⟨hnone, hlimit, hrounds, -⟩ := hlast _ 1 rfl rfl
  obtain ⟨hnone', hlimit', -⟩ := hfirst _ 1 rfl rfl
  constructor
  · rw [hlimit] at hnone
    obtain ⟨age, h⟩ := Option.ne_none_iff_exists'.1 fun h => absurd (hnone.1 h) (by omega)
    exact ⟨age, h, hrounds age h⟩
  · rw [hlimit'] at hnone'
    exact hnone'.2 (by omega)

/-- An integer moment is rounded up for the later event only, which makes it the older one. -/
example : age? (.int (2 ^ 55 + 5)) (.int (2 ^ 55 - 1)) = some 6.0 ∧
    age? (.int (2 ^ 55 + 5)) (.double 36028797018963968.0) = some 8.0 := by
  decide +kernel

end

end RateCurve
