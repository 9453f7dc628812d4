import RateCurve.Json.Reader
import RateCurve.Proofs.Decimal.Shortest

namespace RateCurve

namespace Json
open Decimal

def IsWhole (ds : List Char) : Prop :=
  ds ≠ [] ∧ (∀ c ∈ ds, c.isDigit = true) ∧ ∀ c cs, ds ≠ '0' :: c :: cs

/-- What may follow a number without going on with it. -/
def Delimits (rest : List Char) : Prop :=
  ∀ c ∈ rest.head?, c.isDigit = false ∧ c ≠ '.' ∧ c ≠ 'e' ∧ c ≠ 'E'

section Pieces

variable {ds rest : List Char}

theorem Delimits.not_isDigit (h : Delimits rest) : ∀ c ∈ rest.head?, c.isDigit = false :=
  fun c hc => (h c hc).1

theorem isWhole_of_head (hne : ds ≠ []) (hds : ∀ c ∈ ds, c.isDigit = true)
    (h0 : ds.head? ≠ some '0') : IsWhole ds := by
  refine ⟨hne, hds, ?_⟩
  rintro c cs rfl
  exact h0 rfl

theorem isWhole_zero : IsWhole ['0'] :=
  ⟨nofun, List.forall_mem_singleton.2 rfl, nofun⟩

theorem whole?_append (h : IsWhole ds) (hrest : ∀ c ∈ rest.head?, c.isDigit = false) :
    whole? (ds ++ rest) = .ok (ds, rest) := by
  obtain ⟨hne, hds, hzero⟩ := h
  rw [whole?, spanDigits_append hds hrest]
  split
  · rename_i heq
    cases heq
    exact absurd rfl hne
  · rename_i c cs s heq
    cases heq
    exact absurd rfl (hzero c cs)
  · rename_i heq
    cases heq
    rfl

theorem fraction_append (hne : ds ≠ []) (hds : ∀ c ∈ ds, c.isDigit = true)
    (hrest : ∀ c ∈ rest.head?, c.isDigit = false) :
    fraction ('.' :: (ds ++ rest)) = (some ds, rest) := by
  simp only [fraction, spanDigits_append hds hrest, List.isEmpty_eq_false_iff.2 hne, if_false,
    Bool.false_eq_true]

theorem fraction_zero (hrest : Delimits rest) :
    fraction ('.' :: '0' :: rest) = (some ['0'], rest) :=
  fraction_append (List.cons_ne_nil '0' []) (List.forall_mem_singleton.2 rfl) hrest.not_isDigit

theorem exponent_of_head (h : ∀ c ∈ rest.head?, c ≠ 'e' ∧ c ≠ 'E') :
    exponent rest = (none, rest) := by
  cases rest with
  | nil => rfl
  | cons c rest =>
    obtain ⟨h₁, h₂⟩ := h c rfl
    have hc : (c == 'e' || c == 'E') = false := by
      rw [beq_eq_false_iff_ne.2 h₁, beq_eq_false_iff_ne.2 h₂, Bool.or_self]
    rw [exponent, hc, if_neg Bool.false_ne_true]

theorem exponent_of_delimits (hrest : Delimits rest) : exponent rest = (none, rest) :=
  exponent_of_head fun c hc => (hrest c hc).2.2

theorem exponent_append (e : ℤ) (hne : ds ≠ []) (hds : ∀ c ∈ ds, c.isDigit = true)
    (hv : value ds = e.natAbs) (hrest : ∀ c ∈ rest.head?, c.isDigit = false) :
    exponent ('e' :: (if e < 0 then '-' else '+') :: (ds ++ rest)) = (some e, rest) := by
  have hspan := spanDigits_append hds hrest
  have hempty := List.isEmpty_eq_false_iff.2 hne
  by_cases he : e < 0
  all_goals
    simp only [exponent, splitSign, he, hspan, hempty, hv, beq_self_eq_true,
    Bool.true_or, if_true,
      if_false, Bool.false_eq_true, Prod.mk.injEq, Option.some.injEq, and_true]
    omega

theorem word?_of_head {w s : List Char} (h : ∀ c ∈ s.head?, w.head? ≠ some c) (hw : w ≠ []) :
    word? w s = .error .malformed := by
  obtain ⟨d, w, rfl⟩ := List.exists_cons_of_ne_nil hw
  cases s with
  | nil => rfl
  | cons c s =>
    have hne : (d == c) = false := beq_eq_false_iff_ne.2 fun hdc => h c rfl (congrArg some hdc)
    rw [word?, List.isPrefixOf, hne, Bool.false_and, if_neg Bool.false_ne_true]

theorem word?_infinity_of_isWhole (hds : IsWhole ds) (tail : List Char) :
    word? "Infinity".toList (ds ++ tail) = .error .malformed := by
  apply word?_of_head _ (by decide)
  obtain ⟨d, ds, rfl⟩ := List.exists_cons_of_ne_nil hds.1
  rintro c ⟨⟩ hI
  obtain rfl : 'I' = d := Option.some.inj hI
  have := hds.2.1 'I' List.mem_cons_self
  revert this
  decide

theorem magnitude?_append {tail middle : List Char} {f : Option (List Char)} {e : Option ℤ}
    (bounded negative : Bool) (hds : IsWhole ds) (hlength : ds.length ≤ maxDigits)
    (htail : ∀ c ∈ tail.head?, c.isDigit = false) (hf : fraction tail = (f, middle))
    (he : exponent middle = (e, rest)) :
    magnitude? bounded negative (ds ++ tail) = .ok (ofNumeral negative ds f e, rest) := by
  have hlimit : (decide (maxDigits < ds.length) && (bounded || (f.isNone && e.isNone))) =
      false := by
    rw [decide_eq_false (not_lt.2 hlength), Bool.false_and]
  rw [magnitude?, word?_infinity_of_isWhole hds]
  simp only [whole?_append hds htail, bind, Except.bind, hf, he, hlimit, pure, Except.pure,
    Bool.false_eq_true, if_false]

theorem ofNumeral_of_isSome (negative : Bool) (whole : List Char) {f : Option (List Char)}
    {e : Option ℤ} (h : f.isSome = true ∨ e.isSome = true) :
    ofNumeral negative whole f e =
      .double
        (let x := Double.ofDecimal (value (whole ++ f.getD [])) (e.getD 0 - (f.getD []).length)
        if negative then -x else x) := by
  cases f with
  | some f => rfl
  | none =>
    cases e with
    | some e => rfl
    | none => rcases h with h | h <;> cases h

def ReadAs (r : ℝ) (x : Float) : Prop :=
  ∀ (m : ℕ) (e : ℤ), (m : ℝ) * 10 ^ e = r → Double.ofDecimal m e = x

theorem magnitude?_of_readAs {tail middle : List Char} {f : Option (List Char)} {e : Option ℤ}
    {r : ℝ} {x : Float} (hx : ReadAs r x) (bounded negative : Bool) (hds : IsWhole ds)
    (hlength : ds.length ≤ 16) (htail : ∀ c ∈ tail.head?, c.isDigit = false)
    (hf : fraction tail = (f, middle)) (he : exponent middle = (e, rest))
    (hsome : f.isSome = true ∨ e.isSome = true)
    (hr : (value (ds ++ f.getD []) : ℝ) * 10 ^ (e.getD 0 - (f.getD []).length : ℤ) = r) :
    magnitude? bounded negative (ds ++ tail) =
      .ok (.double (if negative then -x else x), rest) := by
  rw [magnitude?_append bounded negative hds (hlength.trans (by decide)) htail hf he,
    ofNumeral_of_isSome negative ds hsome, hx _ _ hr]

end Pieces

section LayOut

variable {ts rest : List Char} {point : ℤ} {x : Float} (bounded negative : Bool)

theorem isWhole_take (hne : ts ≠ []) (hds : ∀ c ∈ ts, c.isDigit = true)
    (h0 : ts.head? ≠ some '0') {k : ℕ} (hk : 0 < k) : IsWhole (ts.take k) := by
  apply isWhole_of_head
  · rw [Ne, List.take_eq_nil_iff, not_or]
    exact ⟨hk.ne', hne⟩
  · exact fun c hc => hds c (List.mem_of_mem_take hc)
  · rwa [List.head?_take, if_neg hk.ne']

theorem value_places (n : ℕ) :
    let places := if (digits n).length < 2 then '0' :: digits n else digits n
    places ≠ [] ∧ (∀ c ∈ places, c.isDigit = true) ∧ value places = n := by
  intro places
  have hdigits : ∀ c ∈ digits n, c.isDigit = true := fun c => isDigit_of_mem_digits
  by_cases h : (digits n).length < 2
  · rw [show places = '0' :: digits n from if_pos h]
    exact ⟨nofun, List.forall_mem_cons.2 ⟨rfl, hdigits⟩,
      (value_zeros_append 1 _).trans (value_digits n)⟩
  · rw [show places = digits n from if_neg h]
    exact ⟨digits_ne_nil n, hdigits, value_digits n⟩

section

variable (hne : ts ≠ []) (hds : ∀ c ∈ ts, c.isDigit = true) (h0 : ts.head? ≠ some '0')
  (hx : ReadAs (value ts * 10 ^ (point - ts.length)) x) (hrest : Delimits rest)
include hne hds h0 hx hrest

omit h0 in
theorem magnitude?_layOut_of_nonpos (hpoint : isPositional point = true) (h : point ≤ 0) :
    magnitude? bounded negative (layOut ts point ++ rest) =
      .ok (.double (if negative then -x else x), rest) := by
  have hzs : ∀ c ∈ List.replicate (-point).toNat '0' ++ ts, c.isDigit = true :=
    List.forall_mem_append.2 ⟨isDigit_of_mem_zeros _, hds⟩
  have hf := fraction_append (List.append_ne_nil_of_right_ne_nil _ hne) hzs hrest.not_isDigit
  have he := exponent_of_delimits hrest
  rw [layOut, if_pos hpoint, if_pos h]
  apply magnitude?_of_readAs hx bounded negative isWhole_zero (by decide) _ hf he (.inl rfl)
  · rw [Option.getD_some, Option.getD_none, value_append, value_zeros_append,
      List.length_append, List.length_replicate, show value ['0'] = 0 from rfl, Nat.zero_mul,
      Nat.zero_add]
    congr 2
    push_cast
    omega
  · rintro c ⟨⟩
    rfl

theorem magnitude?_layOut_of_le (hpoint : isPositional point = true) (h0' : ¬point ≤ 0)
    (h : ts.length ≤ point.toNat) :
    magnitude? bounded negative (layOut ts point ++ rest) =
      .ok (.double (if negative then -x else x), rest) := by
  have hpoint' : -4 < point ∧ point ≤ 16 := by simpa [isPositional] using hpoint
  have hwhole : IsWhole (ts ++ List.replicate (point.toNat - ts.length) '0') := by
    apply isWhole_of_head (List.append_ne_nil_of_left_ne_nil hne _)
    · exact List.forall_mem_append.2 ⟨hds, isDigit_of_mem_zeros _⟩
    · rwa [List.head?_append_of_ne_nil _ hne]
  have hf := fraction_zero hrest
  have he := exponent_of_delimits hrest
  rw [layOut, if_pos hpoint, if_neg h0', if_pos h, List.append_assoc]
  apply magnitude?_of_readAs hx bounded negative hwhole _ _ hf he (.inl rfl)
  · have hzeros : value (ts ++ List.replicate (point.toNat - ts.length) '0' ++ ['0']) =
        value ts * 10 ^ (point.toNat - ts.length + 1) := by
      rw [List.append_assoc, ← List.replicate_succ', value_append_zeros]
    rw [Option.getD_some, Option.getD_none, hzeros, Nat.cast_mul, Nat.cast_pow, Nat.cast_ofNat,
      mul_assoc, ← zpow_natCast, ← zpow_add₀ (by norm_num)]
    congr 2
    push_cast [List.length_singleton]
    omega
  · rw [List.length_append, List.length_replicate]
    omega
  · rintro c ⟨⟩
    rfl

theorem magnitude?_layOut_of_lt (hpoint : isPositional point = true) (h0' : ¬point ≤ 0)
    (h : ¬ts.length ≤ point.toNat) :
    magnitude? bounded negative (layOut ts point ++ rest) =
      .ok (.double (if negative then -x else x), rest) := by
  have hpoint' : -4 < point ∧ point ≤ 16 := by simpa [isPositional] using hpoint
  have hdrop : ts.drop point.toNat ≠ [] := by
    rw [Ne, List.drop_eq_nil_iff]
    exact h
  have hf :=
    fraction_append hdrop (fun c hc => hds c (List.mem_of_mem_drop hc)) hrest.not_isDigit
  have he := exponent_of_delimits hrest
  rw [layOut, if_pos hpoint, if_neg h0', if_neg h, List.append_assoc]
  apply magnitude?_of_readAs hx bounded negative (isWhole_take hne hds h0 (by omega)) _ _ hf he
    (.inl rfl)
  · rw [Option.getD_some, Option.getD_none, List.take_append_drop, List.length_drop]
    congr 2
    omega
  · rw [List.length_take]
    omega
  · rintro c ⟨⟩
    rfl

theorem magnitude?_layOut_of_exponent (hpoint : ¬isPositional point = true) :
    magnitude? bounded negative (layOut ts point ++ rest) =
      .ok (.double (if negative then -x else x), rest) := by
  obtain ⟨hpne, hpds, hpv⟩ := value_places (point - 1).natAbs
  have he := exponent_append (point - 1) hpne hpds hpv hrest.not_isDigit
  have hwhole := isWhole_take hne hds h0 (k := 1) one_pos
  have hlength : (ts.take 1).length ≤ 16 := by
    rw [List.length_take]
    omega
  have hpos := List.length_pos_iff.2 hne
  rw [layOut, if_neg hpoint]
  simp only [List.append_assoc, List.cons_append]
  by_cases hone : ts.length ≤ 1
  · rw [if_pos hone, List.nil_append]
    have hf (s : List Char) : fraction ('e' :: s) = (none, 'e' :: s) := rfl
    apply magnitude?_of_readAs hx bounded negative hwhole hlength _ (hf _) he (.inr rfl)
    · rw [Option.getD_some, Option.getD_none, List.append_nil, List.take_of_length_le hone]
      congr 2
      rw [List.length_nil]
      omega
    · rintro c ⟨⟩
      rfl
  · rw [if_neg hone]
    have hdrop : ts.drop 1 ≠ [] := by
      rw [Ne, List.drop_eq_nil_iff]
      exact hone
    have hf (s : List Char) :
        fraction ('.' :: (ts.drop 1 ++ 'e' :: s)) = (some (ts.drop 1), 'e' :: s) := by
      apply fraction_append hdrop fun c hc => hds c (List.mem_of_mem_drop hc)
      rintro c ⟨⟩
      rfl
    apply magnitude?_of_readAs hx bounded negative hwhole hlength _ (hf _) he (.inl rfl)
    · rw [Option.getD_some, Option.getD_some, List.take_append_drop, List.length_drop]
      congr 2
      omega
    · rintro c ⟨⟩
      rfl

/-- In whichever notation a decimal is laid out, it is read as the double that it stands for. -/
theorem magnitude?_layOut :
    magnitude? bounded negative (layOut ts point ++ rest) =
      .ok (.double (if negative then -x else x), rest) := by
  by_cases hpoint : isPositional point = true
  · by_cases hle : point ≤ 0
    · exact magnitude?_layOut_of_nonpos bounded negative hne hds hx hrest hpoint hle
    · by_cases hlength : ts.length ≤ point.toNat
      · exact magnitude?_layOut_of_le bounded negative hne hds h0 hx hrest hpoint hle hlength
      · exact magnitude?_layOut_of_lt bounded negative hne hds h0 hx hrest hpoint hle hlength
  · exact magnitude?_layOut_of_exponent bounded negative hne hds h0 hx hrest hpoint

end

end LayOut

section Text

variable {rest : List Char} {x : Float} (bounded negative : Bool)

/-- Zeros that are dropped leave a decimal what it is. -/
theorem readAs_dropTrailingZeros {d : ℕ} {k : ℤ} (h : Double.ofDecimal d k = x)
    (h0 : Double.value x ≠ 0) :
    ReadAs (value (dropTrailingZeros (digits d)) *
      10 ^ ((digits d).length + k - (dropTrailingZeros (digits d)).length)) x := by
  obtain ⟨n, hn⟩ := exists_dropTrailingZeros_append (digits d)
  have hd : d = value (dropTrailingZeros (digits d)) * 10 ^ n := by
    rw [← value_append_zeros, ← hn, value_digits]
  have hlength : (digits d).length = (dropTrailingZeros (digits d)).length + n := by
    rw [← List.length_replicate (n := n) (a := '0'), ← List.length_append, ← hn]
  intro m e hm
  apply Double.ofDecimal_congr h h0
  rw [hm, hlength]
  generalize (dropTrailingZeros (digits d)).length = l
  generalize value (dropTrailingZeros (digits d)) = v at hd
  rw [hd, Nat.cast_mul, Nat.cast_pow, Nat.cast_ofNat, mul_assoc, ← zpow_natCast,
    ← zpow_add₀ (by norm_num)]
  congr 2
  push_cast
  ring

theorem magnitude?_magnitudeText {m e : ℤ} (hx : 0.0 < x)
    (hm : |(m : ℝ) * 2 ^ e| = Double.value x) (hrest : Delimits rest) :
    magnitude? bounded negative (magnitudeText x m e ++ rest) =
      .ok (.double (if negative then -x else x), rest) := by
  have hpos := (Double.pos_iff.1 hx).2
  obtain ⟨a, b, hab⟩ : ∃ a b, Double.magnitude m e = (a, b) := ⟨_, _, rfl⟩
  obtain ⟨hb, hdiv⟩ := Double.magnitude_eq hab
  have hread := ofDecimal_shortest hx hb (hdiv.trans hm)
  obtain ⟨d, k, hdk⟩ : ∃ d k, shortest x a b = (d, k) := ⟨_, _, rfl⟩
  rw [hdk] at hread
  have hd : 0 < d := by
    by_contra h0
    obtain rfl : d = 0 := by omega
    have hzero := Double.nearestTo_ofDecimal 0 k
    rw [hread, Nat.cast_zero, zero_mul] at hzero
    rw [hzero.value_eq, Double.nearest_zero] at hpos
    exact lt_irrefl _ hpos
  have htext : magnitudeText x m e =
      layOut (dropTrailingZeros (digits d)) ((digits d).length + k) := by
    simp only [magnitudeText, hab, hdk]
  obtain ⟨hne, hds, h0⟩ := dropTrailingZeros_digits hd
  rw [htext]
  exact magnitude?_layOut bounded negative hne hds h0 (readAs_dropTrailingZeros hread hpos.ne')
    hrest

theorem magnitude?_infinity :
    magnitude? bounded negative ("Infinity".toList ++ rest) =
      .ok (.double (if negative then -(1.0 / 0.0) else 1.0 / 0.0), rest) := by
  rfl

theorem readAs_zero : ReadAs 0 0.0 := by
  intro m e h
  have hp : (10 : ℝ) ^ e ≠ 0 := by positivity
  obtain rfl : m = 0 := by exact_mod_cast (mul_eq_zero.1 h).resolve_right hp
  rfl

theorem magnitude?_zero (hrest : Delimits rest) :
    magnitude? bounded negative ("0.0".toList ++ rest) =
      .ok (.double (if negative then -0.0 else 0.0), rest) := by
  have hf := fraction_zero hrest
  have he := exponent_of_delimits hrest
  apply magnitude?_of_readAs readAs_zero bounded negative isWhole_zero (by decide) _ hf he
    (.inl rfl)
  · rw [Option.getD_some, show value (['0'] ++ ['0']) = 0 from rfl, Nat.cast_zero, zero_mul]
  · rintro c ⟨⟩
    rfl

theorem head_of_magnitude? {s : List Char} {r : Number × List Char}
    (h : magnitude? bounded negative s = .ok r) :
    ∃ c t, s = c :: t ∧ (c = 'I' ∨ c.isDigit = true) := by
  cases s with
  | nil => cases h
  | cons c t =>
    refine ⟨c, t, rfl, ?_⟩
    by_contra hc
    obtain ⟨hI, hd⟩ := not_or.1 hc
    have hword : word? "Infinity".toList (c :: t) = .error .malformed := by
      apply word?_of_head _ (by decide)
      rintro d ⟨⟩ heq
      exact hI (Option.some.inj heq).symm
    have hspan : spanDigits (c :: t) = ([], c :: t) := by
      apply @spanDigits_append [] (c :: t) nofun
      rintro d ⟨⟩
      exact Bool.of_not_eq_true hd
    have hwhole : whole? (c :: t) = .error .malformed := by
      rw [whole?, hspan]
    rw [magnitude?, hword, hwhole] at h
    cases h

theorem number?_sign {s : List Char} (h : s.head? ≠ some '-') :
    number? bounded ((if negative then ['-'] else []) ++ s) =
      magnitude? bounded negative s := by
  cases negative with
  | true => rfl
  | false =>
    rw [if_neg Bool.false_ne_true, List.nil_append]
    unfold number?
    split
    · exact absurd rfl h
    · rfl

theorem number?_of_magnitude? {s : List Char} {r : Number × List Char}
    (h : magnitude? bounded negative s = .ok r) :
    number? bounded ((if negative then ['-'] else []) ++ s) = .ok r := by
  obtain ⟨c, t, rfl, hc⟩ := head_of_magnitude? bounded negative h
  rw [number?_sign, h]
  rintro ⟨⟩
  exact absurd hc (by decide)

theorem number?_text (hx : Double.HasValue x) (hrest : Delimits rest) :
    number? bounded (text x ++ rest) = .ok (.double x, rest) := by
  suffices ∃ body, text x = (if Double.isNegative x then ['-'] else []) ++ body ∧
      magnitude? bounded (Double.isNegative x) (body ++ rest) =
        .ok (.double (if Double.isNegative x then -x.abs else x.abs), rest) by
    obtain ⟨body, htext, hbody⟩ := this
    rw [Double.eq_signed_abs] at hbody
    rw [htext, List.append_assoc]
    exact number?_of_magnitude? bounded _ hbody
  unfold text
  by_cases hf : x.isFinite = true
  · obtain ⟨m, e, hp, hv, -⟩ := Double.parts_of_isFinite hf
    rw [hp]
    by_cases hm : m = 0
    · rw [hm, Int.cast_zero, zero_mul] at hv
      rw [Double.abs_eq_zero hx hv]
      exact ⟨_, if_pos hm, magnitude?_zero bounded _ hrest⟩
    · have h0 : Double.value x ≠ 0 := by
        rw [hv]
        positivity
      have habs : |(m : ℝ) * 2 ^ e| = Double.value x.abs := by rw [Double.value_abs, hv]
      have hpos := Double.abs_pos_of_ne_zero hx h0
      exact ⟨_, if_neg hm, magnitude?_magnitudeText bounded _ hpos habs hrest⟩
  · obtain ⟨s, hs⟩ := Double.unpack_eq_infinity hx (Bool.of_not_eq_true hf)
    have hp : Double.parts x = .error .infinite := by rw [Double.parts, hs]
    rw [hp, Double.abs_of_infinity hs]
    exact ⟨_, rfl, magnitude?_infinity bounded _⟩

theorem isWhole_digits (n : ℕ) : IsWhole (digits n) := by
  rcases Nat.eq_zero_or_pos n with rfl | hn
  · exact isWhole_zero
  · exact isWhole_of_head (digits_ne_nil n) (fun _ => isDigit_of_mem_digits)
      (head?_digits_ne hn)

theorem fraction_of_delimits (hrest : Delimits rest) : fraction rest = (none, rest) := by
  unfold fraction
  split
  · exact absurd rfl (hrest _ rfl).2.1
  · rfl

theorem intText_eq (n : ℤ) :
    intText n = (if decide (n < 0) then ['-'] else []) ++ digits n.natAbs := by
  cases n with
  | ofNat n => rfl
  | negSucc n =>
    rw [decide_eq_true (Int.negSucc_lt_zero n)]
    rfl

theorem number?_intText {n : ℤ} (hlength : (digits n.natAbs).length ≤ maxDigits)
    (hrest : Delimits rest) : number? bounded (intText n ++ rest) = .ok (.int n, rest) := by
  have hmagnitude := magnitude?_append bounded (decide (n < 0))
    (isWhole_digits n.natAbs) hlength hrest.not_isDigit (fraction_of_delimits hrest)
    (exponent_of_delimits hrest)
  rw [intText_eq, List.append_assoc, number?_of_magnitude? bounded _ hmagnitude, ofNumeral,
    value_digits]
  by_cases hn : n < 0
  · rw [if_pos (decide_eq_true hn), ← Int.eq_neg_natAbs_of_nonpos hn.le]
  · rw [if_neg (by rwa [decide_eq_true_eq]), Int.natAbs_of_nonneg (not_lt.1 hn)]

theorem number?_intText_of_lt {n : ℤ} (hlength : maxDigits < (digits n.natAbs).length)
    (hrest : Delimits rest) : number? bounded (intText n ++ rest) = .error .tooManyDigits := by
  have hwhole := isWhole_digits n.natAbs
  have hhead : (digits n.natAbs ++ rest).head? ≠ some '-' := by
    intro h
    rw [List.head?_append_of_ne_nil _ hwhole.1] at h
    have := hwhole.2.1 _ (List.mem_of_mem_head? h)
    revert this
    decide
  rw [intText_eq, List.append_assoc, number?_sign bounded _ hhead, magnitude?,
    word?_infinity_of_isWhole hwhole]
  simp only [whole?_append hwhole hrest.not_isDigit, fraction_of_delimits hrest,
    exponent_of_delimits hrest, decide_eq_true hlength, bind, Except.bind, Option.isNone_none,
    Bool.and_true, Bool.or_true, if_true]
  rfl

theorem isFinite_ofInt_of_lt {n : ℤ} (hlength : maxDigits < (digits n.natAbs).length) :
    (Double.ofInt n).isFinite = false := by
  have hn : 0 < n.natAbs := by
    apply Nat.pos_of_ne_zero
    intro h0
    rw [h0] at hlength
    exact absurd hlength (by decide)
  have hpow : 10 ^ maxDigits ≤ n.natAbs :=
    (Nat.pow_le_pow_right (by decide) (Nat.le_sub_one_of_lt hlength)).trans (pow_length_le hn)
  rw [Bool.eq_false_iff, ne_eq, Double.isFinite_ofInt_iff, not_lt]
  calc
    (2 : ℤ) ^ 1024 - 2 ^ 970 ≤ 2 ^ 1024 := sub_le_self _ (by positivity)
    _ ≤ 2 ^ maxDigits := pow_le_pow_right₀ one_le_two (by decide)
    _ ≤ 10 ^ maxDigits := pow_le_pow_left₀ zero_le_two (by norm_num) _
    _ ≤ (n.natAbs : ℤ) := by exact_mod_cast hpow
    _ = |n| := Int.natCast_natAbs n

end Text

end Json

end RateCurve
