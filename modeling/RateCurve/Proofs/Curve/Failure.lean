import RateCurve.Proofs.Curve.Samples

namespace RateCurve
open Double

namespace Json

/-- Whether a value can be walked through even if it is not empty. -/
def isCollection : Json → Bool
  | arr _ | obj _ | str _ => true
  | _ => false

theorem elements?_eq_none_iff {v : Json} :
    v.elements? = none ↔ v.isTrue = true ∧ v.isCollection = false := by
  cases v with
  | arr items | obj fields | str s =>
    constructor
    · intro h
      cases h
    · rintro ⟨-, hc⟩
      cases hc
  | null =>
    constructor
    · intro h
      cases h
    · rintro ⟨ht, -⟩
      cases ht
  | bool b | int n | double x =>
    simp only [elements?, isCollection, and_true]
    split_ifs with h
    · exact ⟨fun _ => h, fun _ => rfl⟩
    · exact ⟨False.elim, fun ht => absurd ht h⟩

end Json

section

open Float.Model Float.Model.UnpackedFloat

theorem Double.isInf_of_not_isFinite {x : Float} (h : 0.0 ≤ x) (hf : x.isFinite = false) :
    x.isInf = true := by
  refine (isFinite_eq_false_iff.1 hf).resolve_left fun hn => ?_
  exact isNaN_iff.1 hn (hasValue_of_nonneg h)

theorem Double.not_isFinite_of_isInf {x : Float} (h : x.isInf = true) : x.isFinite = false :=
  isFinite_eq_false_iff.2 (.inr h)

theorem Double.ceil_of_infinity {x : Float} {s : Sign} (h : x.toModel.unpack = .infinity s) :
    Double.ceil x = .error .infinite := by
  rw [Double.ceil, Double.parts, h]
  rfl

end

namespace Span

theorem lt_of_mem_around {centre width : Float} {count : Int} {s : Span}
    (h : around centre width count = .ok (some s)) : ∀ i ∈ s.toList, (i : Int) < count := by
  intro i hi
  simp only [around, bind_eq_ok] at h
  obtain ⟨first, -, h⟩ := h
  split_ifs at h with hfirst
  · cases h
  · simp only [bind_eq_ok, pure_eq_ok, Option.some.injEq] at h
    obtain ⟨last, -, rfl⟩ := h
    have hlast := (mem_toList.1 hi).2
    simp only at hlast
    omega

end Span

namespace Hump

variable {g : Geometry} {centre : Float}

/-- At a position where the square of the width is infinite there is no first sample. -/
theorem at?_of_isInf (hf : centre.isFinite = true) (h0 : 0.0 ≤ centre)
    (hs : (centre + g.floor).isInf = true) : at? g centre = .error .infinite := by
  have hl := unpack_lower g.floor_pos h0 hf (not_isFinite_of_isInf hs)
  rw [Curve.at?_eq, Span.around, Arithmetic.ceil_double, ceil_of_infinity hl]
  rfl

theorem at?_eq_ok_of_not_isInf (hf : centre.isFinite = true) (h0 : 0.0 ≤ centre)
    (hs : (centre + g.floor).isInf = false) : ∃ h, at? g centre = .ok h := by
  apply (at?_isOk_iff hf h0).2
  by_contra hn
  rw [isInf_of_not_isFinite (nonneg_of_pos (sum_pos g.floor_pos h0)) (Bool.of_not_eq_true hn)]
    at hs
  cases hs

/-- The steps for a position that are not defined everywhere: a root, a division and the choice
of samples. -/
structure Safe (g : Geometry) (centre : Float) : Prop where
  sum_pos : 0.0 < centre + g.floor
  width_pos : 0.0 < Spread.width g.floor centre
  lt_count : ∀ h, at? g centre = .ok (some h) → ∀ i ∈ h.span.toList, i < g.count

theorem width_pos (h0 : 0.0 ≤ centre) : 0.0 < Spread.width g.floor centre := by
  have hpos := RateCurve.sum_pos g.floor_pos h0
  by_cases hs : (centre + g.floor).isFinite = true
  · have hwf := (width_bounds g.floor_pos h0 hs).1
    exact pos_iff.2 ⟨hasValue_of_isFinite hwf, value_width_pos g.floor_pos h0 hs⟩
  · have hsum := unpack_eq_infinity_of_nonneg (pos_iff.1 hpos).1 (Bool.of_not_eq_true hs)
      (pos_iff.1 hpos).2.le
    have hw : (Spread.width g.floor centre).toModel.unpack = .infinity .positive :=
      unpack_sqrt_of_infinity hsum
    apply pos_iff.2
    rw [value_of_infinity hw, factor, one_mul]
    exact ⟨hasValue_of_infinity hw, limit_pos⟩

theorem safe (h0 : 0.0 ≤ centre) : Safe g centre := by
  refine ⟨RateCurve.sum_pos g.floor_pos h0, width_pos h0, fun h hat i hi => ?_⟩
  exact_mod_cast Span.lt_of_mem_around (Curve.eq_of_at? hat).1 i hi

end Hump

namespace Curve

variable {g : Geometry} {now activity : Json} {resolution : Float} {events : List Json}

/-- An event is too far away when the sum of its position and the floor is infinite. -/
def TooFar (g : Geometry) (scale : Float) (now event : Json) : Prop :=
  ∃ age, age? now event = some age ∧ (age * scale + g.floor).isInf = true

theorem humps_of_tooFar [Machine] (hr : g.resolution? = .ok resolution)
    (hroom : g.makeRoom = .ok ())
    (h : ∃ event ∈ events, TooFar g (1.0 / resolution) now event) :
    humps g (1.0 / resolution) now events = .error (.range .infinite) := by
  induction events with
  | nil =>
    obtain ⟨event, hmem, -⟩ := h
    cases hmem
  | cons event events ih =>
    by_cases hfar : TooFar g (1.0 / resolution) now event
    · obtain ⟨age, ha, hinf⟩ := hfar
      obtain ⟨hf, h0⟩ := age?_bounds ha
      obtain ⟨hcf, hc0⟩ := centre_bounds hr hf h0
      exact humps_cons_of_at?_error ha (Hump.at?_of_isInf hcf hc0 hinf) events
    · have htail := ih (((List.exists_mem_cons_iff _ _ _).1 h).resolve_left hfar)
      cases hseen : isSeen g (1.0 / resolution) now event with
      | false => rw [humps_cons_of_not_isSeen hseen, htail]
      | true =>
        obtain ⟨age, ha, ⟨e, he⟩ | ⟨hump, hh⟩⟩ := at?_of_isSeen hseen
        · obtain ⟨hf, h0⟩ := age?_bounds ha
          obtain ⟨hcf, hc0⟩ := centre_bounds hr hf h0
          obtain ⟨hump, hok⟩ := Hump.at?_eq_ok_of_not_isInf hcf hc0
            (Bool.of_not_eq_true fun hinf => hfar ⟨age, ha, hinf⟩)
          cases hok.symm.trans he
        · rw [humps_cons_of_at? ha hh, hroom, htail]
          rfl

theorem humps_of_not_tooFar [Machine] (hr : g.resolution? = .ok resolution)
    (hroom : g.makeRoom = .ok ())
    (h : ∀ event ∈ events, ¬TooFar g (1.0 / resolution) now event) :
    ∃ hs, humps g (1.0 / resolution) now events = .ok hs := by
  apply (humps_isOk_iff hroom).2
  intro event hmem age ha
  obtain ⟨hf, h0⟩ := age?_bounds ha
  obtain ⟨hcf, hc0⟩ := centre_bounds hr hf h0
  exact Hump.at?_eq_ok_of_not_isInf hcf hc0
    (Bool.of_not_eq_true fun hinf => h event hmem ⟨age, ha, hinf⟩)

section

variable (g now activity)

theorem build_of_resolution?_error [Machine] {e : RangeError} (hr : g.resolution? = .error e) :
    build g now activity = .error (.range e) := by
  rw [build, hr]
  rfl

end

section

variable [Machine]

theorem build_of_elements?_none (hr : g.resolution? = .ok resolution)
    (h : activity.elements? = none) : build g now activity = .error .notIterable := by
  rw [build, hr, h]
  rfl

theorem build_of_humps_error (hr : g.resolution? = .ok resolution)
    (he : activity.elements? = some events) {fault : Fault}
    (h : humps g (1.0 / resolution) now events = .error fault) :
    build g now activity = .error fault := by
  rw [build, hr, he]
  change (humps g (1.0 / resolution) now events >>= _) = _
  rw [h]
  rfl

/-- The steps in the order in which they can fail. -/
theorem build_cases (hroom : g.makeRoom = .ok ()) (now activity : Json) :
    ((ofInt g.resolution).isFinite = false ∧ build g now activity = .error (.range .tooLarge)) ∨
      (ofInt g.resolution).isFinite = true ∧
        ((activity.elements? = none ∧ build g now activity = .error .notIterable) ∨
          ∃ events, activity.elements? = some events ∧
            (((∃ event ∈ events, TooFar g (1.0 / ofInt g.resolution) now event) ∧
                build g now activity = .error (.range .infinite)) ∨
              (∀ event ∈ events, ¬TooFar g (1.0 / ofInt g.resolution) now event) ∧
                ∃ c, build g now activity = .ok c)) := by
  cases hf : (ofInt g.resolution).isFinite with
  | false =>
    have hr : g.resolution? = .error .tooLarge := by
      rw [Geometry.resolution?, ofInt?, hf]
      rfl
    exact .inl ⟨rfl, build_of_resolution?_error g now activity hr⟩
  | true =>
    have hr : g.resolution? = .ok (ofInt g.resolution) := if_pos hf
    refine .inr ⟨rfl, ?_⟩
    cases he : activity.elements? with
    | none => exact .inl ⟨rfl, build_of_elements?_none hr he⟩
    | some events =>
      refine .inr ⟨events, rfl, ?_⟩
      by_cases hfar : ∃ event ∈ events, TooFar g (1.0 / ofInt g.resolution) now event
      · exact .inl ⟨hfar, build_of_humps_error hr he (humps_of_tooFar hr hroom hfar)⟩
      · push Not at hfar
        obtain ⟨hs, hhs⟩ := humps_of_not_tooFar hr hroom hfar
        exact .inr ⟨hfar, _, build_eq_ok_iff.2 ⟨_, events, hs, hr, he, hhs, hroom, rfl⟩⟩

end

theorem safe_of_age? (hf : (ofInt g.resolution).isFinite = true) :
    0.0 < ofInt g.resolution ∧
      ∀ event age, age? now event = some age →
      Hump.Safe g (age * (1.0 / ofInt g.resolution)) := by
  have hr : g.resolution? = .ok (ofInt g.resolution) := if_pos hf
  refine ⟨pos_iff.2 ⟨hasValue_of_isFinite hf, one_pos.trans_le (one_le_resolution hr).2⟩, ?_⟩
  intro event age ha
  obtain ⟨haf, ha0⟩ := age?_bounds ha
  exact Hump.safe (centre_bounds hr haf ha0).2

/-- Where there is room for the samples, a curve fails to be drawn in three ways only, in this
order: the resolution is too large for a double, the activity cannot be walked through, and an
event is so far away that its position and the floor add up to an infinity. The divisors, the
radicands and the indices are what they have to be, whatever the activity is. -/
theorem build_fails_iff [Machine] (hroom : g.makeRoom = .ok ()) (now activity : Json) :
    ((ofInt g.resolution).isFinite = true →
        0.0 < ofInt g.resolution ∧
          ∀ event age, age? now event = some age →
            Hump.Safe g (age * (1.0 / ofInt g.resolution))) ∧
      (build g now activity = .error (.range .tooLarge) ↔
        (ofInt g.resolution).isFinite = false) ∧
      (build g now activity = .error .notIterable ↔
        (ofInt g.resolution).isFinite = true ∧ activity.isTrue = true ∧
          activity.isCollection = false) ∧
      (build g now activity = .error (.range .infinite) ↔
        (ofInt g.resolution).isFinite = true ∧ ∃ events, activity.elements? = some events ∧
          ∃ event ∈ events, TooFar g (1.0 / ofInt g.resolution) now event) ∧
      ((∃ c, build g now activity = .ok c) ↔
        (ofInt g.resolution).isFinite = true ∧ ∃ events, activity.elements? = some events ∧
          ∀ event ∈ events, ¬TooFar g (1.0 / ofInt g.resolution) now event) ∧
      ∀ fault, build g now activity = .error fault →
        fault = .notIterable ∨
          fault = .range .tooLarge ∧
            fault.message? = some "int too large to convert to float" ∨
          fault = .range .infinite ∧
            fault.message? = some "cannot convert float infinity to integer" := by
  refine ⟨safe_of_age?, ?_⟩
  rw [← Json.elements?_eq_none_iff]
  rcases build_cases hroom now activity with
    ⟨hf, h⟩ | ⟨hf, ⟨he, h⟩ | ⟨events, he, ⟨hfar, h⟩ | ⟨hfar, c, h⟩⟩⟩
  · simp [h, hf, Fault.message?]
  · simp [h, hf, he]
  · simp [h, hf, he, hfar, Fault.message?]
  · simpa [h, hf, he] using hfar

/-- With a large floor an event of the same age is too far away and a recent one is not. -/
theorem build_fails_iff_large_floor :
    ∃ g : Geometry, g.makeRoom = .ok () ∧
      build g (.double 1e308) (.arr [.double 0.0]) = .error (.range .infinite) ∧
      build g (.double 1e308) (.int 1) = .error .notIterable ∧
      ∃ c, build g (.double 1.0) (.arr [.double 0.0]) = .ok c := by
  let g : Geometry := ⟨1, 1, 1e308, by decide, by decide, by decide +kernel⟩
  have hroom : g.makeRoom = .ok () := by
    rw [Geometry.makeRoom, Capacity.makeRoom, if_neg (by decide +kernel),
      if_neg (by decide +kernel)]
    rfl
  have hf : (ofInt g.resolution).isFinite = true := by decide +kernel
  obtain ⟨-, -, -, hfar, -⟩ := build_fails_iff hroom (.double 1e308) (.arr [.double 0.0])
  obtain ⟨-, -, hiterable, -⟩ := build_fails_iff hroom (.double 1e308) (.int 1)
  obtain ⟨-, -, -, -, hdrawn, -⟩ := build_fails_iff hroom (.double 1.0) (.arr [.double 0.0])
  refine ⟨g, hroom, hfar.2 ⟨hf, _, rfl, .double 0.0, List.mem_cons_self, ?_⟩,
    hiterable.2 ⟨hf, rfl, rfl⟩, hdrawn.2 ⟨hf, _, rfl, ?_⟩⟩
  · exact ⟨1e308, by decide +kernel, by decide +kernel⟩
  · intro event hmem ⟨age, ha, hinf⟩
    rw [List.mem_singleton.1 hmem,
      show age? (.double 1.0) (.double 0.0) = some 1.0 by decide +kernel, Option.some_inj] at ha
    rw [← ha] at hinf
    revert hinf
    decide +kernel

end Curve

end RateCurve
