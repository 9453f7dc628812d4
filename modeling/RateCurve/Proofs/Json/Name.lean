import Mathlib.Data.List.Forall2
import RateCurve.Json.Reader
import RateCurve.Json.Writer

namespace RateCurve.Json

section Points

def StandsFor (u : Text.Unit16) (c : Char) : Prop :=
  ∀ us, Text.points (u :: us) = .char c :: Text.points us

theorem standsFor_char (c : Char) : StandsFor (.char c) c := by
  intro us
  rw [Text.points]

theorem standsFor_code {c : Char} (h : c.toNat < 0xd800) : StandsFor (.code c.toNat) c := by
  have hhigh : Text.isHigh c.toNat = false := by
    rw [Text.isHigh, Bool.and_eq_false_iff]
    exact .inl (decide_eq_false (by omega))
  have hlow : Text.isLow c.toNat = false := by
    rw [Text.isLow, Bool.and_eq_false_iff]
    exact .inl (decide_eq_false (by omega))
  have hcode : Text.Point.ofCode c.toNat = .char c := by
    rw [Text.Point.ofCode, hhigh, hlow, Char.ofNat_toNat]
    rfl
  intro us
  match us with
  | [] => exact congrArg (· :: []) hcode
  | .char d :: us => exact congrArg (· :: Text.points (.char d :: us)) hcode
  | .code m :: us => rw [Text.points, hhigh, Bool.false_and, if_neg (by decide), hcode]

theorem points_of_standsFor {us : List Text.Unit16} {cs : List Char}
    (h : List.Forall₂ StandsFor us cs) : Text.points us = cs.map .char := by
  induction h with
  | nil => rfl
  | @cons u c us cs hu _ ih => rw [hu us, ih, List.map_cons]

theorem chars?_map_char (cs : List Char) : Text.chars? (cs.map .char) = some cs := by
  induction cs with
  | nil => rfl
  | cons c cs ih => rw [List.map_cons, Text.chars?, ih]; rfl

end Points

section Escapes

theorem hexUnit?_of_lt_thirtyTwo : ∀ n < 0x20,
    hexUnit? '0' '0' (hexDigit (n / 16)) (hexDigit n) = some n := by
  decide

theorem units_escaped {e c : Char} (h : escape? e = some c) (he : e ≠ 'u') (s : List Char) :
    units ('\\' :: e :: s) = (units s).map fun (us, rest) => (.char c :: us, rest) := by
  rw [units, h]
  · cases units s <;> rfl
  · rintro - - - - - rfl
    exact absurd rfl he

theorem units_coded {n : ℕ} (h : n < 0x20) (s : List Char) :
    units ('\\' :: 'u' :: '0' :: '0' :: hexDigit (n / 16) :: hexDigit n :: s) =
      (units s).map fun (us, rest) => (.code n :: us, rest) := by
  rw [units, hexUnit?_of_lt_thirtyTwo n h]
  cases units s <;> rfl

theorem units_plain {c : Char} (hq : c ≠ '"') (hb : c ≠ '\\') (h : ¬ c.toNat < 0x20)
    (s : List Char) :
    units (c :: s) = (units s).map fun (us, rest) => (.char c :: us, rest) := by
  rw [units, if_neg h]
  all_goals simp_all

/-- An escaped character is taken as one unit, which stands for the character. -/
theorem units_escapeChar (c : Char) : ∃ u, StandsFor u c ∧ ∀ s,
    units (escapeChar c ++ s) = (units s).map fun (us, rest) => (u :: us, rest) := by
  unfold escapeChar
  split
  case h_8 hq hb _ _ _ _ _ =>
    split
    case isTrue h =>
      exact ⟨.code c.toNat, standsFor_code (by omega), units_coded h⟩
    case isFalse h => exact ⟨.char c, standsFor_char c, units_plain hq hb h⟩
  all_goals exact ⟨_, standsFor_char _, units_escaped rfl (by decide)⟩

theorem units_flatMap_escapeChar (cs : List Char) (rest : List Char) :
    ∃ us, List.Forall₂ StandsFor us cs ∧
      units (cs.flatMap escapeChar ++ '"' :: rest) = some (us, rest) := by
  induction cs with
  | nil => exact ⟨[], .nil, by rw [List.flatMap_nil, List.nil_append, units]⟩
  | cons c cs ih =>
    obtain ⟨us, hus, heq⟩ := ih
    obtain ⟨u, hu, hunits⟩ := units_escapeChar c
    refine ⟨u :: us, .cons hu hus, ?_⟩
    rw [List.flatMap_cons, List.append_assoc, hunits, heq]
    rfl

end Escapes

/-- A kind of texts that has the texts of characters among them, and tells them apart. -/
class LawfulTextType (τ : Type) [TextType τ] : Prop where
  ofUnits_eq : ∀ us (s : String), Text.points us = s.toList.map .char →
    TextType.ofUnits us = some (TextType.ofString s : τ)
  beq_ofString : ∀ s s' : String,
    ((TextType.ofString s : τ) == TextType.ofString s') = (s == s')

instance : LawfulTextType String where
  ofUnits_eq us s h := by
    change (Text.chars? (Text.points us)).map String.ofList = some s
    rw [h, chars?_map_char, Option.map_some, String.ofList_toList]
  beq_ofString _ _ := rfl

instance : LawfulTextType (List Text.Point) where
  ofUnits_eq _ _ h := congrArg some h
  beq_ofString s s' := by
    have hinj : Function.Injective Text.Point.char := fun _ _ h => Text.Point.char.inj h
    change (s.toList.map Text.Point.char == s'.toList.map .char) = (s == s')
    rw [Bool.eq_iff_iff, beq_iff_eq, beq_iff_eq, (List.map_injective_iff.2 hinj).eq_iff,
      String.toList_inj]

section Names

variable {τ : Type} [TextType τ] [LawfulTextType τ]

theorem quote_append (name : String) (rest : List Char) :
    quote name ++ rest = '"' :: (name.toList.flatMap escapeChar ++ '"' :: rest) := by
  change '"' :: ((name.toList.map Text.Point.char).flatMap escapePoint ++ ['"'] ++ rest) = _
  rw [List.flatMap_map, List.append_assoc]
  rfl

theorem string?_escaped (name : String) (rest : List Char) :
    string? (name.toList.flatMap escapeChar ++ '"' :: rest) =
      .ok ((TextType.ofString name : τ), rest) := by
  obtain ⟨us, hus, heq⟩ := units_flatMap_escapeChar name.toList rest
  rw [string?, heq]
  dsimp only
  rw [LawfulTextType.ofUnits_eq us name (points_of_standsFor hus)]

end Names

end RateCurve.Json
