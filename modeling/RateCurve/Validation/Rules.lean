import RateCurve.Decimal.Numeral
import RateCurve.Json
import RateCurve.Validation.Issue

namespace RateCurve.Validation

abbrev Rule (α : Type) := Json → Except Cause α

def double (n : Number) : Except Cause Float :=
  n.toDouble?.mapError fun _ => .notANumber

def number : Rule Float
  | .str s => (Decimal.double? s.toList).elim (.error .unreadableNumber) .ok
  | v => v.toNumber?.elim (.error .notANumber) double

/-- A double counts as an integer where it has no fraction and lies strictly between `-2 ^ 63`
and `2 ^ 63`. -/
def integerOfDouble (x : Float) : Except Cause Int :=
  match Double.floor x, Double.ceil x with
  | .ok n, .ok m =>
    if n ≠ m then .error .fractional
    else if -Int.pow 2 63 < n ∧ n < Int.pow 2 63 then .ok n
    else .error .oversizedInteger
  | _, _ => .error .notFinite

def integerOfText (s : List Char) : Except Cause Int :=
  (Decimal.int? s).mapError fun
    | .malformed => .unreadableInteger
    | .tooLong => .oversizedInteger

def integer : Rule Int
  | .int n => .ok n
  | .bool b => .ok (if b then 1 else 0)
  | .double x => integerOfDouble x
  | .str s => integerOfText s.toList
  | _ => .error .notAnInteger

/-- A flag is zero or one. An integer of more than 64 bits is not taken for one at all. -/
def flagOfInteger (n : Int) : Except Cause Bool :=
  if n = 0 then .ok false
  else if n = 1 then .ok true
  else if -Int.pow 2 63 ≤ n ∧ n < Int.pow 2 63 then .error .unreadableFlag
  else .error .notAFlag

def flagOfText (s : String) : Except Cause Bool :=
  let s := String.ofList (s.toList.map Char.toLower)
  if s ∈ ["1", "true", "t", "yes", "y", "on"] then .ok true
  else if s ∈ ["0", "false", "f", "no", "n", "off"] then .ok false
  else .error .unreadableFlag

def flag : Rule Bool
  | .bool b => .ok b
  | .int n => flagOfInteger n
  | .double x =>
    match integerOfDouble x with
    | .ok n => flagOfInteger n
    | .error _ => .error .notAFlag
  | .str s => flagOfText s
  | _ => .error .notAFlag

def text : Rule String
  | .str s => .ok s
  | _ => .error .notAText

/-- Lets nothing pass for nothing. -/
def optional {α : Type} (rule : Rule α) : Rule (Option α)
  | .null => .ok none
  | v => (rule v).map some

def positive (n : Int) : Except Cause { n : Nat // 0 < n } :=
  if h : 0 < n.toNat then .ok ⟨n.toNat, h⟩ else .error .notPositive

/-- A double above zero, which `NaN` is not. -/
def positiveDouble (x : Float) : Except Cause { x : Float // 0.0 < x } :=
  if h : 0.0 < x then .ok ⟨x, h⟩ else .error .notPositive

def nonNegative (x : Float) : Except Cause { x : Float // 0.0 ≤ x } :=
  if h : 0.0 ≤ x then .ok ⟨x, h⟩ else .error .negative

def located {α : Type} (path : List Step) : Except Cause α → Checked α :=
  Except.mapError fun cause => [⟨path, cause⟩]

def required {α : Type} (fields : List (String × Json)) (name : String) (rule : Rule α) :
    Checked α :=
  located [.field name] ((Json.field? fields name).elim (.error .missing) rule)

def defaulted {α : Type} (fields : List (String × Json)) (name : String) (value : α)
    (rule : Rule α) : Checked α :=
  located [.field name] ((Json.field? fields name).elim (.ok value) rule)

def sequence {α : Type} (fields : List (String × Json)) (name : String) (rule : Rule α) :
    Checked (List α) :=
  match Json.field? fields name with
  | none => located [.field name] (.error .missing)
  | some (.arr items) =>
    Checked.all (items.mapIdx fun i v => located [.field name, .index i] (rule v))
  | some _ => located [.field name] (.error .notASequence)

end RateCurve.Validation
