import RateCurve.Double
import RateCurve.Decimal.Digits

namespace RateCurve.Decimal

def roundHalfEven (a b : Nat) : Nat :=
  match compare (2 * (a % b)) b with
  | .lt => a / b
  | .eq => a / b + a / b % 2
  | .gt => a / b + 1

def padLeft (width : Nat) (c : Char) (s : List Char) : List Char :=
  List.replicate (width - s.length) c ++ s

def padRight (width : Nat) (c : Char) (s : List Char) : List Char :=
  s ++ List.replicate (width - s.length) c

def fixedQuotient (places a b : Nat) : List Char :=
  let ds := padLeft (places + 1) '0' (digits (roundHalfEven (a * Nat.pow 10 places) b))
  ds.take (ds.length - places) ++ '.' :: ds.drop (ds.length - places)

/-- A double with a fixed number of places after the point, rounded from its exact value. -/
def fixed (places : Nat) (x : Float) : List Char :=
  let sign := if Double.isNegative x then ['-'] else []
  match Double.parts x with
  | .error .notANumber => "nan".toList
  | .error _ => sign ++ "inf".toList
  | .ok (m, e) =>
    let (a, b) := Double.magnitude m e
    sign ++ fixedQuotient places a b

end RateCurve.Decimal
