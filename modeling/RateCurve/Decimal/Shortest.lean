import RateCurve.Double
import RateCurve.Decimal.Digits

namespace RateCurve.Decimal

/-- The exponent `p` with `10 ^ p ≤ a / b < 10 ^ (p + 1)`, for positive `a` and `b`. -/
def magnitude (a b : Nat) : Int :=
  let p : Int := (digits a).length - (digits b).length
  if b * Nat.pow 10 p.toNat ≤ a * Nat.pow 10 (-p).toNat then p else p - 1

/-- The coefficient of `10 ^ e` in `a / b`, rounded down, and whether the next one is nearer:
less, equal or greater as `a / b` lies below, on or above the midpoint. -/
def gridPoint (a b : Nat) (e : Int) : Nat × Ordering :=
  let a := a * Nat.pow 10 (-e).toNat
  let b := b * Nat.pow 10 e.toNat
  (a / b, compare (2 * (a % b)) b)

/-- Of the two coefficients of `10 ^ e` around `a / b`, the one that reads back as `x`. Where
both do it is the nearer, and the even one in the middle. -/
def readsBack? (x : Float) (a b : Nat) (e : Int) : Option Nat :=
  let (d, side) := gridPoint a b e
  let below := decide (Double.ofDecimal d e = x)
  let above := decide (Double.ofDecimal (d + 1) e = x)
  match below, above with
  | true, true =>
    match side with
    | .lt => some d
    | .eq => some (d + d % 2)
    | .gt => some (d + 1)
  | true, false => some d
  | false, true => some (d + 1)
  | false, false => none

/-- The decimal `d · 10 ^ e` with the fewest digits that reads back as the positive double `x`,
which is the quotient of `a` and `b`. Seventeen digits are enough for every double. -/
def shortest (x : Float) (a b : Nat) : Nat × Int :=
  let p := magnitude a b
  let found := (List.range 17).findSome? fun n : Nat =>
    (readsBack? x a b (p - n)).map (·, p - n)
  found.getD (a * Nat.pow 10 1074 / b, -1074)

/-- Where the positional notation of a double ends and the exponent notation begins: the
position of the point, counted from the first digit, is above `-4` and at most `16` in
positional notation. -/
def isPositional (point : Int) : Bool :=
  -4 < point && point ≤ 16

/-- The digits of a decimal with its point `point` places after the first digit. There is always
a digit on both sides of the point. An exponent has a sign and at least two digits. -/
def layOut (ds : List Char) (point : Int) : List Char :=
  if isPositional point then
    if point ≤ 0 then
      '0' :: '.' :: (List.replicate (-point).toNat '0' ++ ds)
    else if ds.length ≤ point.toNat then
      ds ++ List.replicate (point.toNat - ds.length) '0' ++ ['.', '0']
    else
      ds.take point.toNat ++ '.' :: ds.drop point.toNat
  else
    let e := point - 1
    let places := digits e.natAbs
    let places := if places.length < 2 then '0' :: places else places
    let fraction := if ds.length ≤ 1 then [] else '.' :: ds.drop 1
    ds.take 1 ++ fraction ++ 'e' :: (if e < 0 then '-' else '+') :: places

def dropTrailingZeros (ds : List Char) : List Char :=
  (ds.reverse.dropWhile (· == '0')).reverse

def magnitudeText (x : Float) (m e : Int) : List Char :=
  let (a, b) := Double.magnitude m e
  let (d, k) := shortest x a b
  let ds := digits d
  layOut (dropTrailingZeros ds) (ds.length + k)

/-- The shortest text that reads back as the same double. -/
def text (x : Float) : List Char :=
  let sign := if Double.isNegative x then ['-'] else []
  match Double.parts x with
  | .error .notANumber => "NaN".toList
  | .error _ => sign ++ "Infinity".toList
  | .ok (m, e) =>
    if m = 0 then sign ++ "0.0".toList
    else sign ++ magnitudeText x.abs m e

end RateCurve.Decimal
