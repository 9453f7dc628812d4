import RateCurve.Double

namespace RateCurve

/-- A number as it is written: an integer of any size or a double. -/
inductive Number where
  | int (n : Int)
  | double (x : Float)

namespace Number

def toDouble? : Number → Except RangeError Float
  | int n => Double.ofInt? n
  | double x => .ok x

/-- The difference as a double. Integers are subtracted exactly and the result is rounded; an
integer beside a double is rounded first. -/
def minus : Number → Number → Except RangeError Float
  | int a, int b => Double.ofInt? (a - b)
  | a, b => do
    let x ← a.toDouble?
    let y ← b.toDouble?
    return x - y

/-- The quotient as a double. A quotient of integers is rounded once. -/
def dividedBy : Number → Number → Except RangeError Float
  | int a, int b =>
    let x := Double.ofQuotient a b
    if x.isFinite then .ok x else .error .tooLarge
  | a, b => do
    let x ← a.toDouble?
    let y ← b.toDouble?
    return x / y

/-- Whether a number is below another one. Nothing is rounded, and `NaN` is below nothing. -/
def isBelow : Number → Number → Bool
  | int a, int b => a < b
  | double x, double y => x < y
  | int a, double y =>
    match Double.parts y with
    | .ok (m, e) => a < Double.ceilScaled m e
    | .error _ => 0.0 < y
  | double x, int b =>
    match Double.parts x with
    | .ok (m, e) => Double.floorScaled m e < b
    | .error _ => x < 0.0

def isAtMost : Number → Number → Bool
  | int a, int b => a ≤ b
  | double x, double y => x ≤ y
  | int a, double y =>
    match Double.parts y with
    | .ok (m, e) => a ≤ Double.floorScaled m e
    | .error _ => 0.0 < y
  | double x, int b =>
    match Double.parts x with
    | .ok (m, e) => Double.ceilScaled m e ≤ b
    | .error _ => x < 0.0

end Number

end RateCurve
