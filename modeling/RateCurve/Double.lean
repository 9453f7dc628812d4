namespace RateCurve

/-- Why a number cannot cross between the integers and the doubles. -/
inductive RangeError where
  | notANumber
  | infinite
  | tooLarge
deriving DecidableEq

namespace Double

/-- The double nearest to an integer, ties to even, and an infinity beyond the largest
double. -/
def ofInt (n : Int) : Float :=
  .ofModel (.ofInt n)

def ofInt? (n : Int) : Except RangeError Float :=
  if (ofInt n).isFinite then .ok (ofInt n) else .error .tooLarge

/-- The double nearest to `m · 10 ^ e`, ties to even, and infinity beyond the largest double. -/
def ofDecimal (m : Nat) (e : Int) : Float :=
  .ofModel (.ofScientific m e)

/-- The integers `m` and `e` for which a finite double is `m · 2 ^ e`. -/
def parts (x : Float) : Except RangeError (Int × Int) :=
  match x.toModel.unpack with
  | .notANumber => .error .notANumber
  | .infinity _ => .error .infinite
  | .zero _ => .ok (0, 0)
  | .finite s m e _ => .ok (s.apply m, e)

def floorScaled (m e : Int) : Int :=
  if 0 ≤ e then m * Int.pow 2 e.toNat else m / Int.pow 2 (-e).toNat

def ceilScaled (m e : Int) : Int :=
  -floorScaled (-m) e

def floor (x : Float) : Except RangeError Int :=
  (parts x).map fun (m, e) => floorScaled m e

def ceil (x : Float) : Except RangeError Int :=
  (parts x).map fun (m, e) => ceilScaled m e

/-- The integer part of a double, which rounds toward zero. -/
def truncate (x : Float) : Except RangeError Int :=
  (parts x).map fun (m, e) => if 0 ≤ m then floorScaled m e else ceilScaled m e

/-- The sign bit, which zero has as well; `NaN` has none. -/
def isNegative (x : Float) : Bool :=
  match x.toModel.unpack with
  | .notANumber => false
  | .infinity s | .zero s | .finite s _ _ _ => s matches .negative

def magnitude (m e : Int) : Nat × Nat :=
  if 0 ≤ e then (m.natAbs * Nat.pow 2 e.toNat, 1) else (m.natAbs, Nat.pow 2 (-e).toNat)

def exactly (n : Int) : Float.Model.UnpackedFloat :=
  if h : n = 0 then .zero .positive
  else .finite (if n < 0 then .negative else .positive) n.natAbs 0 (by omega)

/-- The double nearest to a quotient of integers, ties to even. -/
def ofQuotient (a b : Int) : Float :=
  .ofModel (.pack (.div .binary64 (exactly a) (exactly b)))

end Double

end RateCurve
