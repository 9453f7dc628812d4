import RateCurve.Double

namespace RateCurve

/-- Numbers with the operations that the spread of a hump is worked out with. Not every number
need have an integer below or above it. -/
class Arithmetic (α : Type) extends Add α, Sub α, Mul α, Div α where
  ofNat : Nat → α
  sqrt : α → α
  floor : α → Except RangeError Int
  ceil : α → Except RangeError Int

/-- Doubles, with each result rounded. -/
instance : Arithmetic Float where
  ofNat n := Double.ofInt n
  sqrt := Float.sqrt
  floor := Double.floor
  ceil := Double.ceil

@[simp]
theorem Arithmetic.floor_double (x : Float) : floor x = Double.floor x :=
  rfl

@[simp]
theorem Arithmetic.ceil_double (x : Float) : ceil x = Double.ceil x :=
  rfl

end RateCurve
