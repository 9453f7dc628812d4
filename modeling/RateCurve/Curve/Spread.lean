import RateCurve.Arithmetic

namespace RateCurve.Spread

open Arithmetic

variable {α : Type} [Arithmetic α]

/-- How many widths a hump reaches to either side: `2.7`. -/
def reach : α :=
  ofNat 27 / ofNat 10

/-- The width of a hump at a position. Its square is the age of the event, in samples, and a
floor: a hump spreads as it grows older. -/
def width (floor centre : α) : α :=
  sqrt (centre + floor)

def lower (centre width : α) : α :=
  centre - reach * width

def upper (centre width : α) : α :=
  centre + reach * width

/-- The position from which a hump begins at the last of `n` samples. With `k` the reach, its
width `s` solves `s ^ 2 - k s = floor + n - 1`. -/
def horizon (floor n : α) : α :=
  let c := floor + n - ofNat 1
  let s := (reach + sqrt (reach * reach + ofNat 4 * c)) / ofNat 2
  s * s - floor

end RateCurve.Spread
