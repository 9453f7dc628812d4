import RateCurve.Exponential.Table

namespace RateCurve.Exponential

/-- `128 / log 2` -/
def stepsPerUnit : Float := .ofBits 0x40671547652b82fe

/-- The leading bits of `-log 2 / 128`; a product with a step number has no rounding error. -/
def stepHigh : Float := .ofBits 0xbf762e42fefa0000

/-- `-log 2 / 128 - stepHigh` -/
def stepLow : Float := .ofBits 0xbd0cf79abc9e3b39

/-- `3 · 2 ^ 51`: added to a small number it leaves the nearest integer in the low bits. -/
def shift : Float := .ofBits 0x4338000000000000

/-- The coefficient of `r ^ 2` in a polynomial close to `exp r` for `|r| ≤ log 2 / 256`. -/
def quadratic : Float := .ofBits 0x3fdffffffffffdbd

def cubic : Float := .ofBits 0x3fc555555555543c

def quartic : Float := .ofBits 0x3fa55555cf172b91

def quintic : Float := .ofBits 0x3f81111167a4d017

/-- An exponential in pieces: the bits of a scale `2 ^ (k / 128)` and the factor less one. -/
structure Pieces where
  scale : UInt64
  excess : Float

/-- Splits `x` into `k · log 2 / 128 + r` with `k` the nearest integer, and takes
`exp r - 1`. -/
def pieces (x : Float) : Pieces :=
  let shifted := stepsPerUnit * x + shift
  let k := shifted.toBits
  let kd := shifted - shift
  let r := x + kd * stepHigh + kd * stepLow
  let (tail, head) := table.getD (k % 128).toNat (0, 0)
  let r₂ := r * r
  { scale := head + (k <<< 45)
    excess :=
      .ofBits tail + r + r₂ * (quadratic + r * cubic) + r₂ * r₂ * (quartic + r * quintic) }

def Pieces.join (p : Pieces) : Float :=
  let scale : Float := .ofBits p.scale
  scale + scale * p.excess

/-- The product where it may be subnormal: it is taken `2 ^ 1022` times too large and brought to
the precision of a subnormal number before it is scaled down. -/
def Pieces.joinSmall (p : Pieces) : Float :=
  let scale : Float := .ofBits (p.scale + 0x3fe0000000000000)
  let y := scale + scale * p.excess
  let tiny : Float := .ofBits 0x0010000000000000
  if y < 1.0 then
    let lo := scale - y + scale * p.excess
    let hi := 1.0 + y
    let lo := 1.0 - hi + y + lo
    tiny * ((hi + lo) - 1.0)
  else
    tiny * y

/-- Confines a value for `exp x` to what the exponential keeps to for `x ≤ 0`: it is at most
one, at least zero, and at least `2 ^ -12` where `x` is at least `-8`. -/
def confine (x y : Float) : Float :=
  let least : Float := if -8.0 ≤ x then 0.000244140625 else 0.0
  if y < 1.0 then (if least < y then y else least) else 1.0

/-- `exp x` for `x ≤ 0`, within about half a unit in the last place. -/
def exp (x : Float) : Float :=
  if x.isNaN then x
  else if x ≤ -1024.0 then 0.0
  else if x ≤ -512.0 then confine x (pieces x).joinSmall
  else confine x (pieces x).join

end RateCurve.Exponential
