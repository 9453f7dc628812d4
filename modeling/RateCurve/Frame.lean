import RateCurve.Curve
import RateCurve.Json.Writer

namespace RateCurve

/-- What a viewer is shown: the curve at a moment and the scale to draw it at. -/
structure Frame where
  now : Float
  samples : Array Float
  empty : Bool
  peak : Float
  peak_nonneg : 0.0 ≤ peak

namespace Frame

open Validation

/-- Puts a frame together. Whatever is wrong with its parts is reported in this order. -/
def ofParts (now : Checked Float) (samples : Checked (Array Float)) (empty : Checked Bool)
    (peak : Checked { x : Float // 0.0 ≤ x }) : Checked Frame :=
  (now.both (samples.both (empty.both peak))).map fun (now, samples, empty, peak) =>
    ⟨now, samples, empty, peak, peak.2⟩

def checkNow (now : Json) : Checked Float :=
  located [.field "now"] (number now)

def checkPeak (peak : Number) : Checked { x : Float // 0.0 ≤ x } :=
  located [.field "peak"] (double peak >>= nonNegative)

def ofFields (fields : List (String × Json)) : Checked Frame :=
  ofParts
    (required fields "now" number)
    ((sequence fields "samples" number).map List.toArray)
    (required fields "empty" flag)
    (required fields "peak" fun v => number v >>= nonNegative)

/-- The frame of an activity at a moment, after a frame with the given peak. Since there is
always a sample to compare it with, the peak has to be a number. -/
def next [Machine] (g : Geometry) (now activity prior : Json) : Except Fault Frame := do
  let curve ← Curve.build g now activity
  let prior ← prior.toNumber?.elim (.error .notComparable) .ok
  (ofParts (checkNow now) (.ok curve.samples) (.ok curve.empty)
    (checkPeak (Curve.peak curve.samples prior))).mapError .invalid

/-- The moment of a frame in the answer to a request for it, which has no way to write what is
not finite. -/
def now? (f : Frame) : Option Float :=
  if f.now.isFinite then some f.now else none

def toJson (f : Frame) : Json :=
  .obj [
    ("now", .double f.now),
    ("samples", .arr (f.samples.toList.map .double)),
    ("empty", .bool f.empty),
    ("peak", .double f.peak)]

def text (f : Frame) : String :=
  String.ofList (f.toJson.write .spaced)

end Frame

end RateCurve
