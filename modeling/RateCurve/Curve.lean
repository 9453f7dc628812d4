import RateCurve.Clock
import RateCurve.Curve.Hump

namespace RateCurve

/-- The samples of a curve, the newest first, and whether all of them are zero. -/
structure Curve where
  samples : Array Float
  empty : Bool

namespace Curve

/-- The samples that a list of humps adds up to. -/
def draw (count : Nat) (humps : List Hump) : Array Float :=
  humps.foldl (fun samples h => h.addTo samples) (Array.replicate count 0.0)

@[simp]
theorem size_draw (count : Nat) (humps : List Hump) : (draw count humps).size = count := by
  suffices ∀ samples : Array Float,
      (humps.foldl (fun samples h => h.addTo samples) samples).size = samples.size by
    simpa only [draw, Array.size_replicate] using this (Array.replicate count 0.0)
  induction humps with
  | nil => exact fun _ => rfl
  | cons h humps ih => exact fun samples => (ih (h.addTo samples)).trans (h.size_addTo samples)

def ofSamples (samples : Array Float) : Curve :=
  { samples, empty := samples.all (· == 0.0) }

/-- The humps of the events that can be seen, in the order of the events. Events that have no
age and events whose hump has left the curve are passed over. There has to be room for the
samples as soon as there is a hump. -/
def humps [Machine] (g : Geometry) (scale : Float) (now : Json) :
    List Json → Except Fault (List Hump)
  | [] => .ok []
  | event :: events =>
    match age? now event with
    | none => humps g scale now events
    | some age => do
      let h ← (Hump.at? g (age * scale)).mapError .range
      if h.isSome then g.makeRoom
      let hs ← humps g scale now events
      return h.toList ++ hs

/-- The curve of an activity at a moment. -/
def build [Machine] (g : Geometry) (now activity : Json) : Except Fault Curve := do
  let resolution ← g.resolution?.mapError .range
  let events ← activity.elements?.elim (.error .notIterable) .ok
  let humps ← humps g (1.0 / resolution) now events
  g.makeRoom
  return ofSamples (draw g.count humps)

/-- The new scale of a display. It rises to the largest sample and stays there, until the
samples add up to nothing. -/
def peak (samples : Array Float) (prior : Number) : Number :=
  if samples.foldl (· + ·) 0.0 == 0.0 then .double 0.0
  else samples.foldl (fun peak x => if peak.isBelow (.double x) then .double x else peak) prior

end Curve

end RateCurve
