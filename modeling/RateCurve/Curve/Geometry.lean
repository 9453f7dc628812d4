import RateCurve.Curve.Spread
import RateCurve.Fault
import RateCurve.Validation.Rules

namespace RateCurve

/-- The layout of a curve: sample `i` stands for events of age `i · resolution`, in
milliseconds, and there are as many samples as fit into the window. The floor is added to the
age, in samples, before the square root that gives the width of a hump. -/
structure Geometry where
  window : Nat
  resolution : Nat
  floor : Float
  resolution_pos : 0 < resolution
  resolution_le_window : resolution ≤ window
  floor_pos : 0.0 < floor

namespace Geometry

/-- One minute at ten samples a second. -/
def standard : Geometry :=
  { window := 60000
    resolution := 100
    floor := 10.0
    resolution_pos := by decide
    resolution_le_window := by decide
    floor_pos := by decide +kernel }

open Validation in
/-- Reads a layout from the fields of a message; each field that is missing has its standard
value. -/
def ofFields (fields : List (String × Json)) : Checked Geometry := do
  let above {α β : Type} (bound : α → Except Cause β) (rule : Rule α) : Rule β :=
    fun v => rule v >>= bound
  let ((window, resolution), floor) ←
    ((defaulted fields "window_ms" ⟨60000, by decide⟩ (above positive integer)).both
      (defaulted fields "resolution_ms" ⟨100, by decide⟩ (above positive integer))).both
      (defaulted fields "smoothing_floor" ⟨10.0, standard.floor_pos⟩
        (above positiveDouble number))
  if h : resolution.1 ≤ window.1 then
    return ⟨window, resolution, floor, resolution.2, h, floor.2⟩
  else
    .error [⟨[],
      .refused s!"window_ms ({window.1}) must be at least resolution_ms ({resolution.1})"⟩]

def count (g : Geometry) : Nat :=
  g.window / g.resolution

/-- Makes room for the samples, each of which takes eight bytes. -/
def makeRoom [Machine] (g : Geometry) : Except Fault Unit :=
  (Capacity.makeRoom 8 g.count).mapError .capacity

def resolution? (g : Geometry) : Except RangeError Float :=
  Double.ofInt? g.resolution

/-- The age in milliseconds up to which an event can be seen. -/
def visibleAge (g : Geometry) : Except RangeError Float := do
  let n ← Double.ofInt? g.count
  let resolution ← g.resolution?
  return Spread.horizon g.floor n * resolution

end Geometry

end RateCurve
