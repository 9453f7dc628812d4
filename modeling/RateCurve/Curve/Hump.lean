import RateCurve.Curve.Geometry
import RateCurve.Exponential

namespace RateCurve

/-- A bell of width `1 / sharpness` around `centre`, and of height `sharpness` there. -/
def bell (centre sharpness x : Float) : Float :=
  let z := (x - centre) * sharpness
  Exponential.exp (-z * z) * sharpness

/-- The samples from `first` to `last`. There may be none. -/
structure Span where
  first : Nat
  last : Int
deriving DecidableEq

namespace Span

/-- The samples of a curve of `count` samples within the reach of a hump, or nothing where the
hump begins after the last sample. -/
def around {α : Type} [Arithmetic α] (centre width : α) (count : Int) :
    Except RangeError (Option Span) := do
  let first := (← Arithmetic.ceil (Spread.lower centre width)).toNat
  if count ≤ first then return none
  let last ← Arithmetic.floor (Spread.upper centre width)
  return some ⟨first, min (count - 1) last⟩

def size (s : Span) : Nat :=
  (s.last + 1 - s.first).toNat

def toList (s : Span) : List Nat :=
  List.range' s.first s.size

theorem mem_toList {s : Span} {i : Nat} : i ∈ s.toList ↔ s.first ≤ i ∧ (i : Int) ≤ s.last := by
  simp only [toList, size, List.mem_range'_1]
  omega

end Span

/-- What one event adds to the curve. -/
structure Hump where
  centre : Float
  sharpness : Float
  span : Span

namespace Hump

/-- The hump of an event at a position on the curve, if it touches a sample. -/
def at? (g : Geometry) (centre : Float) : Except RangeError (Option Hump) := do
  let width := Spread.width g.floor centre
  let span ← Span.around centre width g.count
  return span.map fun span => ⟨centre, 1.0 / width, span⟩

def height (h : Hump) (i : Nat) : Float :=
  bell h.centre h.sharpness (Double.ofInt i)

def addTo (h : Hump) (samples : Array Float) : Array Float :=
  h.span.toList.foldl (fun samples i => samples.modify i (· + h.height i)) samples

@[simp]
theorem size_addTo (h : Hump) (samples : Array Float) :
    (h.addTo samples).size = samples.size := by
  unfold addTo
  induction h.span.toList generalizing samples with
  | nil => rfl
  | cons i is ih =>
    simpa only [List.foldl_cons, Array.size_modify] using ih (samples.modify i _)

end Hump

end RateCurve
