import RateCurve.Decimal.Fixed
import RateCurve.Frame

namespace RateCurve

/-- One display: the layout of its curve and the frame it shows. -/
structure Graph where
  geometry : Geometry
  last : Option Frame := none

namespace Graph

def peak (g : Graph) : Float :=
  g.last.elim 0.0 (·.peak)

/-- Shows the next frame. The display stays as it is where there is none. -/
def refresh [Machine] (g : Graph) (now activity : Json) : Except Fault Frame × Graph :=
  match Frame.next g.geometry now activity (.double g.peak) with
  | .ok frame => (.ok frame, { g with last := some frame })
  | .error fault => (.error fault, g)

def step [Machine] (g : Graph) : Json × Json → Except Fault Frame × Graph
  | (now, activity) => g.refresh now activity

def summary (g : Graph) : String :=
  let peak := String.ofList (Decimal.fixed 4 g.peak)
  s!"ActivityGraph(window_ms={g.geometry.window}, resolution_ms={g.geometry.resolution}, " ++
    s!"peak={peak})"

end Graph

end RateCurve
