import RateCurve.Audience
import RateCurve.Graph
import RateCurve.Source

namespace RateCurve

/-- What a station does that others can see: the texts it sends, each with the viewer it goes
to, and the pauses it begins, in seconds. -/
structure Output (ι : Type) where
  sent : List (ι × String) := []
  pauses : List Float := []

/-- A graph, the source it is drawn from, the viewers it is shown to, and the loop that does
both. -/
structure Station (σ ι : Type) where
  graph : Graph
  source : σ
  viewers : Audience ι := {}
  pause : Float
  running : Bool := false

namespace Station

variable {σ ι : Type} [Feed σ]

/-- The pause of a loop, given in milliseconds, in seconds. -/
def pause? (milliseconds : Number) : Except Fault Float := do
  let positive := match milliseconds with
    | .int n => decide (0 < n)
    | .double x => !(x ≤ 0.0)
  if positive then
    let x ← milliseconds.toDouble?.mapError .range
    return x / 1000.0
  else throw .pause

def pauseOf? (v : Json) : Except Fault Float :=
  v.toNumber?.elim (.error .notComparable) pause?

/-- Draws the next frame from the events of the source. -/
def tick [Machine] (s : Station σ ι) (now : Float) : Except Fault Frame × Station σ ι :=
  match Feed.pull s.source now with
  | (.error fault, source) => (.error fault, { s with source })
  | (.ok events, source) =>
    let (frame, graph) := s.graph.refresh (.double now) events
    (frame, { s with source, graph })

/-- Sends a text to every viewer and parts with those it does not reach. -/
def broadcast (s : Station σ ι) (up : ι → Bool) (text : String) :
    List (ι × String) × Station σ ι :=
  ((s.viewers.reached up).map (·, text), { s with viewers := s.viewers.filter up })

section

variable [Machine]

/-- One round of the loop. Without viewers nothing is drawn, and without a frame nothing is
sent. -/
def iterate (s : Station σ ι) (up : ι → Bool) (now : Float) : Output ι × Station σ ι :=
  if s.viewers.isEmpty then ({ pauses := [s.pause] }, s)
  else
    match s.tick now with
    | (.error _, s) => ({ pauses := [s.pause] }, s)
    | (.ok frame, s) =>
      let (sent, s) := s.broadcast up frame.text
      ({ sent, pauses := [s.pause] }, s)

/-- Begins the loop unless it runs. -/
def start (s : Station σ ι) (up : ι → Bool) (now : Float) : Output ι × Station σ ι :=
  if s.running then ({}, s) else { s with running := true }.iterate up now

/-- Ends the pause of the loop if it runs. -/
def advance (s : Station σ ι) (up : ι → Bool) (now : Float) : Output ι × Station σ ι :=
  if s.running then s.iterate up now else ({}, s)

end

def stop (s : Station σ ι) : Station σ ι :=
  { s with running := false }

end Station

end RateCurve
