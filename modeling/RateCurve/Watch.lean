import RateCurve.Capacity
import RateCurve.Decimal.Fixed
import RateCurve.Json.Display
import RateCurve.Json.Reader

namespace RateCurve.Watch

inductive Fault where
  | malformed
  | tooManyDigits
  | tooDeep
  | missingField
  | pastTheEnd
  | wrongKind
  | wrongFormat
  | notANumber
  | overflow
  | outOfMemory
deriving DecidableEq

def Fault.ofFlaw : Json.Flaw → Fault
  | .malformed => malformed
  | .tooManyDigits => tooManyDigits
  | .tooDeep => tooDeep

def Fault.ofCapacity : CapacityError → Fault
  | .uncountable => overflow
  | .outOfMemory => outOfMemory

def Fault.ofRange : RangeError → Fault
  | .notANumber => notANumber
  | .infinite | .tooLarge => overflow

/-- A value of a message. Its texts may have half of a surrogate pair standing alone. -/
abbrev Value := Json (List Text.Point)

def message? (text : String) : Except Fault Value :=
  (Json.read? .lenient text.toList).mapError .ofFlaw

def field (v : Value) (name : String) : Except Fault Value :=
  match v with
  | .obj fields => (Json.field? fields name).elim (.error .missingField) .ok
  | _ => .error .wrongKind

def first : Value → Except Fault Value
  | .arr items => items.head?.elim (.error .pastTheEnd) .ok
  | .str s => s.head?.elim (.error .pastTheEnd) fun p => .ok (.str [p])
  | .obj _ => .error .missingField
  | _ => .error .wrongKind

def quotient (a b : Value) : Except Fault Float :=
  match a.toNumber?, b.toNumber? with
  | some a, some b => (a.dividedBy b).mapError .ofRange
  | _, _ => .error .wrongKind

/-- A number in eight columns with four places after the point. -/
def column (v : Value) : Except Fault (List Char) :=
  match v.toNumber? with
  | some n => do
    let x ← n.toDouble?.mapError Fault.ofRange
    return Decimal.padLeft 8 ' ' (Decimal.fixed 4 x)
  | none => .error (if v matches .str _ then .wrongFormat else .wrongKind)

def barWidth : Nat := 60

def marks [Machine] (fraction : Float) : Except Fault Nat := do
  let n ← (Double.truncate (fraction * Double.ofInt barWidth)).mapError Fault.ofRange
  (Capacity.makeRoom 1 n).mapError .ofCapacity
  return n.toNat

/-- The newest sample as a fraction of the scale, and nothing of it without a scale. -/
def newest (samples peak : Value) : Except Fault Float :=
  if peak.isTrue then do
    let sample ← first samples
    quotient sample peak
  else return 0.0

def line [Machine] (text : String) : Except Fault (List Char) := do
  let frame ← message? text
  let samples ← field frame "samples"
  let peak ← field frame "peak"
  let empty ← field frame "empty"
  if empty.isTrue then return "[GRAPH] (empty)".toList
  let bar := List.replicate (← marks (← newest samples peak)) '#'
  let peak ← column peak
  let sample ← column (← first samples)
  return "[GRAPH] peak=".toList ++ peak ++ " newest=".toList ++ sample ++ " |".toList ++
    Decimal.padRight barWidth ' ' bar ++ ['|']

/-- What a run shows, sends and waits for, and the fault that ends it, if one does. A pause
stands as it was given, as a value of the data format, and is in seconds if it is a number. -/
structure Run where
  shown : List (List Text.Point) := []
  sent : List String := []
  pauses : List Json := []
  fault : Option Fault := none

/-- What follows a run that ends well. -/
def Run.andThen (r s : Run) : Run :=
  match r.fault with
  | some _ => r
  | none =>
    { shown := r.shown ++ s.shown
      sent := r.sent ++ s.sent
      pauses := r.pauses ++ s.pauses
      fault := s.fault }

def printed (line : String) : Run :=
  { shown := [line.toList.map .char] }

def frames [Machine] : List String → Run
  | [] => {}
  | text :: texts =>
    match line text with
    | .ok l => Run.andThen { shown := [l.map .char] } (frames texts)
    | .error fault => { fault := some fault }

def greeting : String := "[GRAPH] Connected — waiting for frames...\n"

/-- Watches frames as they come. -/
def listen [Machine] (texts : List String) : Run :=
  (printed greeting).andThen (frames texts)

def ackLine (text : String) : Except Fault (List Text.Point) := do
  let ack ← message? text
  let status ← field ack "status"
  let total := match ack with
    | .obj fields => (Json.field? fields "query_count").getD .null
    | _ => .null
  return "[ACTIVITY] ".toList.map .char ++ status.display ++ " -> total=".toList.map .char ++
    total.display

/-- What a server without answers left says. -/
def drained : String := "\x7b\"status\": \"drained\"\x7d"

def Run.after {α : Type} (x : Except Fault α) (f : α → Run) : Run :=
  match x with
  | .ok a => f a
  | .error fault => { fault := some fault }

def waited (pause : Json) : Run :=
  { pauses := [pause] }

/-- Sends reports without a time, each after the answer to the one before and a pause. -/
def report (pause : Json) : Nat → List String → Run
  | 0, _ => {}
  | n + 1, answers =>
    Run.andThen { sent := ["\x7b\x7d"] } <|
    Run.after (ackLine (answers.headD drained)) fun l =>
    Run.andThen { shown := [l] } <|
    (waited pause).andThen <|
    report pause n answers.tail

/-- How many reports a burst has and the pause after each of them, both as values of the data
format. -/
structure Burst where
  count : Json := .int 30
  pause : Json := .double 0.05

namespace Burst

def ofValues? : List Json → Except Fault Burst
  | [] => .ok {}
  | [count] => .ok { count }
  | [count, pause] => .ok { count, pause }
  | _ => .error .wrongKind

/-- The number of reports. It has to be an integer, and below zero it counts as zero. -/
def size? (b : Burst) : Except Fault Nat :=
  match b.count.toNumber? with
  | some (.int n) => .ok n.toNat
  | _ => .error .wrongKind

end Burst

def send (values : List Json) (answers : List String) : Run :=
  Run.after (Burst.ofValues? values) fun b =>
  Run.after b.size? fun n =>
  report b.pause n answers

def watchTime : Json := .int 70

/-- Watches the frames that are there, sends a burst, and watches the curve decay. -/
def demonstration [Machine] (texts answers : List String) : Run :=
  (printed "Connecting to graph WebSocket...").andThen <|
  ({ listen texts with fault := none } : Run).andThen <|
  (printed "\nSending a burst of queries...\n").andThen <|
  (send [] answers).andThen <|
  (printed "\nWatching the curve decay...\n").andThen <|
  (waited watchTime).andThen <|
  printed "\nDone!"

def Run.text (r : Run) : List Text.Point :=
  r.shown.flatMap fun l => l ++ [.char '\n']

end RateCurve.Watch
