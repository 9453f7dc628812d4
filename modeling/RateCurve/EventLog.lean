import RateCurve.Fault
import RateCurve.Json

namespace RateCurve

/-- The events that may still be drawn, in the order in which they were reported, and the number
of all events ever reported. -/
structure EventLog where
  retention : Float
  entries : List Number := []
  total : Nat := 0

namespace EventLog

/-- The earliest entry: the first one that no later entry is below. -/
def earliest? : List Number → Option Number
  | [] => none
  | t :: ts => some (ts.foldl (fun least t => if t.isBelow least then t else least) t)

/-- Forgets the entries that are too old to be drawn. Entries come in any order, so all of them
are looked at as soon as the earliest one is too old. -/
def prune (log : EventLog) (now : Float) : EventLog :=
  let cutoff := Number.double (now - log.retention)
  match earliest? log.entries with
  | none => log
  | some t =>
    if t.isBelow cutoff then { log with entries := log.entries.filter cutoff.isAtMost } else log

/-- Adds an event, which happened now unless it says otherwise. -/
def record (log : EventLog) (now : Float) (time : Option Number) : EventLog :=
  prune
    { log with entries := log.entries ++ [time.getD (.double now)], total := log.total + 1 }
    now

def timeOf? : Json → Except Fault (Option Number)
  | .null => .ok none
  | v => v.toNumber?.elim (.error .notComparable) fun n => .ok (some n)

inductive Command where
  | record (time : Option Number)
  /-- Asks for the entries, as of now unless it says otherwise. -/
  | entries (time : Option Number)
  | size

inductive Reply where
  | recorded (total : Nat)
  | entries (times : List Number)
  | size (n : Nat)

/-- Carries out a command at a moment. Reading forgets as well. -/
def step (log : EventLog) : Float × Command → Except RangeError Reply × EventLog
  | (now, .record time) =>
    let log := log.record now time
    (.ok (.recorded log.total), log)
  | (now, .entries time) =>
    match time.elim (.ok now) Number.toDouble? with
    | .ok now =>
      let log := log.prune now
      (.ok (.entries log.entries), log)
    | .error e => (.error e, log)
  | (now, .size) =>
    let log := log.prune now
    (.ok (.size log.entries.length), log)

end EventLog

end RateCurve
