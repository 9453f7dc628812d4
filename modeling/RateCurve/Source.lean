import RateCurve.EventLog
import RateCurve.Fault
import RateCurve.Json

namespace RateCurve

/-- Where a station takes its events from. Asking may change what is asked. -/
class Feed (σ : Type) where
  pull : σ → Float → Except Fault Json × σ

/-- A log forgets what can no longer be drawn and answers with the rest. -/
instance : Feed EventLog where
  pull log now :=
    let log := log.prune now
    (.ok (.arr (log.entries.map .ofNumber)), log)

/-- An answer that is the same whenever it is asked for, and how often that was. -/
structure Fixed where
  /-- Nothing where the events cannot be had. -/
  events : Option Json
  calls : Nat := 0

instance : Feed Fixed where
  pull s _ := (s.events.elim (.error .source) .ok, { s with calls := s.calls + 1 })

inductive Source where
  | log (log : EventLog)
  | fixed (fixed : Fixed)

namespace Source

instance : Feed Source where
  pull
    | log l, now => (Feed.pull l now).map id log
    | fixed f, now => (Feed.pull f now).map id fixed

def log? : Source → Option EventLog
  | log l => some l
  | fixed _ => none

def fixed? : Source → Option Fixed
  | log _ => none
  | fixed f => some f

def supply (s : Source) (events : Option Json) : Source :=
  match s with
  | log l => log l
  | fixed f => fixed { f with events }

def record (s : Source) (now : Float) (time : Option Number) : Source :=
  match s with
  | log l => log (l.record now time)
  | fixed f => fixed f

end Source

end RateCurve
