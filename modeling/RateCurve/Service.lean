import RateCurve.Connection
import RateCurve.Query
import RateCurve.Settings
import RateCurve.Station
import RateCurve.Text.Quoted

namespace RateCurve

structure Health where
  total : Nat
  retained : Nat
  viewers : Nat
  peak : Float
  geometry : Geometry

/-- The service: a station that reporters feed and viewers watch. Of its connections the newest
stands first. -/
structure Service where
  settings : Settings
  station : Station EventLog Connection.Key
  connections : List Connection := []

namespace Service

inductive Command where
  | health
  | frame
  | opened (id : String) (role : Role)
  | received (id : String) (text : String)
  | closed (id : String)
  | severed (id : String)
  | startup
  | advance
  | shutdown

inductive Reply where
  | done
  | health (h : Health)
  | frame (f : Except Fault Frame)

def levels : List String :=
  ["CRITICAL", "FATAL", "ERROR", "WARNING", "WARN", "INFO", "DEBUG", "NOTSET"]

/-- Sets up the service that an environment describes. -/
def ofEnvironment (env : List (String × String)) : Except Fault Service := do
  let settings ← (Settings.ofEnvironment env).mapError .invalid
  unless settings.logLevel ∈ levels do
    throw (.level (String.ofList (Text.quoted (settings.logLevel.toList.map .char))))
  let geometry ← (Geometry.ofFields [
    ("window_ms", .int settings.window),
    ("resolution_ms", .int settings.resolution),
    ("smoothing_floor", .double settings.floor)]).mapError .invalid
  let retention ← geometry.visibleAge.mapError .range
  let pause ← Station.pause? (.int settings.refreshInterval)
  if settings.name.isEmpty then throw .untitled
  return { settings, station := { graph := { geometry }, source := { retention }, pause } }

/-- The newest connection under a name. -/
def connection? (s : Service) (id : String) : Option Connection :=
  s.connections.find? (·.key.id == id)

def isNewest (s : Service) (key : Connection.Key) : Bool :=
  (s.connection? key.id).any (·.key == key)

/-- What is seen under the names of the connections. A name stands for its newest connection, so
that texts to an older one are seen nowhere. -/
def seen (s : Service) (output : Output Connection.Key) : List (String × String) :=
  (output.sent.filter fun (key, _) => s.isNewest key).map fun (key, text) => (key.id, text)

def isUp (s : Service) (key : Connection.Key) : Bool :=
  (s.connections.find? (·.key == key)).elim false (·.up)

def setConnection (s : Service) (c : Connection) : Service :=
  { s with connections := s.connections.map fun d => if d.key = c.key then c else d }

/-- Serves a new connection, also beside older ones under the same name. A viewer joins the
viewers of the station. -/
def accept (s : Service) (id : String) (role : Role) : Service :=
  let key := ⟨id, s.connections.length⟩
  let s := { s with connections := { key, role } :: s.connections }
  match role with
  | .reporter => s
  | .viewer => { s with station := { s.station with viewers := s.station.viewers.insert key } }

def abandon (s : Service) (c : Connection) : Service :=
  s.setConnection { c with served := false }

/-- Ends a connection that its other end has closed. A viewer is no longer one. -/
def dismiss (s : Service) (c : Connection) : Service :=
  let s := s.abandon c
  match c.role with
  | .reporter => s
  | .viewer => { s with station := { s.station with viewers := s.station.viewers.erase c.key } }

/-- Answers on a connection. One to which the answer does not get through is abandoned; a viewer
stays one until a frame does not get through either. -/
def answer (s : Service) (c : Connection) (text : String) : Output Connection.Key × Service :=
  if c.up then ({ sent := [(c.key, text)] }, s) else ({}, s.abandon c)

/-- Whether a text asks for a sign of life. Only the letters of the word itself have these
lower-case forms. -/
def isPing (text : String) : Bool :=
  (Text.trim Text.isBlank text.toList).map Char.toLower == "ping".toList

/-- Handles a text from the other end of a connection. -/
def receive (s : Service) (now : Float) (c : Connection) (text : String) :
    Output Connection.Key × Service :=
  match c.role with
  | .viewer => if isPing text then s.answer c "pong" else ({}, s)
  | .reporter =>
    match Query.ofText text with
    | .error _ => s.answer c Ack.rejected.text
    | .ok query =>
      let source := s.station.source.record now (query.time.map .double)
      { s with station := { s.station with source } }.answer c (Ack.accepted source.total).text

/-- Looks the service over. What can no longer be drawn is forgotten first. -/
def health (s : Service) (now : Float) : Health × Service :=
  let source := s.station.source.prune now
  let station := { s.station with source }
  ({ total := source.total
     retained := source.entries.length
     viewers := station.viewers.size
     peak := station.graph.peak
     geometry := station.graph.geometry }, { s with station })

def step [Machine] (s : Service) : Float × Command → (Reply × Output Connection.Key) × Service
  | (now, .health) =>
    let (h, s) := s.health now
    ((.health h, {}), s)
  | (now, .frame) =>
    let (f, station) := s.station.tick now
    ((.frame f, {}), { s with station })
  | (_, .opened id role) => ((.done, {}), s.accept id role)
  | (now, .received id text) =>
    match s.connection? id with
    | some c =>
      let (output, s) := if c.served then s.receive now c text else ({}, s)
      ((.done, output), s)
    | none => ((.done, {}), s)
  | (_, .closed id) =>
    ((.done, {}), (s.connection? id).elim s fun c => if c.served then s.dismiss c else s)
  | (_, .severed id) =>
    ((.done, {}), (s.connection? id).elim s fun c => s.setConnection { c with up := false })
  | (now, .startup) =>
    let (output, station) := s.station.start s.isUp now
    ((.done, output), { s with station })
  | (now, .advance) =>
    let (output, station) := s.station.advance s.isUp now
    ((.done, output), { s with station })
  | (_, .shutdown) => ((.done, {}), { s with station := s.station.stop })

end Service

end RateCurve
