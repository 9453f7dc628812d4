import RateCurve.Station

namespace RateCurve

/-- The link to a viewer: how often it was accepted, and whether texts get through. -/
structure Link where
  id : String
  accepted : Nat
  up : Bool

structure Session where
  station : Station Source String
  links : List Link := []

namespace Session

inductive Command where
  | connect (id : String)
  | disconnect (id : String)
  | sever (id : String)
  | record (time : Option Number)
  | supply (events : Option Json)
  | tick
  | announce (text : String)
  | start
  | advance
  | stop

inductive Reply where
  | done
  | accepted (times : Nat)
  | recorded (total : Nat)
  | drawn (frame : Except Fault Frame)
  | reached (viewers : Nat)

def link (s : Session) (id : String) : Link :=
  (s.links.find? (·.id == id)).getD ⟨id, 0, true⟩

def isUp (s : Session) (id : String) : Bool :=
  (s.link id).up

def setLink (s : Session) (l : Link) : Session :=
  { s with links := l :: s.links.filter (·.id != l.id) }

def step [Machine] (s : Session) : Float × Command → (Reply × Output String) × Session
  | (_, .connect id) =>
    let l := s.link id
    let l := { l with accepted := l.accepted + 1 }
    let station := { s.station with viewers := s.station.viewers.insert id }
    ((.accepted l.accepted, {}), { s.setLink l with station })
  | (_, .disconnect id) =>
    let station := { s.station with viewers := s.station.viewers.erase id }
    ((.done, {}), { s with station })
  | (_, .sever id) => ((.done, {}), s.setLink { s.link id with up := false })
  | (now, .record time) =>
    let station := { s.station with source := s.station.source.record now time }
    ((.recorded (station.source.log?.elim 0 (·.total)), {}), { s with station })
  | (_, .supply events) =>
    let station := { s.station with source := s.station.source.supply events }
    ((.done, {}), { s with station })
  | (now, .tick) =>
    let (frame, station) := s.station.tick now
    ((.drawn frame, {}), { s with station })
  | (_, .announce text) =>
    let (sent, station) := s.station.broadcast s.isUp text
    ((.reached sent.length, { sent }), { s with station })
  | (now, .start) =>
    let (output, station) := s.station.start s.isUp now
    ((.done, output), { s with station })
  | (now, .advance) =>
    let (output, station) := s.station.advance s.isUp now
    ((.done, output), { s with station })
  | (_, .stop) => ((.done, {}), { s with station := s.station.stop })

end Session

end RateCurve
