import RateCurve.Json

namespace RateCurve

/-- A reading of a clock that counts seconds, in milliseconds. -/
def Clock.milliseconds (seconds : Float) : Float :=
  seconds * 1000.0

/-- The age of an event, if both readings are numbers and it is not in the future. -/
def age? (now event : Json) : Option Float := do
  let a ← now.toNumber?
  let b ← event.toNumber?
  let age ← (a.minus b).toOption
  if age.isFinite && !(age < 0.0) then some age else none

end RateCurve
