namespace RateCurve

inductive Role where
  | reporter
  | viewer
deriving DecidableEq

/-- What tells connections apart: the name of the other end, which may come back under the same
name, and the number of connections made before. -/
structure Connection.Key where
  id : String
  serial : Nat
deriving DecidableEq

/-- A connection: whether it is still served, and whether texts get through to the other end. -/
structure Connection where
  key : Connection.Key
  role : Role
  served : Bool := true
  up : Bool := true

end RateCurve
