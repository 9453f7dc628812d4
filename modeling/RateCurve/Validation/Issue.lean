import RateCurve.Double

namespace RateCurve.Validation

/-- A step on the way to the part of a message that is at fault. -/
inductive Step where
  | field (name : String)
  | index (i : Nat)
deriving DecidableEq

inductive Cause where
  | missing
  | notAnObject
  | notARecord (name : String)
  | malformedText
  | notANumber
  | unreadableNumber
  | notAnInteger
  | fractional
  | notFinite
  | oversizedInteger
  | unreadableInteger
  | notAFlag
  | unreadableFlag
  | notAText
  | notASequence
  | notPositive
  | negative
  | refused (why : String)
deriving DecidableEq

def Cause.code : Cause → String
  | missing => "missing"
  | notAnObject | notARecord _ => "model_type"
  | malformedText => "json_invalid"
  | notANumber => "float_type"
  | unreadableNumber => "float_parsing"
  | notAnInteger => "int_type"
  | fractional => "int_from_float"
  | notFinite => "finite_number"
  | oversizedInteger => "int_parsing_size"
  | unreadableInteger => "int_parsing"
  | notAFlag => "bool_type"
  | unreadableFlag => "bool_parsing"
  | notAText => "string_type"
  | notASequence => "tuple_type"
  | notPositive => "greater_than"
  | negative => "greater_than_equal"
  | refused _ => "value_error"

/-- The wording of a cause. A malformed text has none: its wording depends on the position. -/
def Cause.message? : Cause → Option String
  | missing => some "Field required"
  | notAnObject => some "Input should be an object"
  | notARecord name => some ("Input should be a valid dictionary or instance of " ++ name)
  | malformedText => none
  | notANumber => some "Input should be a valid number"
  | unreadableNumber =>
    some "Input should be a valid number, unable to parse string as a number"
  | notAnInteger => some "Input should be a valid integer"
  | fractional => some "Input should be a valid integer, got a number with a fractional part"
  | notFinite => some "Input should be a finite number"
  | oversizedInteger =>
    some "Unable to parse input string as an integer, exceeded maximum size"
  | unreadableInteger =>
    some "Input should be a valid integer, unable to parse string as an integer"
  | notAFlag => some "Input should be a valid boolean"
  | unreadableFlag => some "Input should be a valid boolean, unable to interpret input"
  | notAText => some "Input should be a valid string"
  | notASequence => some "Input should be a valid tuple"
  | notPositive => some "Input should be greater than 0"
  | negative => some "Input should be greater than or equal to 0"
  | refused why => some ("Value error, " ++ why)

/-- A cause and the place where it was found. -/
structure Issue where
  path : List Step
  cause : Cause
deriving DecidableEq

/-- A value, or all the issues that keep it from being one. -/
abbrev Checked (α : Type) := Except (List Issue) α

namespace Checked

def issues {α : Type} : Checked α → List Issue
  | .ok _ => []
  | .error es => es

/-- Two values checked side by side: the issues of both are reported. -/
def both {α β : Type} : Checked α → Checked β → Checked (α × β)
  | .ok a, .ok b => .ok (a, b)
  | a, b => .error (a.issues ++ b.issues)

def all {α : Type} : List (Checked α) → Checked (List α)
  | [] => .ok []
  | c :: cs => (both c (all cs)).map fun (a, as) => a :: as

end Checked

end RateCurve.Validation
