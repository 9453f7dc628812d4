import RateCurve.Capacity
import RateCurve.Validation.Issue

namespace RateCurve

inductive Fault where
  | range (e : RangeError)
  | capacity (e : CapacityError)
  | notIterable
  | invalid (issues : List Validation.Issue)
  | notComparable
  | pause
  | level (quoted : String)
  | untitled
  | source

def Fault.message? : Fault → Option String
  | range .notANumber => some "cannot convert float NaN to integer"
  | range .infinite => some "cannot convert float infinity to integer"
  | range .tooLarge => some "int too large to convert to float"
  | capacity .uncountable => some "cannot fit 'int' into an index-sized integer"
  | capacity .outOfMemory => some ""
  | notIterable => none
  | invalid _ => none
  | notComparable => none
  | pause => some "interval_ms must be positive"
  | level quoted => some ("Unknown level: " ++ quoted)
  | untitled => some "A title must be provided for OpenAPI, e.g.: 'My API'"
  | source => some "source failed"

end RateCurve
