import RateCurve.Validation.Rules

namespace RateCurve

open Validation

/-- What the environment says about the service. -/
structure Settings where
  name : String
  debug : Bool
  logLevel : String
  window : Int
  resolution : Int
  floor : Float
  refreshInterval : Int

namespace Settings

/-- What the names of the variables begin with, in lower case. -/
def variableStem : String := "activity_graph_"

def lower (s : String) : String :=
  String.ofList (s.toList.map Char.toLower)

/-- The fields that an environment sets. Names count in any case, and the last one of a name
wins. -/
def fieldsOf (env : List (String × String)) : List (String × Json) :=
  env.reverse.filterMap fun (name, v) =>
    ((lower name).dropPrefix? variableStem).map fun field => (field.toString, .str v)

def ofEnvironment (env : List (String × String)) : Checked Settings :=
  let fields := fieldsOf env
  ((defaulted fields "app_name" "activity-graph" text).both
    ((defaulted fields "debug" false flag).both
      ((defaulted fields "log_level" "INFO" text).both
        ((defaulted fields "window_ms" 60000 integer).both
          ((defaulted fields "resolution_ms" 100 integer).both
            ((defaulted fields "smoothing_floor" 10.0 number).both
              (defaulted fields "refresh_interval_ms" 100 integer))))))).map
    fun (name, debug, level, window, resolution, floor, interval) =>
      ⟨name, debug, level, window, resolution, floor, interval⟩

end Settings

end RateCurve
