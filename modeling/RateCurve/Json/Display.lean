import RateCurve.Decimal.Shortest
import RateCurve.Json
import RateCurve.Text.Quoted

namespace RateCurve.Json

def showDouble (x : Float) : List Char :=
  match Double.parts x with
  | .error .notANumber => "nan".toList
  | .error _ => if Double.isNegative x then "-inf".toList else "inf".toList
  | .ok _ => Decimal.text x

mutual

def showInner : Json (List Text.Point) → List Char
  | null => "None".toList
  | bool b => (if b then "True" else "False").toList
  | int n => Decimal.intText n
  | double x => showDouble x
  | str s => Text.quoted s
  | arr items => '[' :: showItems items ++ [']']
  | obj fields => '\x7b' :: showFields fields ++ ['\x7d']

def showItems : List (Json (List Text.Point)) → List Char
  | [] => []
  | [v] => showInner v
  | v :: vs => showInner v ++ ", ".toList ++ showItems vs

def showFields : List (List Text.Point × Json (List Text.Point)) → List Char
  | [] => []
  | [(name, v)] => Text.quoted name ++ ": ".toList ++ showInner v
  | (name, v) :: vs =>
    Text.quoted name ++ ": ".toList ++ showInner v ++ ", ".toList ++ showFields vs

end

def display : Json (List Text.Point) → List Text.Point
  | str s => s
  | v => (showInner v).map .char

end RateCurve.Json
