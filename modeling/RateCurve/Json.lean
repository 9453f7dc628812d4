import RateCurve.Number
import RateCurve.Text.Unit16

namespace RateCurve

/-- A value of the data format of the messages, with integers and doubles apart. The fields of
an object have different names and keep their order. Texts are sequences of characters unless it
is said otherwise. -/
inductive Json (τ : Type := String) where
  | null
  | bool (b : Bool)
  | int (n : Int)
  | double (x : Float)
  | str (s : τ)
  | arr (items : List (Json τ))
  | obj (fields : List (τ × Json τ))

namespace Json

variable {τ : Type}

instance : Inhabited (Json τ) := ⟨null⟩

/-- What readers and writers need of texts. -/
class TextType (τ : Type) extends BEq τ where
  /-- The text of a sequence of code units, if there is one. -/
  ofUnits : List Text.Unit16 → Option τ
  ofString : String → τ
  points : τ → List Text.Point

/-- A text of characters has no half of a surrogate pair standing alone. -/
instance : TextType String where
  ofUnits us := (Text.chars? (Text.points us)).map String.ofList
  ofString s := s
  points s := s.toList.map .char

/-- A text of points has one for every sequence of code units. -/
instance : TextType (List Text.Point) where
  ofUnits us := some (Text.points us)
  ofString s := s.toList.map .char
  points ps := ps

def ofNumber : Number → Json τ
  | .int n => int n
  | .double x => double x

/-- The number a value counts as in arithmetic; truth values count as zero and one. -/
def toNumber? : Json τ → Option Number
  | bool b => some (.int (if b then 1 else 0))
  | int n => some (.int n)
  | double x => some (.double x)
  | _ => none

/-- Nothing, zero, and whatever is empty are false; all else is true. -/
def isTrue [TextType τ] : Json τ → Bool
  | null => false
  | bool b => b
  | int n => n != 0
  | double x => x != 0.0
  | str s => !(TextType.points s).isEmpty
  | arr items => !items.isEmpty
  | obj fields => !fields.isEmpty

def field? [TextType τ] (fields : List (τ × Json τ)) (name : String) : Option (Json τ) :=
  fields.lookup (TextType.ofString name)

/-- Sets a field. A name that is there already keeps its place and takes the new value. -/
def setField [BEq τ] (name : τ) (v : Json τ) : List (τ × Json τ) → List (τ × Json τ)
  | [] => [(name, v)]
  | (key, old) :: rest =>
    if key == name then (name, v) :: rest else (key, old) :: setField name v rest

/-- An object of the given fields, of which the last one of a name counts. -/
def ofFields [BEq τ] (fields : List (τ × Json τ)) : Json τ :=
  obj (fields.foldl (fun acc (name, v) => setField name v acc) [])

/-- The elements a value is walked through by: the items of an array, the names of an object and
the characters of a text. A false value has none, and any other value cannot be walked
through. -/
def elements? : Json → Option (List Json)
  | arr items => some items
  | obj fields => some (fields.map fun (name, _) => str name)
  | str s => some (s.toList.map fun c => str (String.singleton c))
  | v => if v.isTrue then none else some []

end Json

end RateCurve
