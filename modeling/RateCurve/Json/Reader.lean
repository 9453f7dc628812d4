import RateCurve.Json
import RateCurve.Decimal.Digits

namespace RateCurve.Json

inductive Flaw where
  | malformed
  | tooManyDigits
  | tooDeep
deriving DecidableEq

structure Limits where
  /-- How many arrays and objects with contents may lie inside one another. -/
  depth : Nat
  /-- Whether the limit on the digits of an integer holds for those before the point of a
  double. -/
  boundsDoubles : Bool

/-- The limits for messages from outside. -/
def Limits.strict : Limits := ⟨200, true⟩

/-- The limits for messages of a server. -/
def Limits.lenient : Limits := ⟨978, false⟩

/-- A reader takes a value off the head of a text. -/
abbrev Reader (τ : Type) := List Char → Except Flaw (Json τ × List Char)

def isBlank (c : Char) : Bool :=
  c == ' ' || c == '\t' || c == '\n' || c == '\r'

def skipBlank (s : List Char) : List Char :=
  s.dropWhile isBlank

def word? (w s : List Char) : Except Flaw (List Char) :=
  if w.isPrefixOf s then .ok (s.drop w.length) else .error .malformed

def hexDigit? (c : Char) : Option Nat :=
  if c.isDigit then some (c.toNat - '0'.toNat)
  else if 'a' ≤ c && c ≤ 'f' then some (c.toNat - 'a'.toNat + 10)
  else if 'A' ≤ c && c ≤ 'F' then some (c.toNat - 'A'.toNat + 10)
  else none

def hexUnit? (a b c d : Char) : Option Nat := do
  return ((← hexDigit? a) * 16 + (← hexDigit? b)) * 256 + (← hexDigit? c) * 16 + (← hexDigit? d)

def escape? : Char → Option Char
  | '"' => some '"'
  | '\\' => some '\\'
  | '/' => some '/'
  | 'b' => some '\x08'
  | 'f' => some '\x0c'
  | 'n' => some '\n'
  | 'r' => some '\r'
  | 't' => some '\t'
  | _ => none

/-- The units of a text up to the closing quote, and what follows it. -/
def units : List Char → Option (List Text.Unit16 × List Char)
  | [] => none
  | '"' :: s => some ([], s)
  | '\\' :: 'u' :: a :: b :: c :: d :: s => do
    let n ← hexUnit? a b c d
    let (us, rest) ← units s
    return (.code n :: us, rest)
  | '\\' :: e :: s => do
    let c ← escape? e
    let (us, rest) ← units s
    return (.char c :: us, rest)
  | c :: s =>
    if c.toNat < 0x20 then none
    else (units s).map fun (us, rest) => (.char c :: us, rest)

/-- Reads a text whose opening quote is gone. -/
def string? {τ : Type} [TextType τ] (s : List Char) : Except Flaw (τ × List Char) :=
  match units s with
  | none => .error .malformed
  | some (us, rest) =>
    match TextType.ofUnits us with
    | none => .error .malformed
    | some text => .ok (text, rest)

def fraction : List Char → Option (List Char) × List Char
  | '.' :: s =>
    let (ds, rest) := Decimal.spanDigits s
    if ds.isEmpty then (none, '.' :: s) else (some ds, rest)
  | s => (none, s)

def exponent : List Char → Option Int × List Char
  | [] => (none, [])
  | c :: s =>
    if c == 'e' || c == 'E' then
      let (negative, s') := Decimal.splitSign s
      let (ds, rest) := Decimal.spanDigits s'
      if ds.isEmpty then (none, c :: s)
      else (some (if negative then -(Decimal.value ds : Int) else Decimal.value ds), rest)
    else (none, c :: s)

/-- The number of a numeral in pieces. It is an integer where there is neither a fraction nor an
exponent. -/
def ofNumeral (negative : Bool) (whole : List Char) : Option (List Char) → Option Int → Number
  | none, none =>
    let n : Int := Decimal.value whole
    .int (if negative then -n else n)
  | fraction, exponent =>
    let places := fraction.getD []
    let x :=
      Double.ofDecimal (Decimal.value (whole ++ places)) (exponent.getD 0 - places.length)
    .double (if negative then -x else x)

/-- The digits before the point. A zero there stands alone. -/
def whole? (s : List Char) : Except Flaw (List Char × List Char) :=
  match Decimal.spanDigits s with
  | ([], _) => .error .malformed
  | ('0' :: _ :: _, _) => .error .malformed
  | (ds, s) => .ok (ds, s)

def magnitude? (bounded negative : Bool) (s : List Char) : Except Flaw (Number × List Char) :=
  match word? "Infinity".toList s with
  | .ok s => .ok (.double (if negative then -(1.0 / 0.0) else 1.0 / 0.0), s)
  | .error _ => do
    let (whole, s) ← whole? s
    let (fraction, s) := fraction s
    let (exponent, s) := exponent s
    if Decimal.maxDigits < whole.length &&
      (bounded || (fraction.isNone && exponent.isNone)) then
      throw .tooManyDigits
    return (ofNumeral negative whole fraction exponent, s)

def number? (bounded : Bool) : List Char → Except Flaw (Number × List Char)
  | '-' :: s => magnitude? bounded true s
  | s => magnitude? bounded false s

variable {τ : Type} [TextType τ]

/-- Reads the items of an array up to its closing bracket. Each item takes at least one
character, so the length of the text bounds their number. -/
def items? (inner : Reader τ) : Nat → List Char → Except Flaw (List (Json τ) × List Char)
  | 0, _ => .error .malformed
  | fuel + 1, s => do
    let (v, s) ← inner s
    match skipBlank s with
    | ']' :: s => return ([v], s)
    | ',' :: s =>
      let (vs, s) ← items? inner fuel s
      return (v :: vs, s)
    | _ => throw .malformed

/-- Reads the fields of an object up to its closing brace. -/
def fields? (inner : Reader τ) : Nat → List Char → Except Flaw (List (τ × Json τ) × List Char)
  | 0, _ => .error .malformed
  | fuel + 1, s => do
    let '"' :: s := skipBlank s | throw .malformed
    let (name, s) ← string? s
    let ':' :: s := skipBlank s | throw .malformed
    let (v, s) ← inner s
    match skipBlank s with
    | '\x7d' :: s => return ([(name, v)], s)
    | ',' :: s =>
      let (vs, s) ← fields? inner fuel s
      return ((name, v) :: vs, s)
    | _ => throw .malformed

/-- Reads a value whose parts are read by `inner`. -/
def value? (bounded : Bool) (inner : Reader τ) : Reader τ := fun s =>
  match skipBlank s with
  | [] => .error .malformed
  | '"' :: s => (string? s).map fun (text, s) => (.str text, s)
  | '[' :: s =>
    match skipBlank s with
    | ']' :: s => .ok (.arr [], s)
    | s => (items? inner s.length s).map fun (items, s) => (.arr items, s)
  | '\x7b' :: s =>
    match skipBlank s with
    | '\x7d' :: s => .ok (.obj [], s)
    | s => (fields? inner s.length s).map fun (fields, s) => (ofFields fields, s)
  | 't' :: s => (word? "rue".toList s).map (.bool true, ·)
  | 'f' :: s => (word? "alse".toList s).map (.bool false, ·)
  | 'n' :: s => (word? "ull".toList s).map (.null, ·)
  | 'N' :: s => (word? "aN".toList s).map (.double (0.0 / 0.0), ·)
  | s => (number? bounded s).map fun (n, s) => (ofNumber n, s)

/-- Reads a value whose arrays and objects lie at most `depth` deep inside one another. -/
def nested? (bounded : Bool) : Nat → Reader τ
  | 0 => value? bounded fun _ => .error .tooDeep
  | depth + 1 => value? bounded (nested? bounded depth)

def read? (limits : Limits) (text : List Char) : Except Flaw (Json τ) := do
  let (v, s) ← nested? limits.boundsDoubles limits.depth text
  if (skipBlank s).isEmpty then return v else throw .malformed

end RateCurve.Json
