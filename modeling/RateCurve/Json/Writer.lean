import RateCurve.Json
import RateCurve.Decimal.Shortest

namespace RateCurve.Json

/-- The separators between items and after the name of a field. -/
structure Spacing where
  item : List Char
  field : List Char

def Spacing.spaced : Spacing := ⟨", ".toList, ": ".toList⟩

def Spacing.compact : Spacing := ⟨",".toList, ":".toList⟩

def hexDigit (n : Nat) : Char :=
  Nat.digitChar (n % 16)

/-- Quotes, backslashes and control characters are escaped. -/
def escapeChar : Char → List Char
  | '"' => ['\\', '"']
  | '\\' => ['\\', '\\']
  | '\n' => ['\\', 'n']
  | '\r' => ['\\', 'r']
  | '\t' => ['\\', 't']
  | '\x08' => ['\\', 'b']
  | '\x0c' => ['\\', 'f']
  | c =>
    if c.toNat < 0x20 then ['\\', 'u', '0', '0', hexDigit (c.toNat / 16), hexDigit c.toNat]
    else [c]

def escapePoint : Text.Point → List Char
  | .char c => escapeChar c
  | .half n =>
    ['\\', 'u', hexDigit (n / 4096), hexDigit (n / 256), hexDigit (n / 16), hexDigit n]

variable {τ : Type} [TextType τ]

def quote (s : τ) : List Char :=
  '"' :: (TextType.points s).flatMap escapePoint ++ ['"']

mutual

def write (sp : Spacing) : Json τ → List Char
  | null => "null".toList
  | bool b => (if b then "true" else "false").toList
  | int n => Decimal.intText n
  | double x => Decimal.text x
  | str s => quote s
  | arr items => '[' :: writeItems sp items ++ [']']
  | obj fields => '\x7b' :: writeFields sp fields ++ ['\x7d']

def writeItems (sp : Spacing) : List (Json τ) → List Char
  | [] => []
  | [v] => write sp v
  | v :: vs => write sp v ++ sp.item ++ writeItems sp vs

def writeFields (sp : Spacing) : List (τ × Json τ) → List Char
  | [] => []
  | [(name, v)] => quote name ++ sp.field ++ write sp v
  | (name, v) :: vs => quote name ++ sp.field ++ write sp v ++ sp.item ++ writeFields sp vs

end

end RateCurve.Json
