import RateCurve.Text.Printable
import RateCurve.Text.Unit16

namespace RateCurve.Text

def hex (width n : Nat) : List Char :=
  let ds := Nat.toDigits 16 n
  List.replicate (width - ds.length) '0' ++ ds

/-- A character between quotes: the quote itself, backslashes and whatever cannot be printed are
escaped, with as few digits as the character needs. -/
def quoteChar (q c : Char) : List Char :=
  if c == q || c == '\\' then ['\\', c]
  else if c == '\n' then ['\\', 'n']
  else if c == '\r' then ['\\', 'r']
  else if c == '\t' then ['\\', 't']
  else if isPrintable c then [c]
  else if c.toNat < 0x100 then '\\' :: 'x' :: hex 2 c.toNat
  else if c.toNat < 0x10000 then '\\' :: 'u' :: hex 4 c.toNat
  else '\\' :: 'U' :: hex 8 c.toNat

def quotePoint (q : Char) : Point → List Char
  | .char c => quoteChar q c
  | .half n => '\\' :: 'u' :: hex 4 n

/-- A text between single quotes, or between double quotes where it has single quotes and no
double ones. -/
def quoted (s : List Point) : List Char :=
  let q := if s.contains (.char '\'') && !s.contains (.char '"') then '"' else '\''
  q :: s.flatMap (quotePoint q) ++ [q]

end RateCurve.Text
