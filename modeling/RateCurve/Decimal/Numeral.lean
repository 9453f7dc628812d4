import RateCurve.Double
import RateCurve.Decimal.Digits
import RateCurve.Text.Blank

namespace RateCurve.Decimal

/-- Leaves out the underscores of a text. There is none at either end and no two are
neighbours. -/
def ungroup? (s : List Char) : Option (List Char) :=
  let doubled := (s.zip (s.drop 1)).any fun (c, d) => c == '_' && d == '_'
  if doubled || s.head? == some '_' || s.getLast? == some '_' then none
  else some (s.filter (· != '_'))

/-- The exponent that closes a numeral; an empty text is the exponent zero. -/
def exponent? : List Char → Option Int
  | [] => some 0
  | c :: s =>
    let (negative, s) := splitSign s
    if (c == 'e' || c == 'E') && !s.isEmpty && s.all Char.isDigit then
      some (if negative then -(value s : Int) else value s)
    else none

/-- An unsigned decimal, with digits on at least one side of the point. -/
def decimal? (s : List Char) : Option Float :=
  let (whole, s) := spanDigits s
  let (fraction, s) := match s with
    | '.' :: s => spanDigits s
    | s => ([], s)
  if whole.isEmpty && fraction.isEmpty then none
  else (exponent? s).map fun e =>
    Double.ofDecimal (value (whole ++ fraction)) (e - fraction.length)

def named? (s : List Char) : Option Float :=
  let s := s.map Char.toLower
  if s == "nan".toList then some (0.0 / 0.0)
  else if s == "inf".toList || s == "infinity".toList then some (1.0 / 0.0)
  else none

/-- The double of a text without blanks and underscores. -/
def plainDouble? (s : List Char) : Option Float := do
  let (negative, s) := splitSign s
  let x ← named? s <|> decimal? s
  return if negative then -x else x

/-- Reads the text of a double. There may be blanks around it or underscores in it, but not
both. -/
def double? (s : List Char) : Option Float :=
  plainDouble? (Text.trim Text.isWhiteSpace s) <|> (ungroup? s >>= plainDouble?)

inductive Unreadable where
  | malformed
  | tooLong
deriving DecidableEq

/-- The natural number of a text that is nothing but its digits, without leading zeros. What
follows too many digits is not looked at. -/
def natural? (s : List Char) : Except Unreadable Nat :=
  match spanDigits s with
  | ([], _) => .error .malformed
  | ('0' :: _ :: _, _) => .error .malformed
  | (ds, rest) =>
    if maxDigits < ds.length then .error .tooLong
    else if rest.isEmpty then .ok (value ds)
    else .error .malformed

def plainInt? : List Char → Except Unreadable Int
  | '-' :: s => (natural? s).map fun n => -(n : Int)
  | s => (natural? s).map fun n => (n : Int)

/-- What is left after leading zeros and the underscores among them, of which `last` is the last
one. A digit or a minus may follow, and so may a point, which keeps the zero before it. -/
def afterZeros? (last : Char) : List Char → Option (List Char)
  | [] => some [last]
  | c :: s =>
    if c == '0' || c == '_' then afterZeros? c s
    else if c.isDigit || c == '-' then some (c :: s)
    else if c == '.' then some (last :: c :: s)
    else none

def dropLeadingZeros? : List Char → Option (List Char)
  | [] => none
  | c :: s => if c == '0' then afterZeros? c s else if c.isDigit then some (c :: s) else none

def dropZeroFraction (s : List Char) : List Char :=
  match s.span (· != '.') with
  | (whole, '.' :: zeros) => if !zeros.isEmpty && zeros.all (· == '0') then whole else s
  | _ => s

/-- Removes from the text of an integer what carries nothing: blanks, a plus, leading zeros, a
fraction of zeros, and underscores between digits. -/
def clean? (s : List Char) : Option (List Char) := do
  let (negative, s) := splitSign (Text.trim Text.isWhiteSpace s)
  let s := dropZeroFraction (← dropLeadingZeros? s)
  let s := (ungroup? s).getD s
  return if negative then '-' :: s else s

/-- Reads the text of an integer. Its length counts only where nothing has to be removed. -/
def int? (s : List Char) : Except Unreadable Int :=
  match plainInt? s with
  | .ok n => .ok n
  | .error .tooLong => .error .tooLong
  | .error .malformed =>
    match clean? s with
    | none => .error .malformed
    | some s => (plainInt? s).mapError fun _ => .malformed

end RateCurve.Decimal
