namespace RateCurve.Text

/-- A character of a quoted text: as it stands, or as a code unit of sixteen bits. -/
inductive Unit16 where
  | char (c : Char)
  | code (n : Nat)

/-- A character, or half of a surrogate pair that stands alone. -/
inductive Point where
  | char (c : Char)
  | half (n : Nat)
deriving DecidableEq

def isHigh (n : Nat) : Bool := 0xd800 ≤ n && n < 0xdc00

def isLow (n : Nat) : Bool := 0xdc00 ≤ n && n < 0xe000

def Point.ofCode (n : Nat) : Point :=
  if isHigh n || isLow n then half n else char (Char.ofNat n)

/-- Joins the surrogate pairs of a text. -/
def points : List Unit16 → List Point
  | [] => []
  | .char c :: us => .char c :: points us
  | .code n :: .code m :: us =>
    if isHigh n && isLow m then
      .char (Char.ofNat (0x10000 + (n - 0xd800) * 0x400 + (m - 0xdc00))) :: points us
    else .ofCode n :: points (.code m :: us)
  | .code n :: us => .ofCode n :: points us

def chars? : List Point → Option (List Char)
  | [] => some []
  | .char c :: ps => (c :: ·) <$> chars? ps
  | .half _ :: _ => none

/-- The character to show for a point: the replacement character for half of a pair. -/
def Point.shown : Point → Char
  | char c => c
  | half _ => '\ufffd'

end RateCurve.Text
