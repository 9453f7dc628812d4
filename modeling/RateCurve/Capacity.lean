namespace RateCurve

/-- The machine that the program runs on. It has room for a page at least, and no more than
addresses of 56 bits tell apart. -/
class Machine where
  /-- The memory there is, in bytes. -/
  memory : Nat
  page_le : 4096 ≤ memory := by decide
  memory_le : memory ≤ Nat.pow 2 56 := by decide

/-- A machine with four gibibytes. -/
instance Machine.standard : Machine where
  memory := Nat.pow 2 32

inductive CapacityError where
  | uncountable
  | outOfMemory
deriving DecidableEq

/-- Makes room for `n` things of a size in bytes. Where `n` is negative there is nothing to make
room for, but it has to fit into 64 bits as well. -/
def Capacity.makeRoom [Machine] (size : Nat) (n : Int) : Except CapacityError Unit :=
  if n < -Int.pow 2 63 ∨ Int.pow 2 63 ≤ n then .error .uncountable
  else if Machine.memory < n * size then .error .outOfMemory
  else .ok ()

end RateCurve
