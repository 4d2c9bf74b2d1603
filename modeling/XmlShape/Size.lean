/-! # Sizes in bytes

A size is shown in bytes or, rounded to one decimal, in the first of four larger units that keeps it
below 1024, or else in the last. Before that it is rounded to 53 significant bits, and it must stay
below 2 to the 1024. A half goes to the even neighbour in both roundings. -/

namespace XmlShape.Size

/-- The integer nearest to `n / d`. -/
def roundDiv (n d : Nat) : Nat :=
  let q := n / d
  let r := n % d
  if 2 * r < d then q
  else if d < 2 * r then q + 1
  else if q % 2 = 0 then q
  else q + 1

/-- The number nearest to `n` that has at most 53 significant bits. -/
def roundToBits (n : Nat) : Nat :=
  if n < Nat.pow 2 53 then n
  else
    let unit := Nat.pow 2 (n.log2 - 52)
    roundDiv n unit * unit

/-- A size that is rounded to this number or more is too large. -/
def limit : Nat :=
  Nat.pow 2 1024

inductive SizeError where
  | tooLarge
deriving DecidableEq

def SizeError.message : SizeError → String
  | tooLarge => "int too large to convert to float"

/-- The number of units in `n` bytes, with one decimal. -/
def decimal (n unit : Nat) : String :=
  let tenths := roundDiv (10 * n) unit
  toString (tenths / 10) ++ "." ++ toString (tenths % 10)

/-- The name and the size of the unit for `n` bytes. -/
def unitFor (n : Nat) : String × Nat :=
  if n < Nat.pow 1024 2 then ("KB", 1024)
  else if n < Nat.pow 1024 3 then ("MB", Nat.pow 1024 2)
  else if n < Nat.pow 1024 4 then ("GB", Nat.pow 1024 3)
  else ("TB", Nat.pow 1024 4)

def render (size : Int) : Except SizeError String :=
  if size < 1024 then .ok (toString size ++ " B")
  else
    let n := roundToBits size.toNat
    if limit ≤ n then .error .tooLarge
    else
      let unit := unitFor n
      .ok (decimal n unit.2 ++ " " ++ unit.1)

end XmlShape.Size
