/-!
# Decimal numbers

`digits` writes a number in decimal without leading zeros, and `value` reads a list of
digits, leading zeros allowed. Both go by lists of characters, which is what the readers
of signatures and configuration files hold.
-/

namespace FactEngine.Text

/-- The ASCII digits, the only ones that number a column or a verbosity. -/
def isDigit (c : Char) : Bool :=
  '0' ≤ c && c ≤ '9'

/-- The value of a digit; other characters count from the same origin. -/
def digitValue (c : Char) : Nat :=
  c.toNat - '0'.toNat

/-- The digit of a number below ten. -/
def digitOf (n : Nat) : Char :=
  Char.ofNat ('0'.toNat + n)

/-- The decimal digits of `n`, most significant first. -/
def digits (n : Nat) : List Char :=
  if n < 10 then [digitOf n] else digits (n / 10) ++ [digitOf (n % 10)]
termination_by n
decreasing_by omega

/-- The number that the digits write in the given base. -/
def valueIn (base : Nat) (digit : Char → Nat) (cs : List Char) : Nat :=
  cs.foldl (fun n c => n * base + digit c) 0

/-- The number that the decimal digits write. -/
def value (cs : List Char) : Nat :=
  valueIn 10 digitValue cs

/-- The number in decimal. -/
def decimal (n : Nat) : String :=
  String.ofList (digits n)

/-- A number with an optional plus sign and one or more digits. -/
def number? (cs : List Char) : Option Nat :=
  let ds := match cs with
    | '+' :: r => r
    | r => r
  if ds ≠ [] ∧ ds.all isDigit then some (value ds) else none

end FactEngine.Text
