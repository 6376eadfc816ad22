import FactEngine.Text.Decimal
import FactEngine.Toml.Quote
import FactEngine.Toml.Value

/-!
# TOML words

A value that is neither quoted nor between brackets is a word of letters, digits and the
characters `+`, `-`, `_`, `.` and `:`. Only a date and a time may stand apart, by one space.
`scalar?` decides what a word is.

Integers are decimal, hexadecimal, octal or binary and fit 64 bits with a sign. A decimal
one has no leading zeros, and an underscore stands between two digits only. A positive
float that would round to infinity is refused.
-/

namespace FactEngine.Toml

open Text

/-- Characters of a word. -/
def isWordChar (c : Char) : Bool :=
  c.isAlphanum || c = '+' || c = '-' || c = '_' || c = '.' || c = ':'

/-- The digits without underscores, each of which stands between two digits. -/
def ungroup (isDigit : Char → Bool) : List Char → Option (List Char)
  | [] => none
  | [c] => if isDigit c then some [c] else none
  | c :: d :: r =>
    if !isDigit c then none
    else if d = '_' then (ungroup isDigit r).map (c :: ·)
    else (ungroup isDigit (d :: r)).map (c :: ·)

/-- The sign of a number, negative or not, and what follows. -/
def sign : List Char → Bool × List Char
  | [] => (false, [])
  | c :: r => if c = '-' then (true, r) else if c = '+' then (false, r) else (false, c :: r)

/-- Decimal digits without leading zeros. -/
def wholePart (cs : List Char) : Option (List Char) :=
  match ungroup isDigit cs with
  | some (c :: d :: ds) => if c = '0' then none else some (c :: d :: ds)
  | r => r

/-- An integer within 64 bits. -/
def inRange (n : Int) : Option Int :=
  if -0x8000000000000000 ≤ n ∧ n < 0x8000000000000000 then some n else none

/-- The value of a hexadecimal digit, 0 for other characters. -/
def hexValue (c : Char) : Nat :=
  (hexDigit? c).getD 0

/-- The integer that a word writes. -/
def integer? (cs : List Char) : Option Int :=
  match cs with
  | '0' :: 'x' :: r =>
    (ungroup (fun c => (hexDigit? c).isSome) r).bind fun ds => inRange (valueIn 16 hexValue ds)
  | '0' :: 'o' :: r =>
    (ungroup (fun c => '0' ≤ c && c ≤ '7') r).bind fun ds => inRange (valueIn 8 digitValue ds)
  | '0' :: 'b' :: r =>
    (ungroup (fun c => c = '0' || c = '1') r).bind fun ds => inRange (valueIn 2 digitValue ds)
  | cs =>
    (wholePart (sign cs).2).bind fun ds =>
      inRange (if (sign cs).1 then -(value ds : Int) else value ds)

/-! ## Floats -/

/-- Whether the number with these digits and this power of ten rounds to infinity : it is
at least halfway between the largest float of 64 bits and the next power of two. The length
of the number decides unless it has 309 digits. -/
def roundsToInfinity (ds : List Char) (exponent : Int) : Bool :=
  let ds := ds.dropWhile (· = '0')
  let length : Int := ds.length + exponent
  let bound := Nat.pow 2 1024 - Nat.pow 2 970
  if ds = [] ∨ length < 309 then false
  else if 309 < length then true
  else if 0 ≤ exponent then bound ≤ value ds * Nat.pow 10 exponent.toNat
  else bound * Nat.pow 10 (-exponent).toNat ≤ value ds

/-- The exponent of a float, 0 if it has none. -/
def exponent? : List Char → Option Int
  | [] => some 0
  | _ :: r =>
    (ungroup isDigit (sign r).2).map fun ds =>
      if (sign r).1 then -(value ds : Int) else value ds

/-- The digits behind the point of a float, none if it has no point. -/
def fraction? : List Char → Option (List Char)
  | [] => some []
  | _ :: r => ungroup isDigit r

/-- Whether a word is a float. -/
def isFloat (cs : List Char) : Bool :=
  let body := (sign cs).2
  if body = ['i', 'n', 'f'] ∨ body = ['n', 'a', 'n'] then true
  else
    let isMark (c : Char) : Bool := c = 'e' || c = 'E'
    let mantissa := body.takeWhile (!isMark ·)
    let tail := body.dropWhile (!isMark ·)
    let point := mantissa.dropWhile (· ≠ '.')
    match wholePart (mantissa.takeWhile (· ≠ '.')), fraction? point, exponent? tail with
    | some whole, some fraction, some e =>
      !(point = [] && tail = []) &&
        ((sign cs).1 || !roundsToInfinity (whole ++ fraction) (e - fraction.length))
    | _, _, _ => false

/-! ## Words -/

/-- The value that a word writes. -/
def scalar? (cs : List Char) : Option Value :=
  if cs = ['t', 'r', 'u', 'e'] then some (.boolean true)
  else if cs = ['f', 'a', 'l', 's', 'e'] then some (.boolean false)
  else
    match Moment.read? cs with
    | some m => some (.moment m)
    | none => if isFloat cs then some (.float cs) else (integer? cs).map .integer

/-- Read a word, or a date and a time with a space between them. -/
def readScalar (s : List Char) : Option (Value × List Char) :=
  let word := s.takeWhile isWordChar
  let rest := s.dropWhile isWordChar
  match Moment.read? word, rest with
  | some (.date d), ' ' :: c :: r =>
    if isDigit c then
      (Moment.withTime? d ((c :: r).takeWhile isWordChar)).map fun m =>
        (.moment m, (c :: r).dropWhile isWordChar)
    else some (.moment (.date d), rest)
  | _, _ => (scalar? word).map fun v => (v, rest)

end FactEngine.Toml
