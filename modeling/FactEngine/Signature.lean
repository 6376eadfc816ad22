import FactEngine.Distinct
import FactEngine.Error
import FactEngine.Text.Alphanumeric
import FactEngine.Text.Blank
import FactEngine.Text.Decimal

/-!
# Relation signatures

A signature such as `M0,T0:M0xT0` lists the columns of a relation and, after a colon, a
variable order. A column is the name of the domain it ranges over and a number that tells
columns over one domain apart; the number is written in ASCII digits and is 0 if there are
none. The order is carried verbatim. Without a colon it is the columns joined by `x`.

`Signature.parse` cuts the text at its first colon and the part before it at every comma,
so an order may hold both. It trims the pieces and the order, and reports the first fault
of the columns, then one of the order. A signature made from columns directly
(`Signature.ofColumns`) is not checked and may print as a text that does not parse.
-/

namespace FactEngine

open Text

/-- A column : the domain it ranges over, and its number among the columns of that domain. -/
structure Column where
  domain : String
  number : UInt32
  deriving DecidableEq

/-- The columns of a relation and their variable order. -/
structure Signature where
  columns : List Column
  order : String
  deriving DecidableEq

namespace Column

/-- The domain name with the number behind it. -/
def text (c : Column) : String :=
  c.domain ++ decimal c.number.toNat

/-- Characters of a domain name. A digit ends the name, so the name holds no ASCII one. -/
def isNameChar (c : Char) : Bool :=
  isAlphanumeric c || c = '_'

/-- The column that a token without blanks around it writes. -/
def parse (token : List Char) : Except SignatureFault Column :=
  let name := token.takeWhile (!isDigit ·)
  let ds := token.dropWhile (!isDigit ·)
  if name = [] then .error (.unnamedColumn (String.ofList token))
  else if !name.all isNameChar then .error (.invalidName (String.ofList token))
  else if ds.all isDigit ∧ value ds < UInt32.size then
    .ok ⟨String.ofList name, UInt32.ofNat (value ds)⟩
  else .error (.invalidInstance (String.ofList token))

end Column

namespace Signature

/-- The order of a signature that gives none. -/
def defaultOrder (columns : List Column) : String :=
  "x".intercalate (columns.map Column.text)

/-- The signature of the columns with their default order. -/
def ofColumns (columns : List Column) : Signature :=
  ⟨columns, defaultOrder columns⟩

/-- The signature of one column, number 1 of the domain, as filters have it. -/
def unary (domain : String) : Signature :=
  ofColumns [⟨domain, 1⟩]

/-- The part of a text before its first colon. -/
def columnPart (cs : List Char) : List Char :=
  cs.takeWhile (· ≠ ':')

/-- The part after the first colon, if there is one. -/
def orderPart (cs : List Char) : Option (List Char) :=
  match cs.dropWhile (· ≠ ':') with
  | [] => none
  | _ :: r => some r

/-- The columns of the part before the colon. -/
def parseColumns (cs : List Char) : Except SignatureFault (List Column) :=
  ((cs.splitOn ',').map trimChars).mapM fun token =>
    if token = [] then .error .emptyColumn else Column.parse token

/-- The signature that the characters write, or what is wrong with them. -/
def parseChars (cs : List Char) : Except SignatureFault Signature :=
  match parseColumns (columnPart cs) with
  | .error fault => .error fault
  | .ok columns =>
    match (orderPart cs).map trimChars with
    | none => .ok (ofColumns columns)
    | some [] => .error .emptyOrder
    | some order => .ok ⟨columns, String.ofList order⟩

/-- The signature that the text writes. -/
def parse (s : String) : Except Error Signature :=
  match parseChars s.toList with
  | .ok sig => .ok sig
  | .error fault => .error (.invalidSignature s fault)

/-- The number of columns. -/
def arity (sig : Signature) : Nat :=
  sig.columns.length

/-- The domain names of the columns, each once, in column order. -/
def domains (sig : Signature) : List String :=
  distinct (sig.columns.map Column.domain)

/-- The columns joined by commas, a colon, and the order. -/
def text (sig : Signature) : String :=
  ",".intercalate (sig.columns.map Column.text) ++ ":" ++ sig.order

end Signature

end FactEngine
