import FactEngine.Text.Decimal
import FactEngine.Toml.Line

/-!
# Writing TOML keys and strings

A string has several written forms, and the writer takes the plainest one that shows it. A
key is bare if it can be; otherwise it is quoted like a string of one line.

Between double quotes, tabs and control characters are always escaped. In the long form a
line feed stands for itself, and so do quotes, except that of three in a row the third is
escaped. A long form of a text with line feeds starts on the next line.
-/

namespace FactEngine.Toml

open Text

/-- A hexadecimal digit in upper case. -/
def hexDigitOf (n : Nat) : Char :=
  if n < 10 then Char.ofNat ('0'.toNat + n) else Char.ofNat ('A'.toNat + (n - 10))

/-- A control character by its number. -/
def numbered (c : Char) : List Char :=
  ['\\', 'u', '0', '0', hexDigitOf (c.toNat / 16), hexDigitOf (c.toNat % 16)]

/-- A character between double quotes. -/
def escaped (c : Char) : List Char :=
  if c = '\x08' then ['\\', 'b']
  else if c = '\t' then ['\\', 't']
  else if c = '\n' then ['\\', 'n']
  else if c = '\x0c' then ['\\', 'f']
  else if c = '\r' then ['\\', 'r']
  else if c = '\x22' then ['\\', '\x22']
  else if c = '\\' then ['\\', '\\']
  else if isControl c then numbered c
  else [c]

/-- Characters between triple double quotes, after `quotes` quotes that stand for
themselves. -/
def escapedLong (quotes : Nat) : List Char → List Char
  | [] => []
  | c :: r =>
    if c = '\x22' then
      if quotes = 2 then '\\' :: c :: escapedLong 0 r else c :: escapedLong (quotes + 1) r
    else if c = '\n' then c :: escapedLong 0 r
    else escaped c ++ escapedLong 0 r

/-- Whether a character occurs three times in a row. -/
def hasTriple (q : Char) : List Char → Bool
  | a :: b :: c :: r => (a = q && b = q && c = q) || hasTriple q (b :: c :: r)
  | _ => false

/-- The written forms of a string. -/
inductive Form where
  | basic
  | literal
  | longBasic
  | longLiteral
  deriving DecidableEq

/-- A line feed in front of a long form that holds one. -/
def leadingLineFeed (s : List Char) : List Char :=
  if '\n' ∈ s then ['\n'] else []

/-- A string in one of its forms. -/
def Form.write (s : List Char) : Form → List Char
  | basic => '\x22' :: s.flatMap escaped ++ ['\x22']
  | literal => '\x27' :: s ++ ['\x27']
  | longBasic =>
    ['\x22', '\x22', '\x22'] ++ leadingLineFeed s ++ escapedLong 0 s ++ ['\x22', '\x22', '\x22']
  | longLiteral =>
    ['\x27', '\x27', '\x27'] ++ leadingLineFeed s ++ s ++ ['\x27', '\x27', '\x27']

/-- Whether a text has a control character other than tab and line feed. -/
def hasControl (s : List Char) : Bool :=
  s.any fun c => isControl c && c ≠ '\n'

/-- The plainest form that shows a text. -/
def formOf (s : List Char) : Form :=
  if !hasControl s ∧ '\\' ∉ s ∧ '\x22' ∉ s ∧ '\n' ∉ s then .basic
  else if !hasControl s ∧ '\x27' ∉ s ∧ '\n' ∉ s then .literal
  else if !hasControl s ∧ '\\' ∉ s ∧ !hasTriple '\x22' s then .longBasic
  else if !hasControl s ∧ !hasTriple '\x27' s then .longLiteral
  else if '\n' ∈ s then .longBasic
  else .basic

/-- A string. -/
def writeString (s : List Char) : List Char :=
  (formOf s).write s

/-- A key. -/
def writeKey (s : List Char) : List Char :=
  if s ≠ [] ∧ s.all isBareChar then s
  else if !s.any isControl ∧ '\\' ∉ s ∧ '\x22' ∉ s then Form.basic.write s
  else if !s.any isControl ∧ '\x27' ∉ s then Form.literal.write s
  else Form.basic.write s

/-- The line of a key and a value that is written already. -/
def writeEntry (key value : List Char) : List Char :=
  writeKey key ++ [' ', '=', ' '] ++ value ++ ['\n']

end FactEngine.Toml
