import FactEngine.Text.Decimal

/-!
# TOML strings

A string stands between double quotes, where a backslash starts an escape, or between single
quotes, where every character stands for itself. Three quotes open and close a string that
may hold line feeds; a line feed right behind the opening quotes is not part of it, and up
to two quotes right before the closing ones are. A backslash at the end of a line of such
a string takes with it the white space up to the next other character.

The readers start behind the opening quotes and give the content with what follows the
closing ones. They run through the characters once, `Pending` telling what the next one
belongs to, and refuse control characters other than the tab, so a carriage return never
stands for itself.
-/

namespace FactEngine.Toml

/-- Control characters that no string or comment holds as they are. -/
def isControl (c : Char) : Bool :=
  (c.toNat < 0x20 && c ≠ '\t') || c.toNat = 0x7f

/-- Spaces and tabs, the blanks within a line. -/
def isGap (c : Char) : Bool :=
  c = ' ' || c = '\t'

/-- The value of a hexadecimal digit. -/
def hexDigit? (c : Char) : Option Nat :=
  if '0' ≤ c ∧ c ≤ '9' then some (c.toNat - '0'.toNat)
  else if 'a' ≤ c ∧ c ≤ 'f' then some (c.toNat - 'a'.toNat + 10)
  else if 'A' ≤ c ∧ c ≤ 'F' then some (c.toNat - 'A'.toNat + 10)
  else none

/-- The character with a number, unless the number is a surrogate or too large. -/
def character? (n : Nat) : Option Char :=
  if n < 0xd800 ∨ (0xdfff < n ∧ n < 0x110000) then some (Char.ofNat n) else none

/-- What the character behind a backslash calls for. -/
inductive Escape where
  | character (c : Char)
  | number (digits : Nat)
  | unknown

/-- The escape that a character behind a backslash starts. -/
def escape (c : Char) : Escape :=
  if c = 'b' then .character '\x08'
  else if c = 't' then .character '\t'
  else if c = 'n' then .character '\n'
  else if c = 'f' then .character '\x0c'
  else if c = 'r' then .character '\r'
  else if c = '\x22' then .character '\x22'
  else if c = '\\' then .character '\\'
  else if c = 'u' then .number 4
  else if c = 'U' then .number 8
  else .unknown

/-- What the next character of a string belongs to. -/
inductive Pending where
  | content
  | backslash
  /-- A number of which `left + 1` hexadecimal digits are missing. -/
  | number (left value : Nat)
  /-- Blanks between a backslash and the end of its line. -/
  | lineEnd
  /-- White space behind a backslash at the end of a line. -/
  | indent

/-- Put a character in front of the content read. -/
def push (c : Char) (r : Option (List Char × List Char)) : Option (List Char × List Char) :=
  r.map fun p => (c :: p.1, p.2)

/-- Read up to a double quote. -/
def readBasic : Pending → List Char → Option (List Char × List Char)
  | _, [] => none
  | .backslash, c :: r =>
    match escape c with
    | .character d => push d (readBasic .content r)
    | .number n => readBasic (.number (n - 1) 0) r
    | .unknown => none
  | .number left n, c :: r =>
    match hexDigit? c with
    | none => none
    | some d =>
      match left with
      | left + 1 => readBasic (.number left (n * 16 + d)) r
      | 0 =>
        match character? (n * 16 + d) with
        | some x => push x (readBasic .content r)
        | none => none
  | _, c :: r =>
    if c = '\x22' then some ([], r)
    else if c = '\\' then readBasic .backslash r
    else if isControl c then none
    else push c (readBasic .content r)

/-- Read up to a single quote. -/
def readLiteral : List Char → Option (List Char × List Char)
  | [] => none
  | c :: r =>
    if c = '\x27' then some ([], r)
    else if isControl c then none
    else push c (readLiteral r)

/-- The quotes behind three of them that are still content, with what follows. -/
def closing (quote : Char) : List Char → List Char × List Char
  | a :: b :: r =>
    if a = quote then if b = quote then ([a, b], r) else ([a], b :: r) else ([], a :: b :: r)
  | [a] => if a = quote then ([a], []) else ([], [a])
  | [] => ([], [])

/-- What follows two quotes, if they are there. -/
def twoQuotes (quote : Char) : List Char → Option (List Char)
  | a :: b :: r => if a = quote ∧ b = quote then some r else none
  | _ => none

/-- Read up to three double quotes. -/
def readLongBasic : Pending → List Char → Option (List Char × List Char)
  | _, [] => none
  | .backslash, c :: r =>
    if c = '\n' then readLongBasic .indent r
    else if isGap c then readLongBasic .lineEnd r
    else
      match escape c with
      | .character d => push d (readLongBasic .content r)
      | .number n => readLongBasic (.number (n - 1) 0) r
      | .unknown => none
  | .number left n, c :: r =>
    match hexDigit? c with
    | none => none
    | some d =>
      match left with
      | left + 1 => readLongBasic (.number left (n * 16 + d)) r
      | 0 =>
        match character? (n * 16 + d) with
        | some x => push x (readLongBasic .content r)
        | none => none
  | .lineEnd, c :: r =>
    if c = '\n' then readLongBasic .indent r
    else if isGap c then readLongBasic .lineEnd r
    else none
  | p, c :: r =>
    if p matches .indent ∧ (c = '\n' ∨ isGap c) then readLongBasic .indent r
    else if c = '\x22' then
      match twoQuotes c r with
      | some r => some (closing c r)
      | none => push c (readLongBasic .content r)
    else if c = '\\' then readLongBasic .backslash r
    else if isControl c ∧ c ≠ '\n' then none
    else push c (readLongBasic .content r)

/-- Read up to three single quotes. -/
def readLongLiteral : List Char → Option (List Char × List Char)
  | [] => none
  | c :: r =>
    if c = '\x27' then
      match twoQuotes c r with
      | some r => some (closing c r)
      | none => push c (readLongLiteral r)
    else if isControl c ∧ c ≠ '\n' then none
    else push c (readLongLiteral r)

/-- What follows a line feed, if there is one. -/
def skipLineFeed : List Char → List Char
  | [] => []
  | c :: r => if c = '\n' then r else c :: r

/-- Read the string of either kind of quotes that starts with `quote`, which is past. -/
def readString (quote : Char) (s : List Char) : Option (List Char × List Char) :=
  match twoQuotes quote s with
  | some r =>
    if quote = '\x22' then readLongBasic .content (skipLineFeed r)
    else readLongLiteral (skipLineFeed r)
  | none => if quote = '\x22' then readBasic .content s else readLiteral s

end FactEngine.Toml
