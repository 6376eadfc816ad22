import FactEngine.Text.Unprintable

/-!
# Quoted text

Names in the description of a relation or of a descriptor are written between double
quotes. `quoted` puts a backslash before a quote and a backslash, writes NUL, tab, line
feed and carriage return as two characters, and every other unprintable character as its
code point in lower-case hexadecimal between braces.
-/

namespace FactEngine.Text

/-- A character as it stands in a quoted text. -/
def quotedChar (c : Char) : List Char :=
  if c = '\x00' then ['\\', '0']
  else if c = '\t' then ['\\', 't']
  else if c = '\n' then ['\\', 'n']
  else if c = '\r' then ['\\', 'r']
  else if c = '\\' then ['\\', '\\']
  else if c = '\x22' then ['\\', '\x22']
  else if isUnprintable c then ['\\', 'u', '\x7b'] ++ Nat.toDigits 16 c.toNat ++ ['\x7d']
  else [c]

/-- The text between double quotes. -/
def quoted (s : String) : String :=
  String.ofList (['\x22'] ++ s.toList.flatMap quotedChar ++ ['\x22'])

end FactEngine.Text
