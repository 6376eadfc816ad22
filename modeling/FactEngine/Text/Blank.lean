/-!
# White space and trimming

A list of names, a variable order and a number in an environment variable may all be
written with white space around them. `isBlank` is the Unicode property White_Space, 25
characters and the same set since Unicode 6.3, so the zero-width space U+200B and the
byte order mark U+FEFF are not blank. `trim` removes the blank characters at both ends
of a text and no others.
-/

namespace FactEngine.Text

/-- The property White_Space. -/
def isBlank (c : Char) : Bool :=
  c = ' ' || ('\t' ≤ c && c ≤ '\r') || c = '\u0085' || c = '\u00a0' || c = '\u1680' ||
    ('\u2000' ≤ c && c ≤ '\u200a') || c = '\u2028' || c = '\u2029' || c = '\u202f' ||
    c = '\u205f' || c = '\u3000'

/-- The characters without the blank ones at either end. -/
def trimChars (cs : List Char) : List Char :=
  ((cs.dropWhile isBlank).reverse.dropWhile isBlank).reverse

/-- The text without the blank characters at either end. -/
def trim (s : String) : String :=
  String.ofList (trimChars s.toList)

@[simp] theorem toList_trim (s : String) : (trim s).toList = trimChars s.toList := by
  simp [trim]

end FactEngine.Text
