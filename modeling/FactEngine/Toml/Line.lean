import FactEngine.Toml.Scalar

/-!
# TOML lines

A document is a sequence of lines : a key with its value, a header that opens a table, a
header in double brackets that adds a table to an array, or nothing. Any line may end in a
comment. Arrays and strings in triple quotes run over several lines of text and still belong
to the line they start on.

Every reader gives what it read and the characters behind it. Arrays, tables between braces
and dotted keys are at most `maxDepth` deep, so `readValue` recurs on the depth that is left.
The readers of sequences recur on the number of characters left.
-/

namespace FactEngine.Toml

/-- A line of a document. -/
inductive Line where
  | blank
  | entry (path : List (List Char)) (value : Value)
  | header (path : List (List Char))
  | arrayHeader (path : List (List Char))

/-- The deepest nesting of arrays and tables, and the most parts of a key. -/
def maxDepth : Nat := 79

/-- What follows the blanks within a line. -/
def skipGap (s : List Char) : List Char :=
  s.dropWhile isGap

/-- What follows a comment, if one is there. -/
def skipComment : List Char → List Char
  | [] => []
  | c :: r => if c = '#' then r.dropWhile (!isControl ·) else c :: r

/-- The next line, if nothing but blanks and a comment is left of this one. -/
def endLine (s : List Char) : Option (List Char) :=
  match skipComment (skipGap s) with
  | [] => some []
  | c :: r => if c = '\n' then some r else none

/-! ## Keys -/

/-- Characters of a key without quotes. -/
def isBareChar (c : Char) : Bool :=
  c.isAlphanum || c = '_' || c = '-'

/-- Read one part of a key. -/
def readKey : List Char → Option (List Char × List Char)
  | [] => none
  | c :: r =>
    if c = '\x22' then readBasic .content r
    else if c = '\x27' then readLiteral r
    else if isBareChar c then
      some ((c :: r).takeWhile isBareChar, (c :: r).dropWhile isBareChar)
    else none

/-- Read the parts of a key, with points between them, and the blanks behind it. -/
def readParts (s : List Char) : Option (List (List Char) × List Char) :=
  match readKey (skipGap s) with
  | none => none
  | some (k, r) =>
    match skipGap r with
    | [] => some ([k], [])
    | c :: r =>
      if c = '.' then
        if r.length < s.length then (readParts r).map fun p => (k :: p.1, p.2) else none
      else some ([k], c :: r)
termination_by s.length

/-- Read a key that is not too deep. -/
def readPath (s : List Char) : Option (List (List Char) × List Char) :=
  match readParts s with
  | some (path, r) => if path.length ≤ maxDepth then some (path, r) else none
  | none => none

/-! ## Tables between braces and after headers -/

/-- Put a value at a dotted key of a table. Tables on the way are made, or were made by
dotted keys or by headers of tables inside them; the last one was made by a dotted key, unless
`here` says that the table itself is meant. No key is given twice. -/
def Table.insert (here : Bool) (t : Table) (path : List (List Char)) (v : Value) :
    Option Table :=
  match path with
  | [] => none
  | [k] => if here ∧ (t.get? k).isNone then some (t ++ [(k, v)]) else none
  | k :: path =>
    match t.get? k with
    | none => (Table.insert true [] path v).map fun sub => t ++ [(k, .table .dotted sub)]
    | some (.table origin sub) =>
      if origin = .dotted ∨ origin = .implicit then
        (Table.insert (origin = .dotted) sub path v).map fun sub =>
          t.map fun e => if e.1 = k then (k, .table origin sub) else e
      else none
    | some (.tables items) =>
      match items.getLast? with
      | some sub =>
        (Table.insert false sub path v).map fun sub =>
          t.map fun e => if e.1 = k then (k, .tables (items.dropLast ++ [sub])) else e
      | none => none
    | some _ => none

/-- The table of the members between braces. -/
def Table.ofMembers (members : List (List (List Char) × Value)) : Option Table :=
  members.foldlM (fun t m => t.insert true m.1 m.2) []

/-! ## Values -/

/-- What follows blanks, line feeds and comments. -/
def skipSpace (s : List Char) : List Char :=
  match s with
  | [] => []
  | c :: r =>
    if isGap c ∨ c = '\n' then skipSpace r
    else if c = '#' then skipSpace (r.dropWhile (!isControl ·))
    else c :: r
termination_by s.length
decreasing_by
  · simp
  · have := (List.dropWhile_suffix (!isControl ·) (l := r)).length_le
    simp only [List.length_cons]
    omega

/-- Read the items of an array up to its closing bracket. -/
def readItems (item : List Char → Option (Value × List Char)) (s : List Char) :
    Option (List Value × List Char) :=
  match skipSpace s with
  | [] => none
  | c :: r =>
    if c = ']' then some ([], r)
    else
      match item (c :: r) with
      | none => none
      | some (v, r) =>
        match skipSpace r with
        | [] => none
        | d :: r =>
          if d = ']' then some ([v], r)
          else if d = ',' ∧ r.length < s.length then
            (readItems item r).map fun p => (v :: p.1, p.2)
          else none
termination_by s.length

/-- Read the members of a table up to its closing brace. -/
def readMembers (item : List Char → Option (Value × List Char)) (s : List Char) :
    Option (List (List (List Char) × Value) × List Char) :=
  match readPath s with
  | some (path, '=' :: r) =>
    match item (skipGap r) with
    | none => none
    | some (v, r) =>
      match skipGap r with
      | [] => none
      | d :: r =>
        if d = '\x7d' then some ([(path, v)], r)
        else if d = ',' ∧ r.length < s.length then
          (readMembers item r).map fun p => ((path, v) :: p.1, p.2)
        else none
  | _ => none
termination_by s.length

/-- Read a table up to its closing brace. -/
def readInline (item : List Char → Option (Value × List Char)) (s : List Char) :
    Option (Value × List Char) :=
  match skipGap s with
  | '\x7d' :: r => some (.table .inline [], r)
  | s =>
    match readMembers item s with
    | none => none
    | some (members, r) => (Table.ofMembers members).map fun t => (.table .inline t, r)

/-- Read a value in which arrays and tables are at most `depth` deep. -/
def readValue (depth : Nat) (s : List Char) : Option (Value × List Char) :=
  match s with
  | [] => none
  | c :: r =>
    if c = '\x22' ∨ c = '\x27' then (readString c r).map fun p => (.string p.1, p.2)
    else if c = '[' then
      match depth with
      | 0 => none
      | depth + 1 => (readItems (readValue depth) r).map fun p => (.array p.1, p.2)
    else if c = '\x7b' then
      match depth with
      | 0 => none
      | depth + 1 => readInline (readValue depth) r
    else readScalar (c :: r)

/-! ## Lines -/

/-- Read the key of a header, its closing brackets, and the rest of the line. -/
def readHeader (brackets : List Char) (s : List Char) : Option (List (List Char) × List Char) :=
  match readPath s with
  | none => none
  | some (path, r) =>
    match brackets.isPrefixOf? r with
    | none => none
    | some r => (endLine r).map fun r => (path, r)

/-- Read a line. -/
def readLine (s : List Char) : Option (Line × List Char) :=
  match skipGap s with
  | [] => some (.blank, [])
  | '[' :: '[' :: r => (readHeader [']', ']'] r).map fun p => (.arrayHeader p.1, p.2)
  | '[' :: r => (readHeader [']'] r).map fun p => (.header p.1, p.2)
  | c :: r =>
    if c = '#' ∨ c = '\n' then (endLine (c :: r)).map fun r => (.blank, r)
    else
      match readPath (c :: r) with
      | some (path, '=' :: r) =>
        match readValue maxDepth (skipGap r) with
        | none => none
        | some (v, r) => (endLine r).map fun r => (.entry path v, r)
      | _ => none

/-- Read all lines. -/
def readLines (s : List Char) : Option (List Line) :=
  if s = [] then some []
  else
    match readLine s with
    | none => none
    | some (l, r) =>
      if r.length < s.length then (readLines r).map (l :: ·) else none
termination_by s.length

end FactEngine.Toml
