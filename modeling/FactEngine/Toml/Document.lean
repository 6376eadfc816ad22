import FactEngine.Toml.Line

/-!
# TOML documents

The lines of a document build a table from the top. A header names the table that the
entries after it go to, and makes it along with the tables around it. A table has at most
one header of its own; it may get it after the headers of tables inside it, but not if it
was made by a dotted key, between braces, or as an array of tables. A header in double
brackets adds an empty table to an array, and headers below it go to the last one.

`parse` reads a text. A byte order mark in front is skipped, and a carriage return before a
line feed belongs to the end of the line.
-/

namespace FactEngine.Toml

/-- Change the table at a path by `f`. Tables on the way are made if they are missing, and
in an array of tables the way goes through the last one. -/
def Table.descend (t : Table) (path : List (List Char)) (f : Table → Option Table) :
    Option Table :=
  match path with
  | [] => f t
  | k :: path =>
    match t.get? k with
    | none => (Table.descend [] path f).map fun sub => t ++ [(k, .table .implicit sub)]
    | some (.table origin sub) =>
      if origin = .inline then none
      else
        (Table.descend sub path f).map fun sub =>
          t.map fun e => if e.1 = k then (k, .table origin sub) else e
    | some (.tables items) =>
      match items.getLast? with
      | some sub =>
        (Table.descend sub path f).map fun sub =>
          t.map fun e => if e.1 = k then (k, .tables (items.dropLast ++ [sub])) else e
      | none => none
    | some _ => none

/-- Give a table its header. -/
def Table.openTable (k : List Char) (t : Table) : Option Table :=
  match t.get? k with
  | none => some (t ++ [(k, .table .header [])])
  | some (.table .implicit sub) =>
    some (t.map fun e => if e.1 = k then (k, .table .header sub) else e)
  | some _ => none

/-- Add an empty table to an array of tables. -/
def Table.addTable (k : List Char) (t : Table) : Option Table :=
  match t.get? k with
  | none => some (t ++ [(k, .tables [[]])])
  | some (.tables items) =>
    some (t.map fun e => if e.1 = k then (k, .tables (items ++ [[]])) else e)
  | some _ => none

/-- The table built so far, and the path of the table that entries go to. -/
structure Document where
  root : Table
  current : List (List Char)

namespace Document

/-- Add a line. -/
def addLine (d : Document) : Line → Option Document
  | .blank => some d
  | .entry path v =>
    (d.root.descend d.current fun t => t.insert true path v).map fun root => { d with root }
  | .header path =>
    match path.getLast? with
    | none => none
    | some k => (d.root.descend path.dropLast (Table.openTable k)).map fun root => ⟨root, path⟩
  | .arrayHeader path =>
    match path.getLast? with
    | none => none
    | some k => (d.root.descend path.dropLast (Table.addTable k)).map fun root => ⟨root, path⟩

/-- The table that the lines build. -/
def ofLines (ls : List Line) : Option Table :=
  (ls.foldlM addLine ⟨[], []⟩).map Document.root

end Document

/-- The text with line feeds for line ends. -/
def plainLines : List Char → List Char
  | '\r' :: '\n' :: r => '\n' :: plainLines r
  | c :: r => c :: plainLines r
  | [] => []

/-- The text without a byte order mark in front. -/
def skipMark : List Char → List Char
  | [] => []
  | c :: r => if c = '\ufeff' then r else c :: r

/-- The table that a text denotes. -/
def parse (s : List Char) : Option Table :=
  (readLines (plainLines (skipMark s))).bind Document.ofLines

end FactEngine.Toml
