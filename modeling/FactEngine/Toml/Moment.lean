import FactEngine.Text.Decimal

/-!
# TOML dates and times

A moment is a date, a time of day, or a date with a time of day, which may come with its
offset from universal time. Dates are those of the calendar, a minute may have a second 60,
and a second is counted to the billionth, further digits being dropped.

`Moment.read?` reads a moment and `Moment.write` writes it in one form only : a capital
`T` between date and time, a capital `Z` for universal time, and no zeros at the end of the
fraction of a second. An offset of no minutes is written `+00:00` whatever its sign was, and
stays apart from universal time.

A date and a time may also stand apart by one space; what is behind the space is then read by
`Moment.withTime?`.
-/

namespace FactEngine.Toml

open Text

/-! ## Moments -/

/-- A day of the calendar. -/
structure Date where
  year : Nat
  month : Nat
  day : Nat
  deriving DecidableEq

/-- A time of day. -/
structure TimeOfDay where
  hour : Nat
  minute : Nat
  second : Nat
  nanosecond : Nat
  deriving DecidableEq

/-- How a time of day relates to universal time. -/
inductive Offset where
  | universal
  /-- So many minutes ahead of universal time. -/
  | ahead (minutes : Int)
  deriving DecidableEq

/-- A date, a time, or both. -/
inductive Moment where
  | date (d : Date)
  | time (t : TimeOfDay)
  | dateTime (d : Date) (t : TimeOfDay) (offset : Option Offset)
  deriving DecidableEq

/-! ## Reading -/

/-- A number of two digits, and what follows. -/
def twoDigits : List Char → Option (Nat × List Char)
  | a :: b :: r => if isDigit a && isDigit b then some (value [a, b], r) else none
  | _ => none

/-- What follows an expected character. -/
def expect (x : Char) : List Char → Option (List Char)
  | [] => none
  | c :: r => if c = x then some r else none

/-- The days of a month. -/
def daysOf (year month : Nat) : Nat :=
  if month = 2 then
    if year % 4 = 0 ∧ (year % 100 ≠ 0 ∨ year % 400 = 0) then 29 else 28
  else if month = 4 ∨ month = 6 ∨ month = 9 ∨ month = 11 then 30
  else 31

/-- Read a date. -/
def Date.read? (cs : List Char) : Option (Date × List Char) := do
  let (century, r) ← twoDigits cs
  let (y, r) ← twoDigits r
  let r ← expect '-' r
  let (month, r) ← twoDigits r
  let r ← expect '-' r
  let (day, r) ← twoDigits r
  let year := century * 100 + y
  if 1 ≤ month ∧ month ≤ 12 ∧ 1 ≤ day ∧ day ≤ daysOf year month then
    some (⟨year, month, day⟩, r)
  else none

/-- The nanoseconds that the digits behind the point of a second write. -/
def nanosecondsOf (ds : List Char) : Nat :=
  value ((ds ++ List.replicate 9 '0').take 9)

/-- Read the fraction of a second, nothing if there is no point. -/
def fractionOfSecond? : List Char → Option (Nat × List Char)
  | [] => some (0, [])
  | c :: r =>
    if c ≠ '.' then some (0, c :: r)
    else
      match r.takeWhile isDigit with
      | [] => none
      | ds => some (nanosecondsOf ds, r.dropWhile isDigit)

/-- Read a time of day. -/
def TimeOfDay.read? (cs : List Char) : Option (TimeOfDay × List Char) := do
  let (hour, r) ← twoDigits cs
  let r ← expect ':' r
  let (minute, r) ← twoDigits r
  let r ← expect ':' r
  let (second, r) ← twoDigits r
  let (nanosecond, r) ← fractionOfSecond? r
  if hour ≤ 23 ∧ minute ≤ 59 ∧ second ≤ 60 then some (⟨hour, minute, second, nanosecond⟩, r)
  else none

/-- The hours and minutes behind the sign of an offset, in minutes. -/
def distance? (cs : List Char) : Option Nat := do
  let (hour, r) ← twoDigits cs
  let r ← expect ':' r
  let (minute, r) ← twoDigits r
  if hour ≤ 23 ∧ minute ≤ 59 ∧ r = [] then some (hour * 60 + minute) else none

/-- Read an offset, with nothing behind it. -/
def Offset.read? : List Char → Option Offset
  | [] => none
  | c :: r =>
    if (c = 'Z' ∨ c = 'z') ∧ r = [] then some .universal
    else if c = '+' then (distance? r).map fun n => .ahead n
    else if c = '-' then (distance? r).map fun n => .ahead (-n)
    else none

namespace Moment

/-- The moment of a date and the time that the characters write, with or without an
offset. -/
def withTime? (d : Date) (cs : List Char) : Option Moment :=
  match TimeOfDay.read? cs with
  | none => none
  | some (t, []) => some (.dateTime d t none)
  | some (t, r) => (Offset.read? r).map fun o => .dateTime d t (some o)

/-- The moment that a word writes. -/
def read? (cs : List Char) : Option Moment :=
  match Date.read? cs with
  | some (d, []) => some (.date d)
  | some (d, c :: r) => if c = 'T' ∨ c = 't' then withTime? d r else none
  | none =>
    match TimeOfDay.read? cs with
    | some (t, []) => some (.time t)
    | _ => none

end Moment

/-! ## Writing -/

/-- A number with at least `width` digits. -/
def padded (width n : Nat) : List Char :=
  (digits n).leftpad width '0'

/-- The date, with a year of four digits. -/
def Date.write (d : Date) : List Char :=
  padded 4 d.year ++ '-' :: padded 2 d.month ++ '-' :: padded 2 d.day

/-- The fraction of a second with its point, nothing if there is none. -/
def writeFraction (n : Nat) : List Char :=
  if n = 0 then [] else '.' :: ((padded 9 n).reverse.dropWhile (· = '0')).reverse

/-- The time of day. -/
def TimeOfDay.write (t : TimeOfDay) : List Char :=
  padded 2 t.hour ++ ':' :: padded 2 t.minute ++ ':' :: padded 2 t.second ++
    writeFraction t.nanosecond

/-- The offset. -/
def Offset.write : Offset → List Char
  | universal => ['Z']
  | ahead n =>
    (if n < 0 then '-' else '+') :: padded 2 (n.natAbs / 60) ++ ':' :: padded 2 (n.natAbs % 60)

/-- The moment in its one form. -/
def Moment.write : Moment → List Char
  | date d => d.write
  | time t => t.write
  | dateTime d t none => d.write ++ 'T' :: t.write
  | dateTime d t (some o) => d.write ++ 'T' :: t.write ++ o.write

end FactEngine.Toml
