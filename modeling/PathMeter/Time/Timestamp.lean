import PathMeter.Decimal.Natural
import PathMeter.Text.Blank
import PathMeter.Text.Case
import PathMeter.Time.Calendar

/-!
# Instants of the wall clock

When a run started is told in universal time, to the nanosecond, in the text
form of RFC 3339.  Writing shows no more of the fraction than is needed, in
groups of three digits.  Reading takes any offset and moves the instant to
universal time; it is generous about blanks and about leading zeros, but not
about days that the calendar does not have.

A leap second is the second before it with a thousand million nanoseconds
more, so the sixtieth second of a minute has a value of its own.
-/

namespace PathMeter.Time

/-- An instant in universal time. -/
structure Timestamp where
  /-- Whole seconds since the start of 1970. -/
  seconds : Int
  /-- Nanoseconds into the second; in a leap second a thousand million more. -/
  nanos : Nat
  deriving DecidableEq, Repr, Inhabited

/-- Seconds of a day. -/
def daySeconds : Int := 86400

/-- Nanoseconds of a second. -/
def secondNanos : Nat := 1000000000

namespace Timestamp

/-- The day of an instant. -/
def date (t : Timestamp) : Date :=
  Date.ofDays (t.seconds.fdiv daySeconds)

/-- Seconds since midnight. -/
def secondOfDay (t : Timestamp) : Nat :=
  (t.seconds.fmod daySeconds).toNat

/-- The second of the minute as it is shown: a leap second is the sixtieth. -/
def shownSecond (t : Timestamp) : Nat :=
  t.secondOfDay % 60 + t.nanos / secondNanos

/-- A year in four digits, with a sign where they do not suffice. -/
def yearText (year : Int) : List Char :=
  if year < 0 then '-' :: Decimal.padded 4 year.natAbs
  else if year ≤ 9999 then Decimal.padded 4 year.natAbs
  else '+' :: Decimal.padded 4 year.natAbs

/-- Year, month and day with hyphens between. -/
def dateText (t : Timestamp) : List Char :=
  let d := t.date
  yearText d.year ++ '-' :: Decimal.padded 2 d.month ++ '-' :: Decimal.padded 2 d.day

/-- Hour, minute and second with colons between. -/
def clockText (t : Timestamp) : List Char :=
  let s := t.secondOfDay
  Decimal.padded 2 (s / 3600) ++ ':' :: Decimal.padded 2 (s / 60 % 60) ++
    ':' :: Decimal.padded 2 t.shownSecond

/-- The fraction of the second in the least of three, six or nine digits that
suffices, or nothing. -/
def fractionText (t : Timestamp) : List Char :=
  let n := t.nanos % secondNanos
  if n = 0 then []
  else if n % 1000000 = 0 then '.' :: Decimal.padded 3 (n / 1000000)
  else if n % 1000 = 0 then '.' :: Decimal.padded 6 (n / 1000)
  else '.' :: Decimal.padded 9 n

/-- The text of an instant. -/
def text (t : Timestamp) : List Char :=
  t.dateText ++ 'T' :: t.clockText ++ t.fractionText ++ ['Z']

/-! ## Reading -/

/-- Reads one to `most` digits, after blanks. -/
def number? (most : Nat) (s : List Char) : Option (Nat × List Char) :=
  let s := Text.trimStart s
  let ds := (s.takeWhile Decimal.isDigit).take most
  if ds = [] then none else some (Decimal.value ds, s.drop ds.length)

/-- Reads a given character, after blanks. -/
def mark? (c : Char) (s : List Char) : Option (List Char) :=
  match Text.trimStart s with
  | d :: rest => if d = c then some rest else none
  | [] => none

/-- Reads a year: up to four digits, or after a sign any number of them. -/
def year? (s : List Char) : Option (Int × List Char) :=
  let digitsAhead (s : List Char) : Option (Nat × List Char) :=
    let ds := s.takeWhile Decimal.isDigit
    if ds = [] then none else some (Decimal.value ds, s.drop ds.length)
  match Text.trimStart s with
  | '-' :: rest => (digitsAhead rest).map fun (n, rest) => (-(n : Int), rest)
  | '+' :: rest => (digitsAhead rest).map fun (n, rest) => ((n : Int), rest)
  | s => (number? 4 s).map fun (n, rest) => ((n : Int), rest)

/-- Reads a day and the character that divides it from the time. -/
def date? (s : List Char) : Option (Date × List Char) := do
  let (year, s) ← year? s
  let s ← mark? '-' s
  let (month, s) ← number? 2 s
  let s ← mark? '-' s
  let (day, s) ← number? 2 s
  match s with
  | c :: s => if c = 'T' ∨ c = 't' ∨ c = ' ' then some (⟨year, month, day⟩, s) else none
  | [] => none

/-- Reads a fraction of a second in nanoseconds, if there is one; digits after
the ninth do not count. -/
def fraction? (s : List Char) : Option (Nat × List Char) :=
  match s with
  | '.' :: rest =>
    let ds := rest.takeWhile Decimal.isDigit
    if ds = [] then none
    else
      let kept := ds.take 9
      some (Decimal.value kept * Nat.pow 10 (9 - kept.length), rest.drop ds.length)
  | s => some (0, s)

/-- Reads a time of day: seconds since midnight and nanoseconds. -/
def clock? (s : List Char) : Option ((Nat × Nat) × List Char) := do
  let (hour, s) ← number? 2 s
  let s ← mark? ':' s
  let (minute, s) ← number? 2 s
  let s ← mark? ':' s
  let (second, s) ← number? 2 s
  let (nanos, s) ← fraction? s
  if hour < 24 ∧ minute < 60 ∧ second ≤ 60 then
    let leap := second / 60
    some ((hour * 3600 + minute * 60 + (second - leap), nanos + leap * secondNanos), s)
  else none

/-- Reads two digits as a number. -/
def twoDigits? : List Char → Option (Nat × List Char)
  | a :: b :: rest =>
    if Decimal.isDigit a ∧ Decimal.isDigit b then some (Decimal.value [a, b], rest) else none
  | _ => none

/-- Reads an offset from universal time in seconds: `Z`, `UTC`, or a sign and
hours and minutes, which colons and blanks may divide. -/
def offset? (s : List Char) : Option (Int × List Char) :=
  let signed (sign : Int) (s : List Char) : Option (Int × List Char) := do
    let (hours, s) ← twoDigits? s
    let (minutes, s) ← twoDigits? (s.dropWhile fun c => c = ':' || Text.isBlank c)
    if hours < 24 ∧ minutes < 60 then some (sign * (hours * 3600 + minutes * 60 : Nat), s)
    else none
  match Text.trimStart s with
  | '+' :: s => signed 1 s
  | '-' :: s => signed (-1) s
  | '\u2212' :: s => signed (-1) s
  | a :: b :: c :: s =>
    if a = 'Z' ∨ a = 'z' then some (0, b :: c :: s)
    else if [a, b, c].map Text.lower = ['u', 't', 'c'] then some (0, s)
    else none
  | a :: s => if a = 'Z' ∨ a = 'z' then some (0, s) else none
  | [] => none

/-- Whether a year is one of those that instants are kept for. -/
def yearInRange (year : Int) : Bool :=
  -262143 ≤ year && year ≤ 262142

/-- Reads an instant. -/
def ofText? (s : List Char) : Option Timestamp := do
  let (date, s) ← date? s
  let ((second, nanos), s) ← clock? s
  let (offset, s) ← offset? s
  if Text.trimStart s = [] ∧ date.isValid ∧ yearInRange date.year then
    let t : Timestamp := ⟨date.toDays * daySeconds + second - offset, nanos⟩
    if yearInRange t.date.year then some t else none
  else none

end Timestamp

end PathMeter.Time
