import Holdings.Instant.Basic
import Holdings.Text.Blank
import Holdings.Text.Digits
import Holdings.Text.Scan

/-!
# Reading instants

The form of RFC 3339, read liberally: a date, a time and an offset from UTC, as in
`2024-01-02T21:00:00.5+02:00`. Beyond the standard form

* blanks may stand around every part, and the date is divided from the time by `T`, `t` or a blank;
* fields may have fewer digits, and a year with a sign may have more;
* the offset may be `Z`, `z` or `UTC` in any case, and its colon may be absent or repeated;
* of a fraction, nine digits count.

An offset has to be there and to be less than a day. The second 60 is a leap second, in any minute.
-/

namespace Holdings

namespace Instant

/-- A number of at least one and at most `most` digits. -/
def number (most : Nat) : Scan Nat := fun cs =>
  let digits := (cs.take most).takeWhile isDigit
  if digits.isEmpty then none else some (numberOf digits, cs.drop digits.length)

/-- A number of one or two digits after blanks, within bounds. -/
def field (least most : Nat) : Scan Nat := fun cs => do
  let (n, rest) ← number 2 (skipBlanks cs)
  guard (least ≤ n ∧ n ≤ most)
  return (n, rest)

/-- A year: four digits at most, or any number of them after a sign. -/
def year : Scan Int := fun cs =>
  match skipBlanks cs with
  | '-' :: rest => (number rest.length rest).map fun (n, rest) => (-(n : Int), rest)
  | '+' :: rest => (number rest.length rest).map fun (n, rest) => ((n : Int), rest)
  | rest => (number 4 rest).map fun (n, rest) => ((n : Int), rest)

/-- A mark, after blanks. -/
def mark (c : Char) (cs : List Char) : Option (List Char) := afterMark c (skipBlanks cs)

/-- A day of the calendar. -/
def date : Scan Date := fun cs => do
  let (y, cs) ← year cs
  let cs ← mark '-' cs
  let (m, cs) ← field 1 12 cs
  let cs ← mark '-' cs
  let (d, cs) ← field 1 31 cs
  guard (Date.exists? ⟨y, m, d⟩)
  return (⟨y, m, d⟩, cs)

/-- Nanoseconds after a point; none where there is no point. -/
def fraction : Scan Nat := fun cs =>
  match cs with
  | '.' :: rest => do
    let (n, left) ← number 9 rest
    let count := rest.length - left.length
    return (n * Nat.pow 10 (9 - count), left.dropWhile isDigit)
  | _ => some (0, cs)

/-- A time of day: the second of the day and the nanoseconds. -/
def time : Scan (Nat × Nat) := fun cs => do
  let (h, cs) ← field 0 23 cs
  let cs ← mark ':' cs
  let (m, cs) ← field 0 59 cs
  let cs ← mark ':' cs
  let (s, cs) ← field 0 60 cs
  let (nano, cs) ← fraction cs
  let minute := 3600 * h + 60 * m
  if s = 60 then return ((minute + 59, nano + nanosPerSecond), cs)
  else return ((minute + s, nano), cs)

/-- Two digits. -/
def twoDigits : Scan Nat := fun cs =>
  match cs with
  | a :: b :: rest => if isDigit a && isDigit b then some (numberOf [a, b], rest) else none
  | _ => none

/-- Hours and minutes of an offset, in seconds. -/
def offsetSize : Scan Nat := fun cs => do
  let (h, cs) ← twoDigits cs
  let (m, cs) ← twoDigits (cs.dropWhile fun c => c = ':' || isBlank c)
  guard (m < 60)
  return (3600 * h + 60 * m, cs)

/-- An offset from UTC, in seconds ahead of it. -/
def offset : Scan Int := fun cs =>
  match cs with
  | 'Z' :: rest => some (0, rest)
  | 'z' :: rest => some (0, rest)
  | '+' :: rest => (offsetSize rest).map fun (n, rest) => ((n : Int), rest)
  | '-' :: rest => (offsetSize rest).map fun (n, rest) => (-(n : Int), rest)
  | '\u2212' :: rest => (offsetSize rest).map fun (n, rest) => (-(n : Int), rest)
  | _ =>
    if (cs.take 3).map Char.toUpper = ['U', 'T', 'C'] then some (0, cs.drop 3) else none

/-- The mark between a date and a time. -/
def divider (cs : List Char) : Option (List Char) :=
  match cs with
  | c :: rest => if c = 'T' || c = 't' || c = ' ' then some rest else none
  | [] => none

/-- The first and the last year of the calendar. -/
def inCalendar (d : Date) : Bool := -262143 ≤ d.year && d.year ≤ 262142

/-- Reads an instant from the whole of a text. -/
def ofChars? (cs : List Char) : Option Instant := do
  let (d, cs) ← date cs
  guard (inCalendar d)
  let cs ← divider cs
  let ((second, nano), cs) ← time cs
  let (ahead, cs) ← offset (skipBlanks cs)
  guard ((skipBlanks cs).isEmpty ∧ ahead.natAbs < secondsPerDay)
  ofLocal? ⟨d.dayNumber, second, nano⟩ ahead

/-- Reads an instant from a text. -/
def parse? (text : String) : Option Instant := ofChars? text.toList

end Instant

end Holdings
