import Holdings.Instant.Basic

/-!
# Writing instants

`Instant.stamp` is the form of RFC 3339 in UTC, `2024-01-02T21:00:00.500Z`, and `Instant.display` the
one for messages, `2024-01-02 21:00:00.500 UTC`. Both give the fraction in thousandths, millionths
or thousand-millionths, the coarsest of them that is exact, and leave out one that is zero. A year
outside 0 to 9999 carries its sign.
-/

namespace Holdings

namespace Instant

/-- A number with zeros in front, up to a width. -/
def padded (width n : Nat) : String :=
  let figures := Nat.toDigits 10 n
  String.ofList (List.replicate (width - figures.length) '0' ++ figures)

/-- A year in four digits, or more; with its sign outside 0 to 9999. -/
def yearText (y : Int) : String :=
  if 0 ≤ y ∧ y ≤ 9999 then padded 4 y.toNat
  else (if y < 0 then "-" else "+") ++ padded 4 y.natAbs

/-- The calendar day. -/
def dateText (i : Instant) : String :=
  let d := Date.ofDayNumber i.day
  yearText d.year ++ "-" ++ padded 2 d.month ++ "-" ++ padded 2 d.day

/-- The fraction of a second, with its point. -/
def fractionText (nano : Nat) : String :=
  if nano = 0 then ""
  else if nano % 1000000 = 0 then "." ++ padded 3 (nano / 1000000)
  else if nano % 1000 = 0 then "." ++ padded 6 (nano / 1000)
  else "." ++ padded 9 nano

/-- The time of day. The seconds of a leap second go on to 60. -/
def timeText (i : Instant) : String :=
  let leap := nanosPerSecond ≤ i.nano
  let second := i.second % 60 + (if leap then 1 else 0)
  let nano := if leap then i.nano - nanosPerSecond else i.nano
  padded 2 (i.second / 3600) ++ ":" ++ padded 2 (i.second / 60 % 60) ++ ":" ++ padded 2 second
    ++ fractionText nano

/-- The form of RFC 3339. -/
def stamp (i : Instant) : String := i.dateText ++ "T" ++ i.timeText ++ "Z"

/-- The form for messages. -/
def display (i : Instant) : String := i.dateText ++ " " ++ i.timeText ++ " UTC"

end Instant

end Holdings
