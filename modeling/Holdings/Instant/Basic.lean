import Holdings.Instant.Calendar

/-!
# Instants: points of time in UTC

An `Instant` is a day, a second of that day and a number of nanoseconds. A leap second is the second
before it with a thousand million nanoseconds more, so that instants are ordered by day, second and
nanosecond in turn.
-/

namespace Holdings

/-- A point of time in UTC. -/
structure Instant where
  /-- days since the first of January 1970 -/
  day : Int
  /-- the second of the day, below 86 400 -/
  second : Nat
  /-- nanoseconds; a thousand million or more within a leap second -/
  nano : Nat
deriving DecidableEq

namespace Instant

/-- Seconds in a day. -/
def secondsPerDay : Nat := 86400

/-- Nanoseconds in a second. -/
def nanosPerSecond : Nat := 1000000000

/-- Earlier by day, then by second, then by nanosecond. -/
def before (a b : Instant) : Bool :=
  a.day < b.day ||
    (a.day = b.day && (a.second < b.second || (a.second = b.second && a.nano < b.nano)))

/-- The first and the last day that an instant may lie on: the years from −262 143 to 262 142. -/
def firstDay : Int := Date.dayNumber ⟨-262143, 1, 1⟩

@[inherit_doc firstDay]
def lastDay : Int := Date.dayNumber ⟨262142, 12, 31⟩

/-- Moves an instant of a place that is `offset` seconds ahead of UTC to UTC; nothing where the day
leaves the calendar. The nanoseconds, and with them a leap second, stay. -/
def ofLocal? (local_ : Instant) (offset : Int) : Option Instant :=
  let second := (local_.second : Int) - offset
  let day := local_.day + second / secondsPerDay
  if firstDay ≤ day ∧ day ≤ lastDay then
    some ⟨day, (second % secondsPerDay).toNat, local_.nano⟩
  else none

end Instant

end Holdings
