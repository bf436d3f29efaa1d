import Holdings.Decimal.Basic
import Holdings.Quantity.Binary

/-!
# The shortest decimal of a binary number

A binary number `m · 2 ^ q` is the nearest one to every real of an interval around it, which reaches
half way to its neighbours; the ends belong to it when `m` is even. Any decimal in that interval
names the number. `Interval.shortest` takes the coarsest decimal grid with a point in the interval and,
of the points of that grid, the nearest one. Since the interval is convex, only the two
neighbours of the number on each grid have to be looked at. All of it is exact arithmetic on naturals.

`Binary64.unpack` reads `m`, `q` and the sign off the bits of a `Float`.
-/

namespace Holdings

/-- A positive binary number and the reals that round to it, as numerators over one denominator. -/
structure Interval where
  /-- the number itself -/
  value : Nat
  /-- the lower end -/
  low : Nat
  /-- the upper end -/
  high : Nat
  /-- the common denominator -/
  denominator : Nat
  /-- the ends round to the number too -/
  closed : Bool

namespace Interval

/-- The interval of `m · 2 ^ q`. Below a power of two the neighbours are half as far apart, so there
the lower end is nearer (`narrow`). -/
def ofBinary (m : Nat) (q : Int) (narrow : Bool) : Interval :=
  let scale := Nat.pow 2 (q - 2).toNat
  { value := 4 * m * scale
    low := (4 * m - (if narrow then 1 else 2)) * scale
    high := (4 * m + 2) * scale
    denominator := Nat.pow 2 (2 - q).toNat
    closed := m % 2 = 0 }

/-- The interval in units of `10 ^ j`. -/
def inUnits (i : Interval) (j : Int) : Interval :=
  let up := Nat.pow 10 (-j).toNat
  { i with
    value := i.value * up
    low := i.low * up
    high := i.high * up
    denominator := i.denominator * Nat.pow 10 j.toNat }

/-- How many decimal digits a number has. -/
def width (n : Nat) : Nat := (Decimal.figures n).length

/-- The exponent `k` with `10 ^ k ≤ value < 10 ^ (k + 1)`. -/
def magnitude (i : Interval) : Int :=
  if i.denominator ≤ i.value then (width (i.value / i.denominator) : Int) - 1
  else -(width ((i.denominator + i.value - 1) / i.value - 1) : Int)

/-- Whether the whole number `d` of units lies in the interval. -/
def holds (i : Interval) (d : Nat) : Bool :=
  let x := d * i.denominator
  (i.low < x && x < i.high) || (i.closed && (x = i.low || x = i.high))

/-- The nearest whole number of units in the interval, where one of the two around the value is. -/
def nearestUnits? (i : Interval) (tie : Tie) : Option Nat :=
  let below := i.value / i.denominator
  let above := below + 1
  match i.holds below, i.holds above with
  | false, false => none
  | true, false => some below
  | false, true => some above
  | true, true =>
    let left := i.value - below * i.denominator
    let right := above * i.denominator - i.value
    if left < right then some below
    else if right < left then some above
    else match tie with
      | .even => some (if below % 2 = 0 then below else above)
      | .away => some above

/-- The first grid, from `count` digits before `last` on, with a point in the interval. -/
def shortestFrom (i : Interval) (tie : Tie) (j : Int) : Nat → Nat × Int
  | 0 => ((i.inUnits j).value / (i.inUnits j).denominator, j)
  | fuel + 1 =>
    match (i.inUnits j).nearestUnits? tie with
    | some d => Decimal.stripZeros d j (width d)
    | none => shortestFrom i tie (j - 1) fuel

/-- Seventeen digits always tell two binary numbers of 53 bits apart. -/
def mostDigits : Nat := 17

/-- The digits and the exponent of the shortest decimal in the interval. -/
def shortest (i : Interval) (tie : Tie) : Nat × Int :=
  i.shortestFrom tie i.magnitude mostDigits

end Interval

namespace Binary64

/-- What the bits of a 64-bit floating-point number say. -/
inductive Unpacked where
  /-- no value -/
  | void
  /-- infinite -/
  | infinite (negative : Bool)
  /-- `± m · 2 ^ q`; `narrow` marks the powers of two, whose lower neighbour is nearer -/
  | finite (negative : Bool) (m : Nat) (q : Int) (narrow : Bool)

/-- The bit in front of the 52 bits of a fraction, which is not written. -/
def leadingBit : Nat := 0x10000000000000

/-- Reads sign, exponent and fraction: one bit, eleven bits and 52 bits. -/
def unpack (x : Float) : Unpacked :=
  let bits := x.toBits.toNat
  let negative := bits >>> 63 == 1
  let power : Nat := (bits >>> 52) % 2048
  let fraction := bits % leadingBit
  if power = 2047 then
    if fraction = 0 then .infinite negative else .void
  else if power = 0 then .finite negative fraction (-1074) false
  else .finite negative (fraction + leadingBit) ((power : Int) - 1075) (fraction = 0 && 1 < power)

/-- The shortest decimal of a number, in words where it is none. -/
def shortest (tie : Tie) (x : Float) : Written :=
  match unpack x with
  | .void => .void
  | .infinite negative => .infinite negative
  | .finite negative m q narrow =>
    if m = 0 then .finite ⟨negative, 0, 0⟩
    else
      let (digits, exponent) := (Interval.ofBinary m q narrow).shortest tie
      .finite ⟨negative, digits, exponent⟩

/-- The number nearest to a decimal. Beyond 310 places it is infinite, and below 400 it is zero. -/
def nearest (d : Decimal) : Float :=
  let places := (Interval.width d.digits : Int) + d.exponent
  let size : Float :=
    if d.digits = 0 || places < -400 then 0
    else if 310 < places then 1.0 / 0.0
    else match d.exponent with
      | .ofNat k => OfScientific.ofScientific d.digits false k
      | .negSucc k => OfScientific.ofScientific d.digits true (k + 1)
  if d.negative then -size else size

end Binary64

instance : Numeral Float where
  shortest := Binary64.shortest
  nearest := Binary64.nearest

end Holdings
