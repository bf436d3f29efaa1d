import Holdings.Decimal.Basic

/-!
# Styles: the ways a decimal is spelled

A `Style` says when a decimal is written positionally and when scientifically, what a whole number
ends in, and how an exponent is marked. Three styles are in use:

* `Style.json` — numbers of the JSON texts;
* `Style.plain` — numbers in messages, never scientific;
* `Style.detail` — the numbers of a cost model spelled out in a message.
-/

namespace Holdings

/-- How decimals are spelled. -/
structure Style where
  /-- the exponents of the first digit that are written positionally -/
  positional : Int → Bool
  /-- a whole number ends in `.0` when it is written positionally -/
  keepsPoint : Bool
  /-- an exponent that is not negative carries a plus sign -/
  marksPlus : Bool
  /-- which of two shortest decimals is written when both are equally near -/
  tie : Tie

namespace Style

/-- JSON numbers: positional from `0.00001` to below `10 ^ 16`, always with a point or an exponent. -/
def json : Style where
  positional e := -5 ≤ e && e ≤ 15
  keepsPoint := true
  marksPlus := true
  tie := .even

/-- Numbers in messages: positional at every size, whole numbers without a point. -/
def plain : Style where
  positional _ := true
  keepsPoint := false
  marksPlus := false
  tie := .away

/-- Numbers in the spelled-out cost model: positional from `0.0001` to below `10 ^ 16`. -/
def detail : Style where
  positional e := -4 ≤ e && e ≤ 15
  keepsPoint := true
  marksPlus := false
  tie := .away

/-- Digits with the point where the exponent puts it. -/
def positionally (s : Style) (figures : List Char) (exponent : Int) : List Char :=
  let whole := (figures.length : Int) + exponent
  if 0 ≤ exponent then
    figures ++ List.replicate exponent.toNat '0' ++ (if s.keepsPoint then ['.', '0'] else [])
  else if 0 < whole then
    figures.take whole.toNat ++ '.' :: figures.drop whole.toNat
  else
    '0' :: '.' :: (List.replicate (-whole).toNat '0' ++ figures)

/-- One digit before the point, then the exponent of that digit. -/
def scientifically (s : Style) (figures : List Char) (e : Int) : List Char :=
  let fraction := figures.drop 1
  let mark := if e < 0 then ['-'] else if s.marksPlus then ['+'] else []
  figures.take 1 ++ (if fraction.isEmpty then [] else '.' :: fraction)
    ++ 'e' :: (mark ++ Decimal.figures e.natAbs)

/-- A decimal as characters. -/
def spell (s : Style) (d : Decimal) : List Char :=
  let figures := Decimal.figures d.digits
  let e := (figures.length : Int) + d.exponent - 1
  let size := if s.positional e then s.positionally figures d.exponent
    else s.scientifically figures e
  if d.negative then '-' :: size else size

variable {α : Type} [Numeral α]

/-- A quantity as characters: its shortest decimal, or the name of what has none. -/
def chars (s : Style) (x : α) : List Char :=
  match Numeral.shortest s.tie x with
  | .void => ['N', 'a', 'N']
  | .infinite negative => if negative then ['-', 'i', 'n', 'f'] else ['i', 'n', 'f']
  | .finite d => s.spell d

/-- A quantity in words. -/
def write (s : Style) (x : α) : String := String.ofList (s.chars x)

end Style

end Holdings
