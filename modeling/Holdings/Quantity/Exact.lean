import Mathlib
import Holdings.Quantity.Basic

/-!
# Exact quantities

`Rat` as quantities: every formula of the library read without rounding, so that what it conserves
can be stated as an equation. All of them are finite.
-/

namespace Holdings

/-- The nearest whole number; a half goes away from zero. -/
def roundHalfAway (x : Rat) : Rat :=
  if x < 0 then -((-x + 1 / 2).floor : Rat) else ((x + 1 / 2).floor : Rat)

instance : Quantity Rat where
  decidableLE := inferInstance
  decidableLT := inferInstance
  ofCount n := (n : Rat)
  abs := Rat.abs
  floor x := (x.floor : Rat)
  ceil x := (x.ceil : Rat)
  round := roundHalfAway
  isFinite _ := true

end Holdings
