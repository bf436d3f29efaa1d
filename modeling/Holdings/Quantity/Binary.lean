import Holdings.Quantity.Basic

/-!
# Binary quantities

`Float`, the 64-bit binary floating-point numbers, as quantities: what the program computes with.
-/

namespace Holdings

instance : Quantity Float where
  decidableLE := inferInstance
  decidableLT := inferInstance
  ofCount := Nat.toFloat
  abs := Float.abs
  floor := Float.floor
  ceil := Float.ceil
  round := Float.round
  isFinite := Float.isFinite

end Holdings
