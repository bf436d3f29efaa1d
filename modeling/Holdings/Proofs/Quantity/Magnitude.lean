import Mathlib
import Holdings.Proofs.Quantity

/-!
# Magnitudes with a sign

An order has a quantity without sign, and its side puts the sign on by multiplying with one or minus one. Applied to the
magnitude of an amount this gives the amount again, with the sign that was meant: `LawfulMagnitude` says so.

Multiplying rounds, so of floating-point numbers it has to be seen that nothing is lost by it. One has a mantissa of one
bit and 52 zeros behind it. A product with it has as many zeros behind the mantissa of the other number, and rounding
shifts them out again (`roundWithAccuracy_exact`), since a number that is stored has the exponent that rounding would
give it (`targetExponent_unpack`).
-/

namespace Holdings

namespace Quantity

/-- A magnitude that is multiplied with a sign is the quantity with that sign. -/
class LawfulMagnitude (α : Type) [Quantity α] : Prop where
  /-- minus one times the magnitude of a quantity above zero is its negative -/
  neg_one_mul_abs : ∀ {x : α}, 0 < x → -1.0 * Quantity.abs x = -x
  /-- one times the magnitude of any other quantity that is not zero is its negative -/
  one_mul_abs : ∀ {x : α}, (x == 0) = false → ¬0 < x → 1.0 * Quantity.abs x = -x

instance : LawfulMagnitude Rat where
  neg_one_mul_abs h := by rw [abs_rat, abs_of_pos h, one_literal_rat, neg_one_mul]
  one_mul_abs _ h := by rw [abs_rat, abs_of_nonpos (not_lt.mp h), one_literal_rat, one_mul]

section Binary

open Float.Model (Format totalExponent)
open Float.Model.UnpackedFloat

/-! ## Stored numbers -/

/-- With the leading one a mantissa has one bit more. -/
theorem log2_append_one (mantissa : BitVec 52) : (1#1 ++ mantissa).toNat.log2 = 52 := by
  have hsum := Nat.two_pow_add_eq_or_of_lt mantissa.isLt 1
  rw [mul_one] at hsum
  have hlt : mantissa.toNat < 2 ^ 52 := mantissa.isLt
  have happend : (1#1 ++ mantissa).toNat = 2 ^ 52 + mantissa.toNat := by
    simp only [BitVec.toNat_append, BitVec.toNat_ofNat, Nat.pow_one, Nat.mod_succ, Nat.one_shiftLeft]
    omega
  rw [happend, Nat.log2_eq_iff (by omega)]
  omega

/-- A number that is stored has the exponent that rounding would give it. -/
theorem targetExponent_unpack {bits : BitVec Format.binary64.numBits} {sign : Sign} {mantissa : Nat} {exponent : Int}
    {hpos : 0 < mantissa} (h : unpack .binary64 bits = .finite sign mantissa exponent hpos) :
    Format.binary64.targetExponent (totalExponent mantissa exponent) = exponent := by
  have hmin : Format.binary64.minExponent = -1074 := by decide
  have hbits : (Format.binary64.mantissaBits : Int) = 53 := by decide
  have hbias : (Format.binary64.exponentBias : Int) = 1023 := by decide
  rw [Format.targetExponent, totalExponent, hmin, hbits]
  simp only [unpack, hbias] at h
  split_ifs at h with hspecial hinf hzero hnone
  · -- without the leading one, the exponent is the smallest
    injection h with _ hmantissa hexponent
    have hexp : (unpackExponent bits).toNat = 0 := by rw [hzero]; rfl
    have hlog : mantissa.log2 < 52 := (Nat.log2_lt hpos.ne').mpr (hmantissa ▸ (unpackMantissa bits).isLt)
    omega
  · injection h with _ hmantissa hexponent
    have hexp : (unpackExponent bits).toNat ≠ 0 := fun hz => hzero (BitVec.eq_of_toNat_eq hz)
    have hlog : mantissa.log2 = 52 := hmantissa ▸ log2_append_one (unpackMantissa bits)
    omega

/-! ## Products with one -/

/-- A mantissa that ends in zeros loses nothing where they are shifted out. -/
theorem shiftRight_exact (mantissa count : Nat) :
    (⟨2 ^ count * mantissa, false, false⟩ : ExtendedMantissa) >>> count = ⟨mantissa, false, false⟩ := by
  change count.repeat ExtendedMantissa.shiftRightOne _ = _
  induction count generalizing mantissa with
  | zero => simp [Nat.repeat]
  | succ n ih =>
    rw [Nat.repeat, pow_succ, mul_assoc, ih]
    simp [ExtendedMantissa.shiftRightOne]

theorem log2_two_pow_mul {n : Nat} (hpos : 0 < n) (count : Nat) : (2 ^ count * n).log2 = count + n.log2 := by
  induction count with
  | zero => simp
  | succ count ih =>
    rw [pow_succ', mul_assoc, Nat.log2_two_mul (by positivity), ih]
    omega

/-- Rounding a number that is stored leaves it, also where zeros were put behind its mantissa. -/
theorem roundWithAccuracy_exact {format : Format} {mantissa : Nat} {exponent : Int} (hpos : 0 < mantissa)
    (htarget : format.targetExponent (totalExponent mantissa exponent) = exponent) (sign : Sign) (count : Nat) :
    roundWithAccuracy format sign (2 ^ count * mantissa) (-count + exponent) .exact =
      .finite sign mantissa exponent hpos := by
  have htotal : totalExponent (2 ^ count * mantissa) (-count + exponent) = totalExponent mantissa exponent := by
    rw [totalExponent, totalExponent, log2_two_pow_mul hpos]
    omega
  have hfirst : shiftToTargetExponent format (2 ^ count * mantissa) (-count + exponent) .exact =
      (⟨mantissa, false, false⟩, exponent) := by
    rw [shiftToTargetExponent, htotal, htarget, shiftToExponent]
    have hcount : (exponent - (-count + exponent)).toNat = count := by omega
    simp only [hcount, ExtendedMantissa.ofMantissaAndAccuracy, shiftRight_exact]
    simp
  have hsecond : shiftToTargetExponent format mantissa exponent .exact = (⟨mantissa, false, false⟩, exponent) := by
    rw [shiftToTargetExponent, htarget, shiftToExponent]
    simpa [ExtendedMantissa.ofMantissaAndAccuracy] using shiftRight_exact mantissa 0
  rw [roundWithAccuracy, hfirst]
  simp only [ExtendedMantissa.roundedMantissa, ExtendedMantissa.accuracy, Accuracy.roundToNearestEven, hsecond]
  rw [dif_neg hpos.ne']

/-- **A product with one** is the number, and a product with minus one its negative. -/
theorem mul_one_unpack (bits : BitVec Format.binary64.numBits) (sign : Sign) :
    mul .binary64 (.finite sign (2 ^ 52) (-52) (by norm_num)) (unpack .binary64 bits) =
      match sign with
      | .positive => unpack .binary64 bits
      | .negative => (unpack .binary64 bits).neg := by
  rcases hu : unpack .binary64 bits with s | - | s | ⟨s, m, e, hm⟩
  · cases sign <;> cases s <;> rfl
  · cases sign <;> rfl
  · cases sign <;> cases s <;> rfl
  · have hround := fun sign => roundWithAccuracy_exact hm (targetExponent_unpack hu) sign 52
    cases sign <;> cases s <;> exact hround _

/-! ## Magnitudes -/

/-- The bits of a floating-point number without its sign. -/
def magnitudeBits (format : Format) (bits : BitVec format.numBits) : BitVec format.numBits :=
  packComponents format .positive (unpackExponent bits) (unpackMantissa bits)

theorem unpack_magnitudeBits (format : Format) (bits : BitVec format.numBits) :
    unpack format (magnitudeBits format bits) = (unpack format bits).abs := by
  simp only [unpack, magnitudeBits, unpackSign_packComponents, unpackExponent_packComponents,
    unpackMantissa_packComponents, Sign.ofBitVec_toBitVec]
  split_ifs <;> rfl

/-- The magnitude of a floating-point number is the number without its sign, after rounding as before it. -/
theorem unpack_abs (x : Float) : (Float.abs x).toModel.unpack = x.toModel.unpack.abs := by
  have habs : (Float.abs x).toModel.unpack = unpack .binary64 (pack .binary64 x.toModel.unpack.abs) := rfl
  have hbits : x.toModel.unpack.abs = unpack .binary64 (magnitudeBits .binary64 x.toModel.toBits.toBitVec) :=
    (unpack_magnitudeBits .binary64 _).symm
  rw [habs, hbits, pack_unpack]
  split
  · next hnan => rw [unpack_packedNaN, unpack_of_isNaNBits hnan]
  · rfl

/-- One has a mantissa of one bit, and zeros behind it. -/
theorem unpack_one : (1.0 : Float).toModel.unpack = .finite .positive (2 ^ 52) (-52) (by norm_num) := rfl

/-- A product is the negative of a number if it stands for that. -/
theorem mul_eq_neg {x y z : Float} (h : mul .binary64 x.toModel.unpack y.toModel.unpack = z.toModel.unpack.neg) :
    x * y = -z :=
  congrArg (fun u => Float.ofModel (.pack u)) h

/-- A floating-point number is its magnitude with its sign, and one takes nothing off it. -/
instance : LawfulMagnitude Float where
  neg_one_mul_abs {x} h := by
    have hlt : ((0 : Float).toModel.unpack.compare x.toModel.unpack == some .lt) = true :=
      (decide_lt 0 x).symm.trans (decide_eq_true h)
    have habs : (Float.abs x).toModel.unpack = x.toModel.unpack := by
      rw [unpack_abs]
      cases hx : x.toModel.unpack with
      | notANumber => rfl
      | zero sign => rw [hx] at hlt; cases sign <;> cases hlt
      | infinity sign => rw [hx] at hlt; cases sign <;> first | rfl | cases hlt
      | finite sign => rw [hx] at hlt; cases sign <;> first | rfl | cases hlt
    refine mul_eq_neg ?_
    rw [unpack_neg, unpack_one]
    exact (mul_one_unpack _ .negative).trans (congrArg neg habs)
  one_mul_abs {x} hne h := by
    have hlt : ((0 : Float).toModel.unpack.compare x.toModel.unpack == some .lt) = false :=
      (decide_lt 0 x).symm.trans (decide_eq_false h)
    have hnonzero : (x.toModel.unpack.compare (0 : Float).toModel.unpack == some .eq) = false := hne
    have habs : (Float.abs x).toModel.unpack = x.toModel.unpack.neg := by
      rw [unpack_abs]
      cases hx : x.toModel.unpack with
      | notANumber => rfl
      | zero sign => rw [hx] at hnonzero; cases sign <;> cases hnonzero
      | infinity sign => rw [hx] at hlt; cases sign <;> first | rfl | cases hlt
      | finite sign => rw [hx] at hlt; cases sign <;> first | rfl | cases hlt
    refine mul_eq_neg ?_
    rw [unpack_one]
    exact (mul_one_unpack _ .positive).trans habs

end Binary

end Quantity

end Holdings
