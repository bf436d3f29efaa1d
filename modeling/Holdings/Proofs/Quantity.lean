import Mathlib
import Holdings.Quantity.Binary
import Holdings.Quantity.Exact

/-!
# What is known of quantities

The operations of `Quantity` come on `Rat` to those of the rationals: the magnitude is the absolute value, a sum
starts at zero, and every rational is finite. Of floating-point numbers far less holds. `LawfulZero`,
`LawfulFinite`, `LawfulNeg`, `LawfulSign` and `LawfulLiteral` are what both have in common: zero can mark what is not
there, what is finite compares with itself and with zero, and taken away from itself it leaves nothing. A theorem that
asks for no more is one of the numbers that are computed with.
-/

namespace Holdings

namespace Quantity

/-! ## Zero -/

/-- Zero equals itself, and nothing that equals zero is above it. -/
class LawfulZero (α : Type) [Quantity α] : Prop where
  /-- zero equals itself -/
  zero_beq : ((0 : α) == 0) = true
  /-- what equals zero is not above it -/
  not_pos : ∀ {x : α}, (x == 0) = true → ¬0 < x

instance : LawfulZero Rat where
  zero_beq := rfl
  not_pos h := by simpa using (eq_of_beq h).le

/-- The floating-point numbers that equal zero are the two zeros, and neither is above it. -/
instance : LawfulZero Float where
  zero_beq := by decide
  not_pos {x} h hpos := by
    have hzero : (0 : Float).toModel.unpack = .zero .positive := rfl
    have heq : (x.toModel.unpack.compare (0 : Float).toModel.unpack == some .eq) = true := h
    have hlt : ((0 : Float).toModel.unpack.compare x.toModel.unpack == some .lt) = true :=
      of_decide_eq_true hpos
    rw [hzero] at heq hlt
    cases hx : x.toModel.unpack with
    | zero sign => rw [hx] at hlt; cases hlt
    | notANumber => rw [hx] at heq; cases heq
    | infinity sign => cases sign <;> rw [hx] at heq <;> cases heq
    | finite sign => cases sign <;> rw [hx] at heq <;> cases heq

/-! ## Finite quantities -/

/-- A finite quantity compares with itself. -/
class LawfulFinite (α : Type) [Quantity α] : Prop where
  /-- it equals itself -/
  beq_self : ∀ {x : α}, isFinite x = true → (x == x) = true
  /-- it is at most itself -/
  le_self : ∀ {x : α}, isFinite x = true → x ≤ x

instance : LawfulFinite Rat where
  beq_self _ := beq_self_eq_true _
  le_self _ := le_rfl

/-- Of the floating-point numbers only those without value do not compare with themselves. -/
instance : LawfulFinite Float := by
  have hsame : ∀ {x : Float}, isFinite x = true →
      x.toModel.unpack.compare x.toModel.unpack = some .eq := by
    intro x h
    have hfinite : x.toModel.unpack.isFinite = true := h
    cases hx : x.toModel.unpack with
    | zero sign => rfl
    | notANumber => rw [hx] at hfinite; cases hfinite
    | infinity sign => rw [hx] at hfinite; cases hfinite
    | finite sign mantissa exponent hpos =>
      cases sign <;> simp [Float.Model.UnpackedFloat.compare]
  constructor
  · intro x h
    change (x.toModel.unpack.compare x.toModel.unpack == some .eq) = true
    rw [hsame h]
    rfl
  · intro x h
    refine decide_eq_true ?_
    change (x.toModel.unpack.compare x.toModel.unpack).any Ordering.isLE = true
    rw [hsame h]
    rfl

/-! ## Negatives -/

/-- What is taken away from itself leaves nothing. -/
class LawfulNeg (α : Type) [Quantity α] : Prop where
  /-- with its negative it adds up to zero -/
  add_neg_beq : ∀ {x : α}, isFinite (-x) = true → (x + -x == 0) = true
  /-- it does not lie on the side of its negative -/
  not_sameSide_neg : ∀ x : α, sameSide x (-x) = false

instance : LawfulNeg Rat where
  add_neg_beq _ := by simp
  not_sameSide_neg x := by
    rcases lt_trichotomy x 0 with h | h | h <;> simp [sameSide, h, h.not_gt]

section Binary

open Float.Model (Format)
open Float.Model.UnpackedFloat

/-- The bits of a floating-point number with the other sign. -/
def turnedBits (format : Format) (bits : BitVec format.numBits) : BitVec format.numBits :=
  packComponents format (-Sign.ofBitVec (unpackSign bits)) (unpackExponent bits) (unpackMantissa bits)

theorem unpack_turnedBits (format : Format) (bits : BitVec format.numBits) :
    unpack format (turnedBits format bits) = (unpack format bits).neg := by
  simp only [unpack, turnedBits, unpackSign_packComponents, unpackExponent_packComponents,
    unpackMantissa_packComponents, Sign.ofBitVec_toBitVec]
  split_ifs <;> rfl

theorem unpack_of_isNaNBits {format : Format} {bits : BitVec format.numBits} (h : isNaNBits bits = true) :
    unpack format bits = .notANumber := by
  obtain ⟨hexponent, hmantissa⟩ := of_decide_eq_true h
  simp only [unpack]
  rw [if_pos hexponent, if_neg hmantissa]

/-- The negative of a floating-point number is the number with the other sign, after rounding as before it. -/
theorem unpack_neg (x : Float) : (-x).toModel.unpack = x.toModel.unpack.neg := by
  have hneg : (-x).toModel.unpack = unpack .binary64 (pack .binary64 x.toModel.unpack.neg) := rfl
  have hturned : x.toModel.unpack.neg =
      unpack .binary64 (turnedBits .binary64 x.toModel.toBits.toBitVec) :=
    (unpack_turnedBits .binary64 _).symm
  rw [hneg, hturned, pack_unpack]
  split
  · next hnan => rw [unpack_packedNaN, unpack_of_isNaNBits hnan]
  · rfl

/-- A finite number and the same number with the other sign add up to a zero. -/
theorem add_neg_unpacked (format : Format) {x : Float.Model.UnpackedFloat} (h : x.isFinite = true) :
    ∃ sign, add format x x.neg = .zero sign := by
  cases x with
  | zero sign => cases sign <;> exact ⟨_, rfl⟩
  | notANumber => cases h
  | infinity sign => cases h
  | finite sign mantissa exponent hpos =>
    refine ⟨.positive, ?_⟩
    cases sign <;> simp [add, neg, Float.Model.UnpackedFloat.normalize, Sign.apply]

/-- Floating-point numbers compare as what they stand for. -/
theorem decide_lt (x y : Float) : decide (x < y) = (x.toModel.unpack.compare y.toModel.unpack == some .lt) :=
  Bool.eq_iff_iff.mpr ⟨fun h => of_decide_eq_true (of_decide_eq_true h),
    fun h => decide_eq_true (decide_eq_true h)⟩

end Binary

/-- Floating-point numbers and their negatives differ in the sign alone. -/
instance : LawfulNeg Float where
  add_neg_beq {x} h := by
    have hfinite : x.toModel.unpack.isFinite = true := by
      have hneg : (-x).toModel.unpack.isFinite = true := h
      rw [unpack_neg] at hneg
      cases hx : x.toModel.unpack <;> rw [hx] at hneg <;> first | rfl | cases hneg
    obtain ⟨sign, hsum⟩ := add_neg_unpacked .binary64 hfinite
    change ((x + -x).toModel.unpack.compare (0 : Float).toModel.unpack == some .eq) = true
    have hadd : (x + -x).toModel.unpack = Float.Model.UnpackedFloat.unpack .binary64
        (Float.Model.UnpackedFloat.pack .binary64 (.add .binary64 x.toModel.unpack (-x).toModel.unpack)) := rfl
    rw [hadd, unpack_neg, hsum]
    cases sign <;> rfl
  not_sameSide_neg x := by
    rw [sameSide, decide_lt, decide_lt, decide_lt, decide_lt, unpack_neg]
    cases x.toModel.unpack with
    | notANumber => rfl
    | zero sign => cases sign <;> rfl
    | infinity sign => cases sign <;> rfl
    | finite sign => cases sign <;> rfl

/-! ## Signs -/

/-- A finite quantity is below zero, zero or above zero. -/
class LawfulSign (α : Type) [Quantity α] : Prop where
  /-- it is at least zero or below -/
  nonneg_iff : ∀ {x : α}, isFinite x = true → (0 ≤ x ↔ ¬x < 0)
  /-- if it is not zero, it is above zero or below -/
  pos_iff : ∀ {x : α}, isFinite x = true → (x == 0) = false → (0 < x ↔ ¬x < 0)

instance : LawfulSign Rat where
  nonneg_iff _ := not_lt.symm
  pos_iff {x} _ h := by
    have hne : x ≠ 0 := by simpa using h
    exact ⟨fun hpos => hpos.not_gt, fun hneg => (not_lt.mp hneg).lt_of_ne' hne⟩

/-- What is finite is one of the two zeros, or has a sign of its own. -/
instance : LawfulSign Float := by
  have hzero : (0 : Float).toModel.unpack = .zero .positive := rfl
  have hle : ∀ x : Float, 0 ≤ x ↔
      ((0 : Float).toModel.unpack.compare x.toModel.unpack).any Ordering.isLE = true :=
    fun x => ⟨fun h => of_decide_eq_true h, fun h => decide_eq_true h⟩
  have hlt : ∀ x y : Float, x < y ↔ (x.toModel.unpack.compare y.toModel.unpack == some .lt) = true :=
    fun x y => by rw [← decide_lt, decide_eq_true_iff]
  constructor
  · intro x h
    have hfinite : x.toModel.unpack.isFinite = true := h
    rw [hle, hlt, hzero]
    cases hx : x.toModel.unpack with
    | zero sign => cases sign <;> decide
    | notANumber => rw [hx] at hfinite; cases hfinite
    | infinity sign => rw [hx] at hfinite; cases hfinite
    | finite sign => cases sign <;> simp [Float.Model.UnpackedFloat.compare]
  · intro x h hne
    have hfinite : x.toModel.unpack.isFinite = true := h
    have hnonzero : (x.toModel.unpack.compare (0 : Float).toModel.unpack == some .eq) = false := hne
    rw [hzero] at hnonzero
    rw [hlt, hlt, hzero]
    cases hx : x.toModel.unpack with
    | zero sign => rw [hx] at hnonzero; cases sign <;> cases hnonzero
    | notANumber => rw [hx] at hfinite; cases hfinite
    | infinity sign => rw [hx] at hfinite; cases hfinite
    | finite sign => cases sign <;> simp [Float.Model.UnpackedFloat.compare]

section Prices

variable {α : Type} [Quantity α] [LawfulSign α] {x : α}

/-- A price is finite and not negative. -/
theorem isNoPrice_iff : isNoPrice x = false ↔ isFinite x = true ∧ 0 ≤ x := by
  rw [isNoPrice, Bool.or_eq_false_iff, Bool.not_eq_false', decide_eq_false_iff_not]
  exact and_congr_right fun hfinite => (LawfulSign.nonneg_iff hfinite).symm

/-- A price that is not zero is finite and positive. -/
theorem isNoPrice_iff_of_ne (hx : (x == 0) = false) : isNoPrice x = false ↔ isFinite x = true ∧ 0 < x := by
  rw [isNoPrice, Bool.or_eq_false_iff, Bool.not_eq_false', decide_eq_false_iff_not]
  exact and_congr_right fun hfinite => (LawfulSign.pos_iff hfinite hx).symm

end Prices

/-! ## Exact quantities -/

@[simp] theorem abs_rat (x : Rat) : Quantity.abs x = |x| := by
  change Rat.abs x = |x|
  rcases le_total 0 x with h | h
  · rw [Rat.abs_of_nonneg h, abs_of_nonneg h]
  · rw [Rat.abs_of_nonpos h, abs_of_nonpos h]

@[simp] theorem isFinite_rat (x : Rat) : Quantity.isFinite x = true := rfl

@[simp] theorem isNoPrice_rat (x : Rat) : Quantity.isNoPrice x = decide (x < 0) := by
  simp [isNoPrice]

@[simp] theorem isNotPositive_rat (x : Rat) : Quantity.isNotPositive x = decide (x ≤ 0) := by
  simp [isNotPositive]

/-- The literal that the formulas start from. -/
@[simp] theorem zero_literal_rat :
    (@OfScientific.ofScientific Rat Quantity.toOfScientific 0 true 1) = 0 := by
  change (0.0 : Rat) = 0
  norm_num

/-- The sign of a purchase. -/
@[simp] theorem one_literal_rat :
    (@OfScientific.ofScientific Rat Quantity.toOfScientific 10 true 1) = 1 := by
  change (1.0 : Rat) = 1
  norm_num

/-- How many cents there are. -/
@[simp] theorem hundred_literal_rat :
    (@OfScientific.ofScientific Rat Quantity.toOfScientific 1000 true 1) = 100 := by
  change (100.0 : Rat) = 100
  norm_num

/-- Rounding does not lead below zero. -/
theorem round_nonneg {x : Rat} (h : 0 ≤ x) : 0 ≤ Quantity.round x := by
  change 0 ≤ roundHalfAway x
  rw [roundHalfAway, if_neg (not_lt.mpr h)]
  exact_mod_cast Int.floor_nonneg.mpr (by linarith : (0 : Rat) ≤ x + 1 / 2)

/-- A sum of quantities is their sum. -/
theorem total_rat (xs : List Rat) : Quantity.total xs = xs.sum := by
  have h : ∀ acc : Rat, xs.foldl (· + ·) acc = acc + xs.sum := by
    induction xs with
    | nil => intro acc; simp
    | cons x rest ih =>
      intro acc
      rw [List.foldl_cons, ih, List.sum_cons]
      ring
  rw [total]
  exact (h (-0)).trans (by ring)

/-! ## Quantities on the same side -/

section SameSide

variable {x y z : Rat}

theorem sameSide_iff : sameSide x y = true ↔ 0 < x ∧ 0 < y ∨ x < 0 ∧ y < 0 := by
  simp only [sameSide, Bool.or_eq_true, Bool.and_eq_true, decide_eq_true_eq]

theorem sameSide_comm (x y : Rat) : sameSide x y = sameSide y x := by
  simp only [sameSide, Bool.and_comm]

theorem sameSide_self (h : x ≠ 0) : sameSide x x = true := by
  rcases lt_or_gt_of_ne h with hneg | hpos
  · exact sameSide_iff.mpr (.inr ⟨hneg, hneg⟩)
  · exact sameSide_iff.mpr (.inl ⟨hpos, hpos⟩)

theorem ne_zero_of_sameSide (h : sameSide x y = true) : x ≠ 0 := by
  rintro rfl
  simp [sameSide] at h

/-- Quantities on the same side of zero are above it together. -/
theorem pos_iff_of_sameSide (h : sameSide x y = true) : 0 < x ↔ 0 < y := by
  rcases sameSide_iff.mp h with ⟨hx, hy⟩ | ⟨hx, hy⟩
  · exact iff_of_true hx hy
  · exact iff_of_false hx.not_gt hy.not_gt

/-- Of two quantities on the same side, both are on the side of a third one or neither is. -/
theorem sameSide_congr (h : sameSide y z = true) (x : Rat) : sameSide x y = sameSide x z := by
  rcases sameSide_iff.mp h with ⟨hy, hz⟩ | ⟨hy, hz⟩
  · simp only [sameSide, hy, hz, hy.not_gt, hz.not_gt]
  · simp only [sameSide, hy, hz, hy.not_gt, hz.not_gt]

theorem sameSide_add (h : sameSide x y = true) : sameSide (x + y) x = true := by
  rcases sameSide_iff.mp h with ⟨hx, hy⟩ | ⟨hx, hy⟩
  · exact sameSide_iff.mpr (.inl ⟨add_pos hx hy, hx⟩)
  · exact sameSide_iff.mpr (.inr ⟨add_neg hx hy, hx⟩)

/-- Quantities on the same side of zero add up to one that is no smaller than either. -/
theorem abs_le_abs_add_of_sameSide (h : sameSide x y = true) : |y| ≤ |x + y| := by
  rcases sameSide_iff.mp h with ⟨hx, hy⟩ | ⟨hx, hy⟩
  · rw [abs_of_pos hy, abs_of_pos (add_pos hx hy)]
    linarith
  · rw [abs_of_neg hy, abs_of_neg (add_neg hx hy)]
    linarith

/-- The share that one of two quantities on the same side has in their sum. -/
theorem share_nonneg (h : sameSide x y = true) : 0 ≤ x / (x + y) := by
  rcases sameSide_iff.mp h with ⟨hx, hy⟩ | ⟨hx, hy⟩
  · exact div_nonneg hx.le (add_pos hx hy).le
  · exact div_nonneg_of_nonpos hx.le (add_neg hx hy).le

end SameSide

/-! ## The literal of zero -/

/-- The literal that the formulas start from is zero. -/
class LawfulLiteral (α : Type) [Quantity α] : Prop where
  /-- written out, it is the same zero -/
  zero_literal : (0.0 : α) = 0

instance : LawfulLiteral Rat where
  zero_literal := zero_literal_rat

instance : LawfulLiteral Float where
  zero_literal := rfl

end Quantity

end Holdings
