import Mathlib
import Holdings.Lot
import Holdings.Position.CorporateAction
import Holdings.Proofs.Instrument

/-!
# What rounding keeps

An amount that is rounded onto its lots is a whole number of steps. Which number that is depends on how many steps the
amount is, and `Lot.Makes` says it without rounding anything: counted towards zero, a number of steps is reached a
little before the amount has come up to it (`Lot.exists_steps`). So less than one step is lost of an amount
(`Lot.abs_sub_round_lt`), what is left of it is on its side of zero (`Lot.sameSide_round`), and that is at least one
step (`Lot.unit_le_abs_round`).

Rounding to the cent changes a price by no more than half a cent (`Position.abs_toCent_sub_le`) and keeps the order of
prices, though two of them may become one (`Position.toCent_mono`).
-/

namespace Holdings

namespace Lot

variable {lot : Lot Rat} {x amount : Rat} {n : ℤ}

theorem tolerance_rat : (tolerance : Rat) = 1 / 10 ^ 4 := by
  change (1e-4 : Rat) = 1 / 10 ^ 4
  norm_num

theorem tolerance_pos : (0 : Rat) < tolerance := by norm_num [tolerance_rat]

theorem tolerance_lt_half : (tolerance : Rat) < 1 / 2 := by norm_num [tolerance_rat]

/-! ## Numbers of steps -/

/-- **How many whole steps are made** of a number of steps: those towards zero, and one more where no more than the
tolerance is missing. -/
def Makes (x : Rat) (n : ℤ) : Prop :=
  if x < 0 then n - 1 + tolerance < x ∧ x ≤ n + tolerance else n - tolerance ≤ x ∧ x < n + 1 - tolerance

theorem Makes.abs_sub_lt_one (h : Makes x n) : |x - n| < 1 := by
  have htol := tolerance_pos
  have hhalf := tolerance_lt_half
  rw [Makes] at h
  split_ifs at h <;> exact abs_lt.mpr ⟨by linarith [h.1, h.2], by linarith [h.1, h.2]⟩

theorem Makes.nonneg (h : Makes x n) (hx : 0 ≤ x) : 0 ≤ n := by
  rw [Makes, if_neg hx.not_gt] at h
  have hlt : (-1 : Rat) < n := by linarith [h.2, tolerance_pos]
  exact Int.lt_iff_add_one_le.mp (by exact_mod_cast hlt)

theorem Makes.nonpos (h : Makes x n) (hx : x ≤ 0) : n ≤ 0 := by
  have hlt : (n : Rat) < 1 := by
    rw [Makes] at h
    split_ifs at h <;> linarith [h.1, tolerance_pos, tolerance_lt_half]
  exact Int.lt_add_one_iff.mp (by exact_mod_cast hlt)

/-- Of a whole number of steps that number is made. -/
theorem Makes.eq_of_intCast {m : ℤ} (h : Makes m n) : n = m := by
  have hclose : |m - n| < 1 := by exact_mod_cast h.abs_sub_lt_one
  exact (sub_eq_zero.mp (Int.abs_lt_one_iff.mp hclose)).symm

/-- A number of steps is replaced by a whole number that it is within the tolerance of, or there is no such and it is
left as it is. -/
theorem settleNear_cases (x : Rat) :
    (∃ n : ℤ, settleNear x = n ∧ |x - n| ≤ tolerance) ∨ settleNear x = x ∧ ∀ n : ℤ, tolerance < |x - n| := by
  simpa only [settleNear, Quantity.abs_rat, not_le] using
    Quantity.settled_cases (· ≤ tolerance) (fun _ hnear => hnear.trans_lt tolerance_lt_half) x

/-- **What rounding makes of a number of steps** is the whole number that is made of it. -/
theorem exists_wholeSteps (x : Rat) : ∃ n : ℤ, wholeSteps x = n ∧ Makes x n := by
  have htol := tolerance_pos
  have hhalf := tolerance_lt_half
  rw [wholeSteps, Quantity.trunc]
  rcases settleNear_cases x with ⟨n, hsettle, hnear⟩ | ⟨hsettle, hfar⟩
  · -- a whole number stays as it is
    obtain ⟨hlow, hhigh⟩ := abs_le.mp hnear
    rw [hsettle]
    refine ⟨n, ?_, ?_⟩
    · split
      · exact congrArg Int.cast (Rat.ceil_intCast n)
      · exact congrArg Int.cast (Rat.floor_intCast n)
    · rw [Makes]
      split_ifs <;> constructor <;> linarith
  · -- what stays as it is keeps away from the next whole number on the far side of zero
    rw [hsettle]
    split_ifs with hx
    · refine ⟨x.ceil, rfl, ?_⟩
      have hlt := Rat.ceil_lt (x := x)
      have hle := Rat.le_ceil (x := x)
      have hnext := hfar (x.ceil - 1)
      push_cast at hnext
      rw [abs_of_pos (by linarith)] at hnext
      rw [Makes, if_pos hx]
      constructor <;> linarith
    · refine ⟨x.floor, rfl, ?_⟩
      have hlt := Rat.lt_floor_add_one x
      have hle := Rat.floor_le x
      have hnext := hfar (x.floor + 1)
      push_cast at hlt hnext
      rw [abs_of_neg (by linarith)] at hnext
      rw [Makes, if_neg hx]
      constructor <;> linarith

/-! ## Amounts -/

/-- The step of the grid. -/
def unit : Lot Rat → Rat
  | .wholeShares => 1
  | .fractional precision => precision

/-- **A rounded amount is a whole number of steps**, the one that is made of the amount. -/
theorem exists_steps (h : 0 < lot.unit) (amount : Rat) :
    ∃ n : ℤ, lot.round amount = n * lot.unit ∧ Makes (amount / lot.unit) n := by
  obtain ⟨n, hwhole, hmakes⟩ := exists_wholeSteps (amount / lot.unit)
  refine ⟨n, ?_, hmakes⟩
  rw [← hwhole]
  cases lot with
  | wholeShares => rw [round, unit, div_one, mul_one]
  | fractional precision => rw [round, if_pos (show 0 < precision from h), unit]

/-- **Amounts are rounded onto the lots.** -/
theorem roundsOnto (h : 0 < lot.unit) : RoundsOnto lot.unit Makes lot.round := ⟨h, exists_steps h⟩

/-- Without a step above zero every amount is as good as any. -/
theorem round_of_unit_nonpos (h : lot.unit ≤ 0) (amount : Rat) : lot.round amount = amount := by
  cases lot with
  | wholeShares => exact absurd h (not_le.mpr one_pos)
  | fractional precision => exact if_neg (not_lt.mpr h)

/-- **Less than one step is lost.** -/
theorem abs_sub_round_lt (h : 0 < lot.unit) (amount : Rat) : |amount - lot.round amount| < lot.unit := by
  obtain ⟨n, hmakes, hmoved⟩ := (roundsOnto h).exists_abs_sub amount
  rw [hmoved]
  exact mul_lt_of_lt_one_left h hmakes.abs_sub_lt_one

theorem round_nonneg (lot : Lot Rat) (hamount : 0 ≤ amount) : 0 ≤ lot.round amount := by
  rcases lt_or_ge 0 lot.unit with h | h
  · obtain ⟨n, hround, hmakes⟩ := exists_steps h amount
    have hsteps : (0 : Rat) ≤ n := by exact_mod_cast hmakes.nonneg (div_nonneg hamount h.le)
    rw [hround]
    exact mul_nonneg hsteps h.le
  · rwa [round_of_unit_nonpos h]

theorem round_nonpos (lot : Lot Rat) (hamount : amount ≤ 0) : lot.round amount ≤ 0 := by
  rcases lt_or_ge 0 lot.unit with h | h
  · obtain ⟨n, hround, hmakes⟩ := exists_steps h amount
    have hsteps : (n : Rat) ≤ 0 := by exact_mod_cast hmakes.nonpos (div_nonpos_of_nonpos_of_nonneg hamount h.le)
    rw [hround]
    exact mul_nonpos_of_nonpos_of_nonneg hsteps h.le
  · rwa [round_of_unit_nonpos h]

/-- Of what is left on the lots there is at least one step. -/
theorem unit_le_abs_round (h : 0 < lot.unit) (hne : lot.round amount ≠ 0) : lot.unit ≤ |lot.round amount| := by
  obtain ⟨n, hround, -⟩ := exists_steps h amount
  have hsteps : n ≠ 0 := by
    rintro rfl
    exact hne (by rw [hround, Int.cast_zero, zero_mul])
  have hone : (1 : Rat) ≤ |(n : Rat)| := by exact_mod_cast Int.one_le_abs hsteps
  rw [hround, abs_mul, abs_of_pos h]
  exact le_mul_of_one_le_left h.le hone

/-- **The amounts that rounding leaves** are those on the lots. -/
theorem round_eq_self_iff (h : 0 < lot.unit) : lot.round amount = amount ↔ ∃ n : ℤ, amount = n * lot.unit :=
  (roundsOnto h).eq_self_iff Makes.eq_of_intCast

/-- One step is on the grid. -/
theorem round_unit (h : 0 < lot.unit) : lot.round lot.unit = lot.unit :=
  (round_eq_self_iff h).mpr ⟨1, by rw [Int.cast_one, one_mul]⟩

/-- **What is left of an amount** on its lots lies on its side of zero. -/
theorem sameSide_round (h : lot.round amount ≠ 0) : Quantity.sameSide (lot.round amount) amount = true := by
  refine Quantity.sameSide_iff.mpr ?_
  rcases lt_trichotomy amount 0 with hamount | hamount | hamount
  · exact .inr ⟨(lot.round_nonpos hamount.le).lt_of_ne h, hamount⟩
  · exact absurd (le_antisymm (lot.round_nonpos hamount.le) (lot.round_nonneg hamount.ge)) h
  · exact .inl ⟨(lot.round_nonneg hamount.le).lt_of_ne' h, hamount⟩

theorem round_pos_iff (h : lot.round amount ≠ 0) : 0 < lot.round amount ↔ 0 < amount :=
  Quantity.pos_iff_of_sameSide (sameSide_round h)

end Lot

namespace Quantity

/-- Of two numbers the lower one is not rounded to a higher one. -/
theorem round_mono {x y : Rat} (h : x ≤ y) : Quantity.round x ≤ Quantity.round y := by
  obtain ⟨n, hn, hmakes⟩ := exists_round x
  obtain ⟨m, hm, hmakes'⟩ := exists_round y
  rw [hn, hm]
  exact_mod_cast hmakes.mono hmakes' h

end Quantity

namespace Position

/-- **The cent is no more than half a cent away.** -/
theorem abs_toCent_sub_le (x : Rat) : |toCent x - x| ≤ 1 / 200 := by
  obtain ⟨n, hround, hmakes⟩ := Quantity.exists_round (x * 100)
  obtain ⟨hlow, hhigh⟩ := abs_le.mp hmakes.abs_sub_le_half
  rw [toCent, Quantity.hundred_literal_rat, hround]
  exact abs_le.mpr ⟨by linarith, by linarith⟩

/-- A cent of a price that is not below zero is not. -/
theorem toCent_nonneg {x : Rat} (h : 0 ≤ x) : 0 ≤ toCent x := by
  rw [toCent, Quantity.hundred_literal_rat]
  exact div_nonneg (Quantity.round_nonneg (mul_nonneg h (by norm_num))) (by norm_num)

/-- Of two prices the lower one is not above the other at the cent either. -/
theorem toCent_mono {x y : Rat} (h : x ≤ y) : toCent x ≤ toCent y := by
  rw [toCent, toCent, Quantity.hundred_literal_rat]
  have hround := Quantity.round_mono (mul_le_mul_of_nonneg_right h (by norm_num : (0 : Rat) ≤ 100))
  exact div_le_div_of_nonneg_right hround (by norm_num)

end Position

end Holdings
