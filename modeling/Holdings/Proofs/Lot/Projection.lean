import Mathlib
import Holdings.Proofs.Rounding

/-!
# Rounding is a projection onto the lots

The amounts that rounding leaves are those on the lots (`Lot.round_eq_self_iff`). It moves every amount to one of them,
as far on one side of zero as on the other (`Lot.round_neg`) and without changing the order of amounts
(`Lot.round_mono`). It moves them towards zero, save that an amount which hardly falls short of the next lot counts as
that lot and is moved away from zero, by no more than what counts as hardly (`Lot.abs_round_le`).

All of this is said first of numbers of steps, by `Lot.Makes`, and carried over to amounts as to whatever is rounded
onto a grid (`Lot.roundsOnto`).
-/

namespace Holdings

namespace Lot

variable {lot : Lot Rat} {x y amount amount' : Rat} {n m : ℤ}

/-! ## Numbers of steps -/

/-- Of more steps no fewer whole ones are made. -/
theorem Makes.mono (hn : Makes x n) (hm : Makes y m) (h : x ≤ y) : n ≤ m := by
  by_cases hzero : x ≤ 0 ∧ 0 ≤ y
  · exact (hn.nonpos hzero.1).trans (hm.nonneg hzero.2)
  · -- on one side of zero both numbers are counted alike
    have hside : x < 0 ↔ y < 0 := ⟨fun hx => not_le.mp fun hy => hzero ⟨hx.le, hy⟩, h.trans_lt⟩
    have hlt : (n : Rat) < m + 1 := by
      simp only [Makes, hside] at hn hm
      split_ifs at hn hm <;> linarith [hn.1, hm.2]
    exact Int.lt_add_one_iff.mp (by exact_mod_cast hlt)

/-- Below zero as many steps are made as above it. -/
theorem Makes.neg (h : Makes x n) : Makes (-x) (-n) := by
  rcases lt_trichotomy x 0 with hx | rfl | hx
  · rw [Makes, if_pos hx] at h
    rw [Makes, if_neg (neg_pos.mpr hx).not_gt]
    push_cast
    exact ⟨by linarith [h.2], by linarith [h.1]⟩
  · -- of no step none is made, and none is its own negative
    obtain rfl : n = 0 := le_antisymm (h.nonpos le_rfl) (h.nonneg le_rfl)
    simpa only [neg_zero] using h
  · rw [Makes, if_neg hx.not_gt] at h
    rw [Makes, if_pos (neg_lt_zero.mpr hx)]
    push_cast
    exact ⟨by linarith [h.2], by linarith [h.1]⟩

/-- No more steps are made than there are, up to the tolerance. -/
theorem Makes.abs_le (h : Makes x n) : |(n : Rat)| ≤ |x| + tolerance := by
  rcases le_or_gt 0 x with hx | hx
  · have hn : (0 : Rat) ≤ n := by exact_mod_cast h.nonneg hx
    rw [Makes, if_neg hx.not_gt] at h
    rw [abs_of_nonneg hn, abs_of_nonneg hx]
    linarith [h.1]
  · have hn : (n : Rat) ≤ 0 := by exact_mod_cast h.nonpos hx.le
    rw [Makes, if_pos hx] at h
    rw [abs_of_nonpos hn, abs_of_neg hx]
    linarith [h.2]

/-! ## Amounts -/

/-- **Rounding keeps the order of amounts**, though two of them may become one. -/
theorem round_mono (h : 0 < lot.unit) (hle : amount ≤ amount') : lot.round amount ≤ lot.round amount' :=
  (roundsOnto h).le (roundsOnto h) fun _ _ hn hm => hn.mono hm (div_le_div_of_nonneg_right hle h.le)

/-- **An amount that is owed** is rounded as one that is held. -/
theorem round_neg (h : 0 < lot.unit) (amount : Rat) : lot.round (-amount) = -lot.round amount := by
  obtain ⟨n, hround, hn⟩ := exists_steps h amount
  obtain ⟨m, hround', hm⟩ := exists_steps h (-amount)
  rw [neg_div] at hm
  have hsteps : m = -n := le_antisymm (hm.mono hn.neg le_rfl) (hn.neg.mono hm le_rfl)
  rw [hround, hround', hsteps, Int.cast_neg, neg_mul]

/-- **Rounding leads towards zero**, or away from it by no more than the tolerance. -/
theorem abs_round_le (h : 0 < lot.unit) (amount : Rat) :
    |lot.round amount| ≤ |amount| + tolerance * lot.unit := by
  obtain ⟨n, hround, hn⟩ := exists_steps h amount
  calc |lot.round amount|
      = |(n : Rat)| * lot.unit := by rw [hround, abs_mul, abs_of_pos h]
    _ ≤ (|amount / lot.unit| + tolerance) * lot.unit := mul_le_mul_of_nonneg_right hn.abs_le h.le
    _ = |amount| + tolerance * lot.unit := by
        rw [add_mul, abs_div, abs_of_pos h, div_mul_cancel₀ _ h.ne']

/-- **Rounding is a monotone projection onto the lots, towards zero.** On lots with a step above zero, an amount is
moved to a whole number of steps, on its side of zero or to zero. It is moved by less than a step, and away from zero
by no more than a ten-thousandth of one. An amount that is owed is rounded as one that is held, the lower one of two
amounts is not moved above the other, and what was rounded once stays where it is. -/
theorem round_projection (h : 0 < lot.unit) {x y : Rat} (hle : x ≤ y) :
    (∃ n : ℤ, lot.round x = n * lot.unit) ∧
      (lot.round x = 0 ∨ Quantity.sameSide (lot.round x) x = true) ∧
      |x - lot.round x| < lot.unit ∧
      |lot.round x| ≤ |x| + 1 / 10 ^ 4 * lot.unit ∧
      lot.round (-x) = -lot.round x ∧
      lot.round x ≤ lot.round y ∧
      lot.round (lot.round x) = lot.round x := by
  have hlots := (roundsOnto h).on_grid x
  have htowards := abs_round_le h x
  rw [tolerance_rat] at htowards
  exact ⟨hlots, or_iff_not_imp_left.mpr sameSide_round, abs_sub_round_lt h x, htowards, round_neg h x,
    round_mono h hle, (round_eq_self_iff h).mpr hlots⟩

/-- On hundredths of a share, an amount that is owed and falls short of three hundredths by a ten-millionth is rounded
to three hundredths, away from zero, as the same amount would be if it were held. It is moved by no more than a
ten-thousandth of a hundredth and not again, and it does not come above two and a half hundredths, which are rounded to
two. -/
theorem round_projection_owed :
    let lot : Lot Rat := .fractional (1 / 100)
    let x : Rat := -(3 / 100) + 1 / 10 ^ 7
    let y : Rat := -(1 / 40)
    0 < lot.unit ∧ x ≤ y ∧ lot.round x = -(3 / 100) ∧ lot.round y = -(2 / 100) ∧ lot.round x < x ∧
      |lot.round x| ≤ |x| + 1 / 10 ^ 4 * lot.unit ∧ lot.round (-x) = -lot.round x ∧ lot.round x ≤ lot.round y ∧
      lot.round (lot.round x) = lot.round x := by
  intro lot x y
  have hunit : 0 < lot.unit := by norm_num [lot, unit]
  have hle : x ≤ y := by norm_num [x, y]
  obtain ⟨-, -, -, htowards, hneg, hmono, hagain⟩ := round_projection hunit hle
  exact ⟨hunit, hle, by decide +kernel, by decide +kernel, by decide +kernel, htowards, hneg, hmono, hagain⟩

end Lot

end Holdings
