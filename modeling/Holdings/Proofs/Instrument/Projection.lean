import Mathlib
import Holdings.Proofs.Instrument

/-!
# Rounding is a projection onto the ticks

Whatever the rule, the prices that rounding leaves are those on the ticks (`Instrument.roundPrice_eq_self_iff`), and it
moves every price to one of them without changing the order of prices (`Instrument.roundPrice_mono`). Rounded down a
price does not lie above where the nearest tick is, and rounded up it does not lie below
(`Instrument.roundPrice_down_le_nearest`, `Instrument.roundPrice_nearest_le_up`), though a price that counts as lying on
a tick may move against its rule.

All of this is said first of numbers of ticks, by `TickRule.Makes`, and carried over to prices as to whatever is rounded
onto a grid (`Instrument.roundsOnto`).
-/

namespace Holdings

namespace TickRule

variable {x : Rat} {n m : ℤ}

/-- Counted down there are no more ticks than the nearest number. -/
theorem makes_down_le_nearest (hn : TickRule.down.Makes x n) (hm : TickRule.nearest.Makes x m) : n ≤ m := by
  have htol := Instrument.tolerance_lt_half
  have hnear := (abs_le.mp hm.abs_sub_le_half).2
  have hlt : (n : Rat) < m + 1 := by linarith [hn.1]
  exact Int.lt_add_one_iff.mp (by exact_mod_cast hlt)

/-- Counted up there are no fewer. -/
theorem makes_nearest_le_up (hn : TickRule.nearest.Makes x n) (hm : TickRule.up.Makes x m) : n ≤ m := by
  have htol := Instrument.tolerance_lt_half
  have hnear := (abs_le.mp hn.abs_sub_le_half).1
  have hlt : (n : Rat) < m + 1 := by linarith [hm.2]
  exact Int.lt_add_one_iff.mp (by exact_mod_cast hlt)

end TickRule

namespace Instrument

variable {i : Instrument Rat} {rule : TickRule} {price price' : Rat}

/-- A price lies on a tick. -/
def OnTicks (i : Instrument Rat) (price : Rat) : Prop := ∃ n : ℤ, price = n * i.tick

/-- Rounding leads to a tick. -/
theorem onTicks_roundPrice (htick : 0 < i.tick) (rule : TickRule) (price : Rat) :
    i.OnTicks (i.roundPrice rule price) :=
  (roundsOnto htick rule).on_grid price

/-- **The prices that rounding leaves** are those on the ticks. -/
theorem roundPrice_eq_self_iff (htick : 0 < i.tick) (rule : TickRule) :
    i.roundPrice rule price = price ↔ i.OnTicks price :=
  (roundsOnto htick rule).eq_self_iff fun hmakes => hmakes.unique (rule.makes_intCast _)

/-- A price on a tick stays, whatever the rule. -/
theorem OnTicks.roundPrice_eq (h : i.OnTicks price) (htick : 0 < i.tick) (rule : TickRule) :
    i.roundPrice rule price = price :=
  (roundPrice_eq_self_iff htick rule).mpr h

/-- **Rounding keeps the order of prices**, though two of them may become one. -/
theorem roundPrice_mono (htick : 0 < i.tick) (rule : TickRule) (h : price ≤ price') :
    i.roundPrice rule price ≤ i.roundPrice rule price' :=
  (roundsOnto htick rule).le (roundsOnto htick rule) fun _ _ hn hm =>
    hn.mono hm (div_le_div_of_nonneg_right h htick.le)

theorem roundPrice_down_le_nearest (htick : 0 < i.tick) (price : Rat) :
    i.roundPrice .down price ≤ i.roundPrice .nearest price :=
  (roundsOnto htick .down).le (roundsOnto htick .nearest) fun _ _ hn hm => TickRule.makes_down_le_nearest hn hm

theorem roundPrice_nearest_le_up (htick : 0 < i.tick) (price : Rat) :
    i.roundPrice .nearest price ≤ i.roundPrice .up price :=
  (roundsOnto htick .nearest).le (roundsOnto htick .up) fun _ _ hn hm => TickRule.makes_nearest_le_up hn hm

/-- **The nearest tick** is no more than half a tick away. -/
theorem abs_roundPrice_nearest_sub_le (htick : 0 < i.tick) (price : Rat) :
    |i.roundPrice .nearest price - price| ≤ i.tick / 2 := by
  obtain ⟨n, hmakes, hmoved⟩ := (roundsOnto htick .nearest).exists_abs_sub price
  calc |i.roundPrice .nearest price - price|
      = |price / i.tick - n| * i.tick := by rw [abs_sub_comm, hmoved]
    _ ≤ 1 / 2 * i.tick := mul_le_mul_of_nonneg_right hmakes.abs_sub_le_half htick.le
    _ = i.tick / 2 := by ring

/-- **Rounding is a monotone projection onto the ticks.** On ticks above zero and by any rule, a price is moved to a
whole number of ticks. The lower one of two prices is not moved above the other. What was rounded once stays where it
is, by whatever rule it is rounded again. Rounded down a price is less than a tick lower, and higher by no more than a
thousand-millionth of a tick; rounded up it is the other way round; and the nearest tick is no more than half a tick
away and lies between the two. -/
theorem roundPrice_projection (htick : 0 < i.tick) (rule : TickRule) {p q : Rat} (h : p ≤ q) :
    (∃ n : ℤ, i.roundPrice rule p = n * i.tick) ∧
      i.roundPrice rule p ≤ i.roundPrice rule q ∧
      (∀ again, i.roundPrice again (i.roundPrice rule p) = i.roundPrice rule p) ∧
      i.roundPrice .down p ∈ Set.Ioc (p - i.tick) (p + 1 / 10 ^ 9 * i.tick) ∧
      i.roundPrice .up p ∈ Set.Ico (p - 1 / 10 ^ 9 * i.tick) (p + i.tick) ∧
      |i.roundPrice .nearest p - p| ≤ i.tick / 2 ∧
      i.roundPrice .down p ≤ i.roundPrice .nearest p ∧
      i.roundPrice .nearest p ≤ i.roundPrice .up p := by
  have hticks := onTicks_roundPrice htick rule p
  obtain ⟨hlow, hhigh⟩ := roundPrice_down htick p
  obtain ⟨hlow', hhigh'⟩ := roundPrice_up htick p
  rw [tolerance_rat] at hhigh hlow'
  exact ⟨hticks, roundPrice_mono htick rule h, fun again => hticks.roundPrice_eq htick again, ⟨hlow, hhigh.le⟩,
    ⟨hlow'.le, hhigh'⟩, abs_roundPrice_nearest_sub_le htick p, roundPrice_down_le_nearest htick p,
    roundPrice_nearest_le_up htick p⟩

/-- On ticks of a cent a price that is short of 100.13 by a ten-thousand-millionth of a cent is rounded down to 100.13,
which is above it, and no higher than where 100.13 itself is rounded to; there it stays when it is rounded up. -/
theorem roundPrice_projection_cent :
    let i : Instrument Rat := ⟨"SPY", 1 / 100, .equity, 1⟩
    let p : Rat := 10013 / 100 - 1 / 10 ^ 12
    p < i.roundPrice .down p ∧ i.roundPrice .down p ≤ i.roundPrice .down (10013 / 100) ∧
      i.roundPrice .up (i.roundPrice .down p) = i.roundPrice .down p ∧
      i.roundPrice .down p ≤ p + 1 / 10 ^ 9 * (1 / 100) := by
  intro i p
  have htick : 0 < i.tick := by norm_num [i]
  have hle : p ≤ 10013 / 100 := by norm_num [p]
  obtain ⟨-, hmono, hagain, hdown, -⟩ := roundPrice_projection htick .down hle
  exact ⟨by decide +kernel, hmono, hagain .up, hdown.2⟩

end Instrument

end Holdings
