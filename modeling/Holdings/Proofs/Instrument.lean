import Mathlib
import Holdings.Instrument
import Holdings.Proofs.Grid
import Holdings.Proofs.Quantity

/-!
# Prices on the ticks

A price that is rounded lies on a whole number of ticks. Which number that is depends on how many ticks the price is,
and `TickRule.Makes` says it without rounding anything: counted down, a number of ticks is reached a little before the
price has come up to it, and counted up, it is left a little after (`Instrument.exists_ticks`).

So a rounded price is less than a tick away from where it was, and beyond it by no more than what counts as lying on a
tick (`Instrument.roundPrice_down`, `Instrument.roundPrice_up`). A price above zero may be rounded to zero:
`Instrument.TooLow` says which are (`Instrument.exists_ticks_of_pos`).
-/

namespace Holdings

namespace Instrument

theorem tolerance_rat : (tolerance : Rat) = 1 / 10 ^ 9 := by
  change (1e-9 : Rat) = 1 / 10 ^ 9
  norm_num

theorem tolerance_pos : (0 : Rat) < tolerance := by norm_num [tolerance_rat]

theorem tolerance_lt_half : (tolerance : Rat) < 1 / 2 := by norm_num [tolerance_rat]

end Instrument

/-- **How many ticks a rule makes** of a number of ticks that need not be whole. -/
def TickRule.Makes : TickRule → Rat → ℤ → Prop
  | .nearest, x, n => if x < 0 then n - 1 / 2 < x ∧ x ≤ n + 1 / 2 else n - 1 / 2 ≤ x ∧ x < n + 1 / 2
  | .down, x, n => n - Instrument.tolerance < x ∧ x ≤ n + 1 - Instrument.tolerance
  | .up, x, n => n - 1 + Instrument.tolerance ≤ x ∧ x < n + Instrument.tolerance

namespace Quantity

/-- The nearest whole number, a half away from zero. -/
theorem exists_round (x : Rat) : ∃ n : ℤ, Quantity.round x = n ∧ TickRule.nearest.Makes x n := by
  change ∃ n : ℤ, roundHalfAway x = n ∧ _
  rw [roundHalfAway]
  by_cases hx : x < 0
  · have hle := Rat.floor_le (-x + 1 / 2)
    have hlt := Rat.lt_floor_add_one (-x + 1 / 2)
    push_cast at hlt
    refine ⟨-(-x + 1 / 2).floor, by rw [if_pos hx]; push_cast; rfl, ?_⟩
    rw [TickRule.Makes, if_pos hx]
    push_cast
    constructor <;> linarith
  · have hle := Rat.floor_le (x + 1 / 2)
    have hlt := Rat.lt_floor_add_one (x + 1 / 2)
    push_cast at hlt
    refine ⟨(x + 1 / 2).floor, by rw [if_neg hx], ?_⟩
    rw [TickRule.Makes, if_neg hx]
    constructor <;> linarith

end Quantity

namespace TickRule

variable {rule : TickRule} {x y : Rat} {n m : ℤ}

/-- Of more ticks a rule makes no fewer. -/
theorem Makes.mono (hn : rule.Makes x n) (hm : rule.Makes y m) (h : x ≤ y) : n ≤ m := by
  have hlt : (n : Rat) < m + 1 := by
    cases rule with
    | nearest =>
      rw [Makes] at hn hm
      split_ifs at hn hm <;> linarith [hn.1, hm.2]
    | down => linarith [hn.1, hm.2]
    | up => linarith [hn.1, hm.2]
  exact Int.lt_add_one_iff.mp (by exact_mod_cast hlt)

/-- A rule makes one number of ticks. -/
theorem Makes.unique (hn : rule.Makes x n) (hm : rule.Makes x m) : n = m :=
  le_antisymm (hn.mono hm le_rfl) (hm.mono hn le_rfl)

theorem Makes.abs_sub_le_half (h : TickRule.nearest.Makes x n) : |x - n| ≤ 1 / 2 := by
  rw [Makes] at h
  split_ifs at h <;> exact abs_le.mpr ⟨by linarith [h.1, h.2], by linarith [h.1, h.2]⟩

/-- No other whole number is as near as one that is less than a half away. -/
theorem Makes.eq_of_abs_sub_lt (h : TickRule.nearest.Makes x n) (hm : |x - m| < 1 / 2) : m = n := by
  have hapart : |(m : Rat) - n| < 1 := by
    have htriangle := abs_sub_le (m : Rat) x n
    rw [abs_sub_comm (m : Rat) x] at htriangle
    linarith [h.abs_sub_le_half]
  exact sub_eq_zero.mp (Int.abs_lt_one_iff.mp (by exact_mod_cast hapart))

/-- A whole number less than a half away is the nearest. -/
theorem makes_nearest_of_abs_sub_lt (h : |x - n| < 1 / 2) : TickRule.nearest.Makes x n := by
  obtain ⟨hlow, hhigh⟩ := abs_lt.mp h
  rw [Makes]
  split_ifs <;> constructor <;> linarith

/-- Of a whole number of ticks a rule makes that number. -/
theorem makes_intCast (rule : TickRule) (n : ℤ) : rule.Makes n n := by
  have htol := Instrument.tolerance_pos
  have hhalf := Instrument.tolerance_lt_half
  cases rule with
  | nearest => exact makes_nearest_of_abs_sub_lt (by norm_num)
  | down => constructor <;> linarith
  | up => constructor <;> linarith

/-- Of no tick a rule makes none. -/
theorem makes_zero : rule.Makes 0 0 := by exact_mod_cast rule.makes_intCast 0

end TickRule

namespace Quantity

/-- **A number that is nearly whole** is replaced by the whole number that it is near, or it is near none and left as
it is. What counts as near is less than a half away, so that it is the nearest whole number or none. -/
theorem settled_cases (near : Rat → Prop) [DecidablePred near] (hhalf : ∀ e, near e → e < 1 / 2) (x : Rat) :
    (∃ n : ℤ, (if near |x - Quantity.round x| then Quantity.round x else x) = n ∧ near |x - n|) ∨
      (if near |x - Quantity.round x| then Quantity.round x else x) = x ∧ ∀ n : ℤ, ¬near |x - n| := by
  obtain ⟨m, hm, hmakes⟩ := exists_round x
  rw [hm]
  split_ifs with hnear
  · exact .inl ⟨m, rfl, hnear⟩
  · refine .inr ⟨rfl, fun n hn => hnear ?_⟩
    rwa [← hmakes.eq_of_abs_sub_lt (hhalf _ hn)]

end Quantity

namespace Instrument

variable {i : Instrument Rat} {rule : TickRule} {x price : Rat}

/-! ## Numbers of ticks -/

/-- A number of ticks is replaced by a whole number that it is within the tolerance of, or there is no such and it is
left as it is. -/
theorem settleNear_cases (x : Rat) :
    (∃ n : ℤ, settleNear x = n ∧ |x - n| < tolerance) ∨
      settleNear x = x ∧ ∀ n : ℤ, tolerance ≤ |x - n| := by
  simpa only [settleNear, Quantity.abs_rat, not_lt] using
    Quantity.settled_cases (· < tolerance) (fun _ hnear => hnear.trans tolerance_lt_half) x

/-- **What rounding makes of a number of ticks** is a whole number of them, the one that the rule makes. -/
theorem exists_wholeTicks (rule : TickRule) (x : Rat) :
    ∃ n : ℤ, wholeTicks rule (settleNear x) = n ∧ rule.Makes x n := by
  rcases settleNear_cases x with ⟨n, hsettle, hnear⟩ | ⟨hsettle, hfar⟩
  · -- a whole number stays as it is, whatever the rule
    obtain ⟨hlow, hhigh⟩ := abs_lt.mp hnear
    rw [hsettle]
    refine ⟨n, ?_, ?_⟩
    · cases rule with
      | nearest =>
        obtain ⟨m, hround, hmakes⟩ := Quantity.exists_round (n : Rat)
        rw [show n = m from hmakes.eq_of_abs_sub_lt (by norm_num)] at hround ⊢
        exact hround
      | down => exact congrArg Int.cast (Rat.floor_intCast n)
      | up => exact congrArg Int.cast (Rat.ceil_intCast n)
    · have htol := tolerance_lt_half
      cases rule with
      | nearest => exact TickRule.makes_nearest_of_abs_sub_lt (hnear.trans htol)
      | down => constructor <;> linarith
      | up => constructor <;> linarith
  · -- what stays as it is keeps away from the next whole number, which is why the bounds are off by the tolerance
    rw [hsettle]
    have htol := tolerance_pos
    cases rule with
    | nearest => exact Quantity.exists_round x
    | down =>
      refine ⟨x.floor, rfl, ?_, ?_⟩
      · linarith [Rat.floor_le x]
      · have hlt := Rat.lt_floor_add_one x
        have hnext := hfar (x.floor + 1)
        push_cast at hlt hnext
        rw [abs_of_neg (by linarith)] at hnext
        linarith
    | up =>
      refine ⟨x.ceil, rfl, ?_, ?_⟩
      · have hlt := Rat.ceil_lt (x := x)
        have hnext := hfar (x.ceil - 1)
        push_cast at hnext
        rw [abs_of_pos (by linarith)] at hnext
        linarith
      · linarith [Rat.le_ceil (x := x)]

/-! ## Prices -/

/-- **A rounded price is a whole number of ticks**, the one that the rule makes of the price. -/
theorem exists_ticks (htick : 0 < i.tick) (rule : TickRule) (price : Rat) :
    ∃ n : ℤ, i.roundPrice rule price = n * i.tick ∧ rule.Makes (price / i.tick) n := by
  obtain ⟨n, hwhole, hmakes⟩ := exists_wholeTicks rule (price / i.tick)
  exact ⟨n, by rw [roundPrice, if_neg htick.not_ge, hwhole], hmakes⟩

/-- **Every rule rounds onto the ticks.** -/
theorem roundsOnto (htick : 0 < i.tick) (rule : TickRule) : RoundsOnto i.tick rule.Makes (i.roundPrice rule) :=
  ⟨htick, exists_ticks htick rule⟩

/-- **Rounded down** a price is less than a tick lower, and higher by less than what counts as on a tick. -/
theorem roundPrice_down (htick : 0 < i.tick) (price : Rat) :
    price - i.tick < i.roundPrice .down price ∧
      i.roundPrice .down price < price + tolerance * i.tick := by
  obtain ⟨n, hround, hlow, hhigh⟩ := exists_ticks htick .down price
  rw [lt_div_iff₀ htick] at hlow
  rw [div_le_iff₀ htick] at hhigh
  have hsnap : 0 < tolerance * i.tick := mul_pos tolerance_pos htick
  rw [hround]
  constructor <;> linarith

/-- **Rounded up** a price is less than a tick higher, and lower by less than what counts as on a tick. -/
theorem roundPrice_up (htick : 0 < i.tick) (price : Rat) :
    price - tolerance * i.tick < i.roundPrice .up price ∧
      i.roundPrice .up price < price + i.tick := by
  obtain ⟨n, hround, hlow, hhigh⟩ := exists_ticks htick .up price
  rw [le_div_iff₀ htick] at hlow
  rw [div_lt_iff₀ htick] at hhigh
  have hsnap : 0 < tolerance * i.tick := mul_pos tolerance_pos htick
  rw [hround]
  constructor <;> linarith

theorem tolerance_mul_tick_lt (htick : 0 < i.tick) : tolerance * i.tick < i.tick := by
  nlinarith [tolerance_lt_half]

/-- Rounded down a price stays near, and is not above where it was, except for what counts as on a tick. -/
theorem roundPrice_down_near (htick : 0 < i.tick) (price : Rat) :
    |i.roundPrice .down price - price| < i.tick ∧
      (i.roundPrice .down price ≤ price ∨ |i.roundPrice .down price - price| < tolerance * i.tick) := by
  obtain ⟨hlow, hhigh⟩ := roundPrice_down htick price
  have hsnap := tolerance_mul_tick_lt htick
  refine ⟨abs_lt.mpr ⟨by linarith, by linarith⟩, ?_⟩
  rcases le_or_gt (i.roundPrice .down price) price with h | h
  · exact .inl h
  · exact .inr (by rw [abs_of_pos (sub_pos.mpr h)]; linarith)

/-- Rounded up a price stays near, and is not below where it was, except for what counts as on a tick. -/
theorem roundPrice_up_near (htick : 0 < i.tick) (price : Rat) :
    |i.roundPrice .up price - price| < i.tick ∧
      (price ≤ i.roundPrice .up price ∨ |i.roundPrice .up price - price| < tolerance * i.tick) := by
  obtain ⟨hlow, hhigh⟩ := roundPrice_up htick price
  have hsnap := tolerance_mul_tick_lt htick
  refine ⟨abs_lt.mpr ⟨by linarith, by linarith⟩, ?_⟩
  rcases le_or_gt price (i.roundPrice .up price) with h | h
  · exact .inl h
  · exact .inr (by rw [abs_of_neg (sub_neg.mpr h)]; linarith)

/-- **The prices that a rule takes to zero**: too low to come up to a tick. -/
def TooLow (i : Instrument Rat) (rule : TickRule) (price : Rat) : Prop :=
  match rule with
  | .nearest => price < 1 / 2 * i.tick
  | .down => price ≤ (1 - tolerance) * i.tick
  | .up => price < tolerance * i.tick

/-- A price that is too low makes no tick. -/
theorem tooLow_iff_makes (htick : 0 < i.tick) (hprice : 0 < price) (rule : TickRule) :
    i.TooLow rule price ↔ rule.Makes (price / i.tick) 0 := by
  have hx : 0 < price / i.tick := div_pos hprice htick
  have htol := tolerance_pos
  have hhalf := tolerance_lt_half
  cases rule with
  | nearest =>
    rw [TickRule.Makes, if_neg hx.not_gt, TooLow, ← div_lt_iff₀ htick, Int.cast_zero, zero_add]
    exact (and_iff_right (by linarith)).symm
  | down =>
    rw [TickRule.Makes, TooLow, ← div_le_iff₀ htick, Int.cast_zero, zero_add]
    exact (and_iff_right (by linarith)).symm
  | up =>
    rw [TickRule.Makes, TooLow, ← div_lt_iff₀ htick, Int.cast_zero, zero_add]
    exact (and_iff_right (by linarith)).symm

/-- **A price above zero is rounded to zero** exactly if it is too low, and otherwise to a number of ticks above
zero. -/
theorem exists_ticks_of_pos (htick : 0 < i.tick) (hprice : 0 < price) (rule : TickRule) :
    ∃ n : ℕ, i.roundPrice rule price = n * i.tick ∧ (n = 0 ↔ i.TooLow rule price) := by
  obtain ⟨n, hround, hmakes⟩ := exists_ticks htick rule price
  have hnonneg : 0 ≤ n := TickRule.makes_zero.mono hmakes (div_pos hprice htick).le
  lift n to ℕ using hnonneg
  refine ⟨n, by exact_mod_cast hround, ?_⟩
  rw [tooLow_iff_makes htick hprice]
  constructor
  · rintro rfl
    exact hmakes
  · intro hzero
    exact_mod_cast hmakes.unique hzero

end Instrument

end Holdings
