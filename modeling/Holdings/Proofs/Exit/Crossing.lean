import Mathlib
import Holdings.Proofs.Levels

/-!
# Levels that a price crosses

A position looks at its stop-loss before its take-profit. `Position.reached?` looks at the level of one reason alone,
and `Position.crossed?_eq` puts the two looks together.

`Position.Exits` says where a price leaves a position by the comparison of prices and levels alone. An armed position is
left there (`Position.trigger?_of_exits`), and nothing else is done to it (`Position.trigger?_of_not_crossing`).
-/

namespace Holdings

variable {α : Type}

namespace ExitLevels

/-- The level of a reason, if it is set. -/
def level? (l : ExitLevels α) : ExitReason → Option α
  | .stopLoss => l.stopLoss
  | .takeProfit => l.takeProfit

theorem level?_only (reason : ExitReason) (level : α) : (only reason level).level? reason = some level := by
  cases reason <;> rfl

end ExitLevels

variable [Quantity α]

namespace Position

/-- The level of a reason, if a price crosses it. -/
def reached? (p : Position α) (reason : ExitReason) (price : α) : Option α :=
  (p.levels.level? reason).filter (crosses p.isLong reason price)

/-- The position after its level of a reason was crossed. -/
def leftAt (p : Position α) (reason : ExitReason) (level : α) : Position α :=
  { p with levels := .only reason level, trigger := .fired reason }

/-- A price crosses a level of a position: it is finite, and at or beyond a level that is set. -/
def Crossing (p : Position α) (price : α) : Prop :=
  Quantity.isFinite price = true ∧
    ∃ reason, ∃ level ∈ p.levels.level? reason, crosses p.isLong reason price level = true

/-- **Where a price leaves a position**: at a level that it crosses, the stop-loss if it crosses both. -/
structure Exits (p : Position α) (price : α) (reason : ExitReason) (level : α) : Prop where
  /-- the price is finite -/
  finite : Quantity.isFinite price = true
  /-- the level is set -/
  set : level ∈ p.levels.level? reason
  /-- the price crosses it -/
  crossed : crosses p.isLong reason price level = true
  /-- a take-profit is not taken where the stop-loss is crossed -/
  loss_first : reason = .takeProfit → ∀ sl ∈ p.levels.stopLoss, crosses p.isLong .stopLoss price sl = false

variable {p : Position α}

/-- A price that crosses a level leaves the position somewhere. -/
theorem Crossing.exits {price : α} (h : p.Crossing price) : ∃ reason level, p.Exits price reason level := by
  obtain ⟨hfinite, reason, level, hset, hcrossed⟩ := h
  by_cases hstop : ∃ sl ∈ p.levels.stopLoss, crosses p.isLong .stopLoss price sl = true
  · obtain ⟨sl, hsl, hcross⟩ := hstop
    exact ⟨.stopLoss, sl, hfinite, hsl, hcross, fun hreason => by cases hreason⟩
  · refine ⟨reason, level, hfinite, hset, hcrossed, fun _ sl hsl => ?_⟩
    rw [← Bool.not_eq_true]
    exact fun hcross => hstop ⟨sl, hsl, hcross⟩

/-- Of levels that are positive a price crosses the stop-loss, or else the take-profit. -/
theorem crossed?_eq (hpos : ∀ reason, ∀ level ∈ p.levels.level? reason, 0 < level) (price : α) :
    p.crossed? price = (((p.reached? .stopLoss price).map fun level => (ExitReason.stopLoss, level)) <|>
      ((p.reached? .takeProfit price).map fun level => (ExitReason.takeProfit, level))) := by
  have hfilter : ∀ reason, (p.levels.level? reason).filter
      (fun level => 0 < level && crosses p.isLong reason price level) = p.reached? reason price := by
    intro reason
    rw [reached?]
    rcases hlevel : p.levels.level? reason with - | level
    · rfl
    · have hlevel_pos : 0 < level := hpos reason level hlevel
      simp only [Option.filter, hlevel_pos, decide_true, Bool.true_and]
  have hstop : p.levels.stopLoss.filter
      (fun level => 0 < level && crosses p.isLong .stopLoss price level) = _ := hfilter .stopLoss
  have htake : p.levels.takeProfit.filter
      (fun level => 0 < level && crosses p.isLong .takeProfit price level) = _ := hfilter .takeProfit
  rw [crossed?]
  dsimp only
  rw [hstop, htake]
  rcases p.reached? .stopLoss price with - | level <;> rfl

/-- A position that is armed is left as soon as a level of it is crossed. -/
theorem trigger?_of_armed (hp : p.isFlat = false) (harmed : p.trigger = .armed) {price : α}
    (hprice : Quantity.isFinite price = true) (time : Option Instant) :
    p.trigger? price time = (p.crossed? price).map fun x =>
      (⟨p.asset, -p.amount, x.1, x.2, price, time⟩,
        { p with levels := .only x.1 x.2, trigger := .fired x.1 }) := by
  rw [trigger?, hprice, hp, harmed]
  rfl

/-- The level that a price crosses is the one that it leaves the position at. -/
theorem Exits.crossed?_eq_some {price level : α} {reason : ExitReason} (h : p.Exits price reason level)
    (hpos : ∀ reason, ∀ level ∈ p.levels.level? reason, 0 < level) :
    p.crossed? price = some (reason, level) := by
  have hreached : p.reached? reason price = some level := Option.filter_eq_some_iff.mpr ⟨h.set, h.crossed⟩
  rw [crossed?_eq hpos]
  cases reason with
  | stopLoss => rw [hreached]; rfl
  | takeProfit =>
    have hnone : p.reached? .stopLoss price = none :=
      Option.filter_eq_none_iff.mpr fun sl hsl => by simp [h.loss_first rfl sl hsl]
    rw [hnone, hreached]
    rfl

/-- Only what crosses a level is taken to do so. -/
theorem crossing_of_crossed? {price : α} (hprice : Quantity.isFinite price = true)
    (hpos : ∀ reason, ∀ level ∈ p.levels.level? reason, 0 < level) (h : p.crossed? price ≠ none) :
    p.Crossing price := by
  by_contra hnot
  have hnone : ∀ reason, p.reached? reason price = none := fun reason =>
    Option.filter_eq_none_iff.mpr fun level hlevel hcross => hnot ⟨hprice, reason, level, hlevel, hcross⟩
  exact h (by rw [crossed?_eq hpos, hnone, hnone]; rfl)

/-- **What an armed position does at a price that crosses a level**: it is left there, by a trade of all that it
holds. -/
theorem trigger?_of_exits (hp : p.isFlat = false) (harmed : p.trigger = .armed)
    (hpos : ∀ reason, ∀ level ∈ p.levels.level? reason, 0 < level) {price level : α} {reason : ExitReason}
    (h : p.Exits price reason level) (time : Option Instant) :
    p.trigger? price time = some (⟨p.asset, -p.amount, reason, level, price, time⟩, p.leftAt reason level) := by
  rw [trigger?_of_armed hp harmed h.finite, h.crossed?_eq_some hpos]
  rfl

/-- At any other price it does nothing. -/
theorem trigger?_of_not_crossing (hpos : ∀ reason, ∀ level ∈ p.levels.level? reason, 0 < level) {price : α}
    (h : ¬p.Crossing price) (time : Option Instant) : p.trigger? price time = none := by
  rcases hfire : p.trigger? price time with - | ⟨intent, q⟩
  · rfl
  · -- what fires is finite and was crossed
    have hfinite : Quantity.isFinite price = true := by
      by_contra hvoid
      rw [trigger?, if_neg (by simp [hvoid])] at hfire
      cases hfire
    obtain ⟨-, -, reason, level, hcross, -⟩ := trigger?_eq_some hfire
    exact absurd (crossing_of_crossed? hfinite hpos (by simp [hcross])) h

end Position

end Holdings
