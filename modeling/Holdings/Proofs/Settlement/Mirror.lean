import Mathlib
import Holdings.Proofs.Settlement

/-!
# Long and short

What is bought in one book may be sold in another, at the same price and with the cost of the other sign. In exact
arithmetic the second book is the first one seen from the other side: the same fills are accepted, they do the same
(`FillKind`), and amount, profit and expense have the other sign, while basis and last price are the same
(`Settlement.settle_mirror`). Nothing in the settlement of fills favours one of the two sides, so, neither a comparison
of signs nor a remainder that counts as nothing.

`Settlement.trials_mirrored` says so of fills one after the other, accepted and refused ones alike.
-/

namespace Holdings

/-! ## Seen from the other side -/

/-- The same trade for the other party: what is bought is sold, and what is paid for it is received. -/
def Fill.mirror (f : Fill Rat) : Fill Rat := { f with quantity := -f.quantity, cost := -f.cost }

/-- The same amount on the other side of zero. -/
def Position.mirror (p : Position Rat) : Position Rat := { p with amount := -p.amount }

/-- The same result for the other party: what is gained is lost. -/
def Outcome.mirror (o : Outcome Rat) : Outcome Rat :=
  { o with realized := -o.realized, expensed := -o.expensed, amount := -o.amount }

/-- The same flaw in the trade of the other party. -/
def FillFault.mirror : FillFault Rat → FillFault Rat
  | .quantity q => .quantity (-q)
  | .zeroQuantity => .zeroQuantity
  | .dust q least => .dust (-q) least
  | .price x => .price x
  | .cost x => .cost (-x)

/-- The same reason to refuse the trade of the other party. -/
def Fault.mirror : Fault Rat → Fault Rat
  | .fill flaw => .fill flaw.mirror
  | other => other

/-- The same trial for the other party. -/
def Trial.mirror (x : Trial Rat) : Trial Rat where
  held := x.held.mirror
  fill := x.fill.mirror
  answer := match x.answer with
    | .error fault => .error fault.mirror
    | .ok o => .ok o.mirror
  left := x.left.mirror

@[simp] theorem Position.mirror_flat (asset : Asset) : (flat asset : Position Rat).mirror = flat asset := by
  simp [mirror, flat]

namespace Settlement

variable (s : Settlement Rat) (p : Position Rat) (f : Fill Rat)

/-! ## One fill -/

/-- The kind of a fill does not depend on which side is which. -/
theorem kindOf_neg (held quantity left : Rat) :
    kindOf (-held) (-quantity) (-left) = kindOf held quantity left := by
  simp [kindOf, Quantity.sameSide, or_comm]

theorem remaining_neg (held quantity : Rat) : s.remaining (-held) (-quantity) = -s.remaining held quantity := by
  have hsum : -held + -quantity = -(held + quantity) := by ring
  simp only [remaining, Quantity.abs_rat, hsum, abs_neg]
  split_ifs <;> simp

/-- The cost is divided by the quantity with its sign, so that both parties have the same price per unit. -/
theorem unitPrice_mirror : s.unitPrice f.mirror = s.unitPrice f := by
  simp only [unitPrice, Fill.mirror, neg_div_neg_eq]

theorem expense_mirror : s.expense f.mirror = -s.expense f := by
  rcases hs : s.treatment with - | - <;> simp [expense, hs, Fill.mirror]

/-- A flaw of a fill is one of the other party's fill as well. -/
theorem fillFault?_mirror : s.fillFault? f.mirror = (s.fillFault? f).map FillFault.mirror := by
  simp only [fillFault?, Fill.mirror, Quantity.isFinite_rat, Quantity.abs_rat, abs_neg, Bool.not_true,
    Bool.false_eq_true, if_false, beq_iff_eq, neg_eq_zero]
  split_ifs <;> rfl

theorem fault?_mirror : s.fault? p.mirror f.mirror = (s.fault? p f).map Fault.mirror := by
  rw [fault?, fault?, fillFault?_mirror]
  by_cases hasset : p.asset ≠ f.asset
  · rw [if_pos (show p.mirror.asset ≠ f.mirror.asset from hasset), if_pos hasset]
    rfl
  · rw [if_neg (show ¬p.mirror.asset ≠ f.mirror.asset from hasset), if_neg hasset]
    cases s.fillFault? f <;> rfl

theorem kindOf_mirror : kindOf p.mirror.amount f.mirror.quantity (s.remaining p.mirror.amount f.mirror.quantity) =
    kindOf p.amount f.quantity (s.remaining p.amount f.quantity) := by
  rw [Position.mirror, Fill.mirror, remaining_neg, kindOf_neg]

/-- Averages of the same prices with weights of the other sign are the same. -/
theorem basisAfter_mirror : s.basisAfter p.mirror f.mirror = s.basisAfter p f := by
  have haverage : (-p.amount * p.basis + -f.quantity * s.unitPrice f) / -s.remaining p.amount f.quantity =
      (p.amount * p.basis + f.quantity * s.unitPrice f) / s.remaining p.amount f.quantity := by
    rw [neg_mul, neg_mul, ← neg_add, neg_div_neg_eq]
  simp only [basisAfter, kindOf_mirror, unitPrice_mirror]
  simp only [Position.mirror, Fill.mirror, remaining_neg, haverage]

theorem realizedBy_mirror : s.realizedBy p.mirror f.mirror = -s.realizedBy p f := by
  simp only [realizedBy, kindOf_mirror, unitPrice_mirror]
  cases kindOf p.amount f.quantity (s.remaining p.amount f.quantity) <;> simp [Position.mirror, Fill.mirror]

theorem unguards_mirror : s.unguards p.mirror f.mirror = s.unguards p f := by
  have hnone : (-s.remaining p.amount f.quantity == 0) = (s.remaining p.amount f.quantity == 0) :=
    Bool.eq_iff_iff.mpr (by simp only [beq_iff_eq, neg_eq_zero])
  rw [unguards, unguards, kindOf_mirror, Position.mirror, Fill.mirror, remaining_neg, hnone]

/-- **A fill settles alike on both sides**: what it does, the basis and the last price are the same, and amount, profit
and expense have the other sign. -/
theorem settle_mirror : s.settle p.mirror f.mirror = ((s.settle p f).1.mirror, (s.settle p f).2.mirror) := by
  refine Prod.ext ?_ ?_
  · simp only [settle_outcome, kindOf_mirror, basisAfter_mirror, realizedBy_mirror, expense_mirror]
    simp only [Position.mirror, Fill.mirror, remaining_neg, Outcome.mirror]
  · simp only [settle_eq, unguards_mirror, basisAfter_mirror]
    simp only [Position.mirror, Fill.mirror, remaining_neg]
    rfl

/-! ## Fills one after the other -/

/-- A fill without levels is tried alike on both sides. -/
theorem trial_mirror (hlevels : f.levels = none) : s.trial p.mirror f.mirror = (s.trial p f).mirror := by
  have hlevels' : f.mirror.levels = none := hlevels
  rw [trial, trial, apply_of_levels_none _ hlevels, apply_of_levels_none _ hlevels', fault?_mirror, settle_mirror]
  cases s.fault? p f <;> rfl

variable {s p}

/-- Fills without levels are tried alike on both sides, whatever is held. -/
theorem trials_mirror {fills : List (Fill Rat)} : ∀ {p : Position Rat}, (∀ f ∈ fills, f.levels = none) →
    s.trials p.mirror (fills.map Fill.mirror) = (s.trials p fills).map Trial.mirror := by
  induction fills with
  | nil => intro p _; rfl
  | cons f rest ih =>
    intro p hlevels
    obtain ⟨hf, hrest⟩ := List.forall_mem_cons.mp hlevels
    rw [List.map_cons, trials, trial_mirror s p f hf, trials, List.map_cons, ← ih hrest]
    rfl

/-- **Long and short accounting are mirror images.** On any terms, fills without levels are tried one after the other
from nothing held, and so are the fills of the other party. Each is accepted or refused for both alike, in the second
case for the same reason. What it does is the same, and after it so are the basis, the last price and its time, while
the amount, the profit that it realises and the cost that is expensed have the other sign. -/
theorem trials_mirrored (s : Settlement Rat) (asset : Asset) {fills : List (Fill Rat)}
    (hlevels : ∀ f ∈ fills, f.levels = none) :
    s.trials (.flat asset) (fills.map Fill.mirror) = (s.trials (.flat asset) fills).map Trial.mirror := by
  rw [← trials_mirror hlevels, Position.mirror_flat]

/-- Ten are bought at 100 with a cost of 5, a sale of a thousandth is refused, and fifteen are sold at 110 with a cost
of 15. The other party loses the 85 that are realised, and holds five at the 109 at which five are owed. -/
theorem trials_mirrored_across_zero :
    let s : Settlement Rat := .ofMinimum (1 / 100) .intoBasis
    let fills : List (Fill Rat) :=
      [⟨"SPY", 10, 100, 5, none, none⟩, ⟨"SPY", -1 / 1000, 100, 0, none, none⟩, ⟨"SPY", -15, 110, 15, none, none⟩]
    (∀ f ∈ fills, f.levels = none) ∧
      (s.trials (.flat "SPY") fills).map Trial.answer = [.ok ⟨.opened, 0, 0, 10, 201 / 2⟩,
        .error (.fill (.dust (-1 / 1000) (1 / 100))), .ok ⟨.flipped, 85, 0, -5, 109⟩] ∧
      s.trials (.flat "SPY") (fills.map Fill.mirror) = (s.trials (.flat "SPY") fills).map Trial.mirror := by
  intro s fills
  have hlevels : ∀ f ∈ fills, f.levels = none := by decide +kernel
  exact ⟨hlevels, by decide +kernel, trials_mirrored s "SPY" hlevels⟩

end Settlement

end Holdings
