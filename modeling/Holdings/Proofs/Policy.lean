import Mathlib
import Holdings.Account
import Holdings.Proofs.Rounding

/-!
# Policies that are accepted

The check of a policy in exact arithmetic: the smallest quantity is above zero, and so is the precision of the lots if
they have one, and no number of the cost model is below zero (`Policy.check_eq_ok_iff`).
-/

namespace Holdings

namespace Policy

variable {p : Policy Rat}

/-- **What the check of a policy lets through.** -/
theorem check_eq_ok_iff : p.check = .ok () ↔
    0 < p.minimum ∧ (∀ precision, p.lot = .fractional precision → 0 < precision) ∧
      ∀ x ∈ p.costs.rates, 0 ≤ x := by
  have hcosts : fault?.costFault? p = none ↔ ∀ x ∈ p.costs.rates, 0 ≤ x := by
    simp [fault?.costFault?]
  have hcheck : p.check = .ok () ↔ p.fault? = none := by
    rw [check]
    rcases p.fault? with - | fault <;> simp
  rw [hcheck, fault?]
  rcases hlot : p.lot with - | precision
  · by_cases hmin : 0 < p.minimum <;> simp [hmin, not_le.mpr, not_lt.mp, hcosts]
  · by_cases hmin : 0 < p.minimum <;> by_cases hprecision : 0 < precision <;>
      simp [hmin, hprecision, not_le.mpr, not_lt.mp, hcosts]

theorem minimum_pos (h : p.check = .ok ()) : 0 < p.minimum := (check_eq_ok_iff.mp h).1

/-- The step of the lots is above zero. -/
theorem unit_pos (h : p.check = .ok ()) : 0 < p.lot.unit := by
  obtain ⟨-, hprecision, -⟩ := check_eq_ok_iff.mp h
  rcases hlot : p.lot with - | precision
  · exact one_pos
  · exact hprecision precision hlot

/-- The smallest quantity of the terms is the one of the policy. -/
theorem terms_minimum (h : p.check = .ok ()) (instrument : Asset → Option (Instrument Rat)) :
    (p.terms instrument).settlement.minimum = p.minimum :=
  (Quantity.abs_rat _).trans (abs_of_pos (minimum_pos h))

/-- The usual policy for a book in which less than one unit counts as nothing. -/
def wholeUnits : Policy Rat := { usual with minimum := 1 }

end Policy

end Holdings
