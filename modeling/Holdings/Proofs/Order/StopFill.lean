import Mathlib
import Holdings.Proofs.Order.Sequence
import Holdings.Proofs.Session.GapRule
import Holdings.Proofs.Session.Path

/-!
# What a stop fills at

A stop becomes a market order, so it may fill at a price that is worse than the stop. In exact arithmetic it never fills
at a better one, and on a bar that makes sense it fills at a price of the bar, unless the gap rule asks for the stop
itself (`Order.StopFilled`). It is reached exactly if the range of the bar reaches the stop, and then all of it fills
(`Order.decide_stop`).
-/

namespace Holdings

variable {α : Type} [Quantity α]

/-- A price at which who trades on a side does no better than at another one: a seller gets no more, a buyer pays no
less. -/
def Side.NoBetter (side : Side) (than price : α) : Prop :=
  match side with
  | .sell => price ≤ than
  | .buy => than ≤ price

/-- **What is known of the fill of a stop** on a bar, under a rule. -/
structure Order.StopFilled (rule : FillRule) (o : Order α) (stop : α) (b : Bar α) (x : Execution α) : Prop where
  /-- all of the order is traded -/
  quantity : x.quantity = o.quantity
  /-- the stop was gapped exactly if the bar opened at it or beyond it -/
  gapped : x.gapped = true ↔ o.side.NoBetter stop b.opening
  /-- the price is no better than the stop -/
  noBetter : o.side.NoBetter stop x.price
  /-- a stop that was not gapped fills at its price -/
  ungapped : x.gapped = false → x.price = stop
  /-- the price is one of the bar, unless the rule asks for the stop -/
  within : rule.gap ≠ .atTrigger → b.low ≤ x.price ∧ x.price ≤ b.high
  /-- where the rule asks for the stop, it fills at the stop -/
  atTrigger : rule.gap = .atTrigger → x.price = stop

theorem Bar.gaps_iff {side : Side} {stop : α} {b : Bar α} :
    b.gaps side stop = true ↔ side.NoBetter stop b.opening := by
  cases side <;> exact decide_eq_true_iff

/-- Where the rule does not ask for the stop, a stop that was gapped fills at the opening price. -/
theorem GapRule.price_of_gaps {gap : GapRule} {side : Side} {stop : α} {b : Bar α} (hgap : gap ≠ .atTrigger)
    (hgaps : b.gaps side stop = true) : gap.price b.opening stop side = b.opening := by
  cases gap with
  | atOpen => rfl
  | atTrigger => exact absurd rfl hgap
  | atWorst => exact concur_atWorst_atOpen b side stop hgaps

section Exact

variable {rule : FillRule} {o : Order Rat} {b : Bar Rat} {stop : Rat}

theorem Side.noBetter_refl (side : Side) (price : Rat) : side.NoBetter price price := by
  cases side <;> exact le_refl price

/-- A stop that the bar reaches and did not gap lies in the range of the bar. -/
theorem Bar.stop_mem {side : Side} (hsane : b.isSane = true) (hreached : b.AtStop side stop)
    (hgaps : b.gaps side stop = false) : stop ∈ Set.Icc b.low b.high := by
  obtain ⟨hlow, hhigh⟩ := b.opening_mem hsane
  cases side with
  | sell =>
    have habove : stop < b.opening := not_le.mp (of_decide_eq_false hgaps)
    exact ⟨hreached, habove.le.trans hhigh⟩
  | buy =>
    have hbelow : b.opening < stop := not_le.mp (of_decide_eq_false hgaps)
    exact ⟨hlow.trans hbelow.le, hreached⟩

/-- **The fill of a stop** on a bar that makes sense and reaches it. -/
theorem Order.stopFilled_stopFill (o : Order Rat) (rule : FillRule) (hsane : b.isSane = true)
    (hreached : b.AtStop o.side stop) : o.StopFilled rule stop b (o.stopFill rule stop b) := by
  cases hgaps : b.gaps o.side stop with
  | true =>
    have hbeyond : o.side.NoBetter stop b.opening := Bar.gaps_iff.mp hgaps
    have hfill : o.stopFill rule stop b = ⟨rule.gap.price b.opening stop o.side, o.quantity, true⟩ := by
      simp only [stopFill, hgaps, if_true]
    rw [hfill]
    refine ⟨rfl, iff_of_true rfl hbeyond, ?_, fun hungapped => ?_, fun hgap => ?_, fun hgap => ?_⟩
    · rcases rule.gap.price_cases o.side b.opening stop with hprice | hprice
      · exact hprice.symm ▸ hbeyond
      · exact hprice.symm ▸ o.side.noBetter_refl stop
    · cases hungapped
    · rw [GapRule.price_of_gaps hgap hgaps]
      exact b.opening_mem hsane
    · rw [hgap]
      rfl
  | false =>
    have hnot : ¬o.side.NoBetter stop b.opening := by
      rw [← Bar.gaps_iff, hgaps]
      exact Bool.false_ne_true
    have hfill : o.stopFill rule stop b = ⟨stop, o.quantity, false⟩ := by
      simp only [stopFill, hgaps, Bool.false_eq_true, if_false]
    rw [hfill]
    exact ⟨rfl, iff_of_false Bool.false_ne_true hnot, o.side.noBetter_refl stop, fun _ => rfl,
      fun _ => Bar.stop_mem hsane hreached hgaps, fun _ => rfl⟩

/-- **Stops fill no better than the stop, and at prices of the bar.** An order without flaw that waits for a stop is
put to a bar of its asset that makes sense. If the prices of the bar reach the stop, it is filled as
`Order.StopFilled` says, and done; and if they do not, it waits as before. -/
theorem Order.decide_stop (rule : FillRule) (hkind : o.kind = .stop stop) (hcheck : o.check = .ok ())
    (hopen : o.isOpen = true) (hasset : o.asset = b.asset) (hsane : b.isSane = true) :
    (b.AtStop o.side stop ∧ ∃ x, o.decide rule b = .ok (.filled x, { o with status := .filled }) ∧
      o.StopFilled rule stop b x) ∨
    (¬b.AtStop o.side stop ∧ o.decide rule b = .ok (.noFill, o)) := by
  have hdecision : o.decisionOn rule b = o.decideStop rule stop b := by
    rw [decisionOn_eq hopen hasset.symm, Bar.isVoid_of_isSane hsane, decideOpen, hkind]
    rfl
  rw [decide_eq hcheck hasset, advance, hdecision, decideStop_eq]
  by_cases hreached : b.AtStop o.side stop
  · rw [if_pos (reachesStop_iff.mpr hreached)]
    exact .inl ⟨hreached, _, rfl, o.stopFilled_stopFill rule hsane hreached⟩
  · rw [if_neg (mt reachesStop_iff.mp hreached)]
    exact .inr ⟨hreached, rfl⟩

/-- Ten are to be sold at 95 or worse. A bar that opens at 90 and does not come back to 95 gaps the stop, and under the
worse of the two prices they are sold at 90. -/
theorem Order.decide_stop_gapped :
    let rule : FillRule := ⟨.atWorst, .nextBar⟩
    let o : Order Rat := ⟨1, "SPY", .sell, .stop 95, 10, .active⟩
    let b : Bar Rat := ⟨"SPY", ⟨19724, 75600, 0⟩, 90, 93, 85, 92, 1000⟩
    o.kind = .stop 95 ∧ o.check = .ok () ∧ o.isOpen = true ∧ o.asset = b.asset ∧ b.isSane = true ∧
      o.decide rule b = .ok (.filled ⟨90, 10, true⟩, { o with status := .filled }) ∧
      o.StopFilled rule 95 b ⟨90, 10, true⟩ := by
  intro rule o b
  have hcheck : o.check = .ok () := by decide +kernel
  have hsane : b.isSane = true := by decide +kernel
  have hfilled : o.decide rule b = .ok (.filled ⟨90, 10, true⟩, { o with status := .filled }) := by decide +kernel
  refine ⟨rfl, hcheck, rfl, rfl, hsane, hfilled, ?_⟩
  rcases decide_stop (o := o) (b := b) rule rfl hcheck rfl rfl hsane with ⟨-, x, hdecided, hx⟩ | ⟨-, hdecided⟩
  · rw [hfilled] at hdecided
    obtain rfl := Decision.filled.inj (Prod.mk.inj (Except.ok.inj hdecided)).1
    exact hx
  · rw [hfilled] at hdecided
    cases hdecided

end Exact

end Holdings
