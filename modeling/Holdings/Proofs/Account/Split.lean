import Mathlib
import Holdings.Proofs.Account.Trigger
import Holdings.Proofs.Rounding

/-!
# What a split keeps

A split rounds three times: the amount onto its lots, the basis to the cent, and the cash that is paid for the rest to
the cent. In exact arithmetic nothing else is lost. What was paid for a position is what was paid for the one that is
left, together with the cash, up to half a cent for each new share and half a cent for the cash
(`Position.splitHeld_keeps`). That holds also where nothing is left and the basis is given up.

`Account.split_conserves` says so of an account, where the position is taken out of the book exactly if nothing is left.
-/

namespace Holdings

namespace Position

variable {p q : Position Rat} {ratio cash : Rat} {lot : Lot Rat}

/-- **What a split keeps** of a position, in the position that is left and the cash that is paid out. -/
structure SplitKeeps (p : Position Rat) (ratio : Rat) (lot : Lot Rat) (cash : Rat) (q : Position Rat) : Prop where
  /-- what is left is a whole number of steps -/
  onLots : ∃ n : ℤ, q.amount = n * lot.unit
  /-- less than one step is paid out -/
  near : |p.amount / ratio - q.amount| < lot.unit
  /-- amount times basis is kept, up to half a cent for each new share and half a cent for the cash -/
  value : |q.amount * q.basis + cash - p.amount * p.basis| ≤ 1 / 200 * (|p.amount / ratio| + 1)
  /-- the basis of what is left is off by no more than half a cent -/
  basis : q.amount ≠ 0 → |q.basis - p.basis * ratio| ≤ 1 / 200
  /-- what is left lies on the side of what there was -/
  side : q.amount ≠ 0 → Quantity.sameSide q.amount p.amount = true

theorem splitHeld_cash (p : Position Rat) (ratio : Rat) (lot : Lot Rat) : (p.splitHeld ratio lot).1 =
    toCent ((p.amount / ratio - lot.round (p.amount / ratio)) * toCent (p.basis * ratio)) := rfl

/-- The basis of a position that is rounded away does not count. -/
theorem splitHeld_outlay (p : Position Rat) (ratio : Rat) (lot : Lot Rat) :
    (p.splitHeld ratio lot).2.amount * (p.splitHeld ratio lot).2.basis =
      lot.round (p.amount / ratio) * toCent (p.basis * ratio) := by
  rw [splitHeld_amount]
  rcases eq_or_ne (lot.round (p.amount / ratio)) 0 with hzero | hleft
  · rw [hzero, zero_mul, zero_mul]
  · rw [splitHeld_eq (by simpa using hleft)]

/-- **A split keeps what was paid**, whatever is left. -/
theorem splitHeld_value (p : Position Rat) (lot : Lot Rat) (hratio : 0 < ratio) :
    |(p.splitHeld ratio lot).2.amount * (p.splitHeld ratio lot).2.basis + (p.splitHeld ratio lot).1 -
      p.amount * p.basis| ≤ 1 / 200 * (|p.amount / ratio| + 1) := by
  rw [splitHeld_outlay, splitHeld_cash]
  generalize hrest : p.amount / ratio - lot.round (p.amount / ratio) = rest
  generalize hcents : toCent (p.basis * ratio) = cents
  have hbasis : |cents - p.basis * ratio| ≤ 1 / 200 := hcents ▸ abs_toCent_sub_le _
  have hcash : |toCent (rest * cents) - rest * cents| ≤ 1 / 200 := abs_toCent_sub_le _
  have hpaid : p.amount * p.basis = p.amount / ratio * (p.basis * ratio) := by
    rw [mul_comm p.basis, ← mul_assoc, div_mul_cancel₀ _ hratio.ne']
  -- one error is made in the cash, and one in the basis of each new share
  have herrors : lot.round (p.amount / ratio) * cents + toCent (rest * cents) - p.amount * p.basis =
      (toCent (rest * cents) - rest * cents) + p.amount / ratio * (cents - p.basis * ratio) := by
    rw [hpaid, ← hrest]
    ring
  calc |lot.round (p.amount / ratio) * cents + toCent (rest * cents) - p.amount * p.basis|
      = |(toCent (rest * cents) - rest * cents) + p.amount / ratio * (cents - p.basis * ratio)| := by rw [herrors]
    _ ≤ |toCent (rest * cents) - rest * cents| + |p.amount / ratio| * |cents - p.basis * ratio| := by
        rw [← abs_mul]
        exact abs_add_le _ _
    _ ≤ 1 / 200 + |p.amount / ratio| * (1 / 200) := by gcongr
    _ = 1 / 200 * (|p.amount / ratio| + 1) := by ring

/-- **What a split keeps of a position.** -/
theorem splitHeld_keeps (p : Position Rat) (hratio : 0 < ratio) (hunit : 0 < lot.unit) :
    p.SplitKeeps ratio lot (p.splitHeld ratio lot).1 (p.splitHeld ratio lot).2 := by
  have hamount := splitHeld_amount p ratio lot
  refine ⟨?_, ?_, splitHeld_value p lot hratio, ?_, ?_⟩
  · obtain ⟨n, hn, -⟩ := Lot.exists_steps hunit (p.amount / ratio)
    exact ⟨n, hamount.trans hn⟩
  · rw [hamount]
    exact Lot.abs_sub_round_lt hunit _
  · intro hleft
    rw [hamount] at hleft
    rw [splitHeld_eq (by simpa using hleft)]
    exact abs_toCent_sub_le _
  · intro hleft
    rw [hamount] at hleft ⊢
    have hside := Lot.sameSide_round hleft
    simpa only [Quantity.sameSide, div_pos_iff_of_pos_right hratio, div_lt_iff₀ hratio, zero_mul] using hside

/-- A position that is rounded away leaves what a flat one leaves. -/
theorem SplitKeeps.of_nothing (h : p.SplitKeeps ratio lot cash q) (hnothing : q.amount = 0) (asset : Asset) :
    p.SplitKeeps ratio lot cash (.flat asset) := by
  have hamount : (flat asset : Position Rat).amount = q.amount := hnothing.symm
  have houtlay : (flat asset : Position Rat).amount * (flat asset : Position Rat).basis = q.amount * q.basis := by
    rw [hamount, hnothing, zero_mul, zero_mul]
  exact ⟨hamount ▸ h.onLots, hamount ▸ h.near, houtlay ▸ h.value, fun hleft => absurd rfl hleft,
    fun hleft => absurd rfl hleft⟩

end Position

namespace Account

variable {t : Terms Rat} {a : Account Rat} {asset : Asset} {p : Position Rat} {ratio : Rat}

/-- **A split conserves value up to its rounding.** Whatever is held in an asset, a split of any positive ratio onto
lots with a step above zero is accepted. With the cash that it pays out it keeps what `Position.SplitKeeps` says of the
position, the one that is left or a flat one; nothing is left in the book exactly if no amount is left; and neither the
profit nor what is held in any other asset changes. -/
theorem split_conserves (hget : a.get? asset = some p) (hheld : p.Held asset) (hratio : 0 < ratio)
    (hunit : 0 < t.lot.unit) : ∃ cash b, a.split t asset ratio = .ok (cash, b) ∧
      p.SplitKeeps ratio t.lot cash (b.held asset) ∧ (b.get? asset = none ↔ (b.held asset).amount = 0) ∧
      b.realized = a.realized ∧ ∀ other, other ≠ asset → b.get? other = a.get? other := by
  have hkeeps := p.splitHeld_keeps hratio hunit
  have hsplit := p.split_of_held hheld.asset_eq (by simpa using hratio) hheld.not_flat t.lot
  generalize p.splitHeld ratio t.lot = x at hkeeps hsplit
  obtain ⟨cash, q⟩ := x
  have hok : a.split t asset ratio = .ok (cash, if q.isFlat then a.release asset else a.keep asset q) := by
    simp only [split, hget, hsplit, Except.map]
  refine ⟨cash, _, hok, ?_⟩
  by_cases hnothing : q.amount = 0
  · have hgone : (a.release asset).get? asset = none := by rw [get?_release, if_pos rfl]
    have hflat : (a.release asset).held asset = .flat asset := by rw [held, hgone, Option.getD_none]
    rw [if_pos (by simpa [Position.isFlat] using hnothing), hflat]
    refine ⟨hkeeps.of_nothing hnothing asset, iff_of_true hgone rfl, rfl, fun other hother => ?_⟩
    rw [get?_release, if_neg hother.symm]
  · have hkept : (a.keep asset q).get? asset = some q := by rw [get?_keep, if_pos rfl]
    have hleft : (a.keep asset q).held asset = q := by rw [held, hkept, Option.getD_some]
    rw [if_neg (by simpa [Position.isFlat] using hnothing), hleft]
    refine ⟨hkeeps, iff_of_false (by rw [hkept]; exact Option.some_ne_none q) hnothing, rfl, fun other hother => ?_⟩
    rw [get?_keep, if_neg hother.symm]

/-- Seven shares that are owed at 33.333 become three at 66.67, and 33.34 are paid for the half share that is left
over: all three roundings take part. -/
theorem split_conserves_owed :
    let t : Terms Rat := ⟨.ofMinimum (1 / 10 ^ 9) .intoBasis, .wholeShares, fun _ => none⟩
    let p : Position Rat := { Position.flat "SPY" with amount := -7, basis := 33333 / 1000 }
    let a : Account Rat := empty.keep "SPY" p
    ∃ b, a.split t "SPY" 2 = .ok (-3334 / 100, b) ∧
      b.held "SPY" = { p with amount := -3, basis := 6667 / 100 } ∧
      p.SplitKeeps 2 .wholeShares (-3334 / 100) (b.held "SPY") ∧ b.get? "SPY" ≠ none := by
  intro t p a
  have hrun : (a.split t "SPY" 2).toOption.map (fun x => (x.1, x.2.held "SPY")) =
      some (-3334 / 100, { p with amount := -3, basis := 6667 / 100 }) := by decide +kernel
  have hheld : p.Held "SPY" := ⟨rfl, by decide +kernel⟩
  obtain ⟨cash, b, hok, hkeeps, hnone, -⟩ :=
    split_conserves (t := t) (a := a) (p := p) (by decide +kernel) hheld (show (0 : Rat) < 2 by norm_num) one_pos
  rw [hok] at hrun
  obtain ⟨rfl, hleft⟩ := Prod.mk.inj (Option.some.inj hrun)
  refine ⟨b, hok, hleft, hkeeps, fun hgone => ?_⟩
  have hamount := hnone.mp hgone
  rw [hleft] at hamount
  norm_num at hamount

end Account

end Holdings
