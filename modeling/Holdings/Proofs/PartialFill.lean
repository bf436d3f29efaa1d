import Mathlib
import Holdings.Proofs.Settlement.Mirror

/-!
# Fills in parts

A fill may be executed in parts, each at the same price and with its share of the cost. In exact arithmetic nothing
is lost or gained by that: `Settlement.apply_parts` says that two parts on the same side leave the position that the
whole fill leaves and realise together what it realises, also where zero is crossed within a part or between the two.
A flip, so, is an end and an opening.

The one thing to avoid is a remainder between the parts that is so small that it counts as nothing.
-/

namespace Holdings

namespace Fill

/-- A part of a fill: some of its quantity, with that share of its cost. -/
def part (f : Fill Rat) (quantity : Rat) : Fill Rat :=
  { f with quantity := quantity, cost := f.cost * quantity / f.quantity }

end Fill

/-- What two parts of a fill do, and what they do together. -/
inductive FillKind.Parts : FillKind → FillKind → FillKind → Prop where
  /-- the first part opens a position, the second adds to it -/
  | opened : Parts .opened .increased .opened
  /-- both add to the position -/
  | increased : Parts .increased .increased .increased
  /-- both take from the position -/
  | reduced : Parts .reduced .reduced .reduced
  /-- the second part takes what the first one left -/
  | closed : Parts .reduced .closed .closed
  /-- zero is crossed within the second part -/
  | flippedLate : Parts .reduced .flipped .flipped
  /-- zero lies between the parts -/
  | flippedBetween : Parts .closed .opened .flipped
  /-- zero is crossed within the first part -/
  | flippedEarly : Parts .flipped .increased .flipped

namespace Settlement

variable {s : Settlement Rat} {p : Position Rat} {f : Fill Rat} {x y held : Rat}

/-! ## The kinds of the parts -/

/-- Where the remainder between the parts does not count as nothing, the second part meets all of it. -/
theorem remaining_part (h : held + x = 0 ∨ s.minimum ≤ |held + x|) :
    s.remaining held x = held + x := by
  rcases h with h | h
  · rw [remaining, h]
    simp
  · exact remaining_of_le h

theorem remaining_parts (s : Settlement Rat) (held x y : Rat) :
    s.remaining (held + x) y = s.remaining held (x + y) := by
  simp only [remaining, add_assoc]

/-! ### Purchases -/

theorem kindOf_flat (quantity left : Rat) : kindOf 0 quantity left = .opened := by simp [kindOf]

theorem kindOf_long {quantity : Rat} (hheld : 0 < held) (h : 0 < quantity) (left : Rat) :
    kindOf held quantity left = .increased := by
  simp [kindOf, Quantity.sameSide, hheld, hheld.ne', h]

/-- A purchase for a short position covers it in part, wholly, or more than that. -/
theorem kindOf_short {quantity : Rat} (hheld : held < 0) (h : 0 < quantity) (left : Rat) :
    kindOf held quantity left = if left = 0 then .closed else if left < 0 then .reduced else .flipped := by
  simp [kindOf, Quantity.sameSide, hheld, hheld.ne, hheld.not_gt, h.not_gt]

/-- The kinds of two purchases, and of both together. -/
theorem parts_of_pos (hx : 0 < x) (hy : 0 < y) (hmin : s.minimum ≤ y) (held : Rat) :
    FillKind.Parts (kindOf held x (held + x))
      (kindOf (held + x) y (s.remaining (held + x) y))
      (kindOf held (x + y) (s.remaining (held + x) y)) := by
  have hxy : 0 < x + y := add_pos hx hy
  -- where the first part leaves nothing or a long position, the second part makes it longer
  have hlong : 0 ≤ held + x → 0 < s.remaining (held + x) y := fun h => by
    have hsum : 0 < held + x + y := add_pos_of_nonneg_of_pos h hy
    rw [remaining_of_le (by rw [abs_of_pos hsum]; linarith)]
    exact hsum
  rcases lt_trichotomy held 0 with hheld | rfl | hheld
  · rw [kindOf_short hheld hx, kindOf_short hheld hxy]
    rcases lt_trichotomy (held + x) 0 with hsum | hsum | hsum
    · -- what the first part leaves is as short as what the whole fill meets
      rw [if_neg hsum.ne, if_pos hsum, kindOf_short hsum hy]
      split_ifs
      · exact .closed
      · exact .reduced
      · exact .flippedLate
    · have hleft := hlong hsum.ge
      rw [if_neg hleft.ne', if_neg hleft.not_gt, if_pos hsum, hsum, kindOf_flat]
      exact .flippedBetween
    · have hleft := hlong hsum.le
      rw [if_neg hleft.ne', if_neg hleft.not_gt, if_neg hsum.ne', if_neg hsum.not_gt,
        kindOf_long hsum hy]
      exact .flippedEarly
  · rw [kindOf_flat, kindOf_flat, kindOf_long (by rwa [zero_add]) hy]
    exact .opened
  · rw [kindOf_long hheld hx, kindOf_long hheld hxy, kindOf_long (add_pos hheld hx) hy]
    exact .increased

/-- **The kinds of two parts of a fill**, and of the whole. -/
theorem parts_of_sameSide {quantity : Rat} (hsum : x + y = quantity) (hside : Quantity.sameSide x y = true)
    (hmin : s.minimum ≤ |y|) (held : Rat) :
    FillKind.Parts (kindOf held x (held + x))
      (kindOf (held + x) y (s.remaining held quantity))
      (kindOf held quantity (s.remaining held quantity)) := by
  subst hsum
  rw [← remaining_parts]
  rcases Quantity.sameSide_iff.mp hside with ⟨hx, hy⟩ | ⟨hx, hy⟩
  · exact parts_of_pos hx hy (by rwa [abs_of_pos hy] at hmin) held
  · -- sales are purchases seen from the other side
    have hneg := parts_of_pos (s := s) (neg_pos.mpr hx) (neg_pos.mpr hy)
      (by rwa [abs_of_neg hy] at hmin) (-held)
    rwa [← neg_add, ← neg_add, remaining_neg, kindOf_neg, kindOf_neg, kindOf_neg] at hneg

/-! ## What the parts come to -/

/-- A part has the price per unit of the whole. -/
theorem unitPrice_part (s : Settlement Rat) (hx : x ≠ 0) : s.unitPrice (f.part x) = s.unitPrice f := by
  have hcost : f.cost * x / f.quantity / x = f.cost / f.quantity := by
    rw [div_right_comm, mul_div_cancel_right₀ _ hx]
  simp only [unitPrice, Fill.part, hcost]

/-- The parts bear the cost of the whole. -/
theorem expense_parts (s : Settlement Rat) (hq : f.quantity ≠ 0) (hsum : x + y = f.quantity) :
    s.expense (f.part x) + s.expense (f.part y) = s.expense f := by
  rcases hs : s.treatment with - | - <;> simp only [expense, hs, Fill.part]
  · simp
  · rw [← add_div, ← mul_add, hsum, mul_div_cancel_right₀ _ hq]

/-- A whole whose parts have no flaw has none. -/
theorem fillFault?_of_part (hside : Quantity.sameSide x y = true) (hsum : x + y = f.quantity)
    (h : s.fillFault? (f.part y) = none) : s.fillFault? f = none := by
  obtain ⟨hy, hmin, hprice⟩ := fillFault?_eq_none_iff.mp h
  have hle := Quantity.abs_le_abs_add_of_sameSide hside
  rw [hsum] at hle
  exact fillFault?_eq_none_iff.mpr ⟨abs_pos.mp ((abs_pos.mpr hy).trans_le hle), hmin.trans hle, hprice⟩

/-- Adding to a position leaves the whole sum. -/
theorem remaining_of_increased (held : Rat) (hmin : s.minimum ≤ |y|)
    (h : kindOf held y (s.remaining held y) = .increased) :
    s.remaining held y = held + y ∧ held + y ≠ 0 := by
  have hside := sameSide_of_increased h
  exact ⟨remaining_of_le (hmin.trans (Quantity.abs_le_abs_add_of_sameSide hside)),
    Quantity.ne_zero_of_sameSide (Quantity.sameSide_add hside)⟩

/-- **Basis and profit of two parts** are those of the whole. -/
theorem basisAfter_parts {p₁ : Position Rat} (hx : x ≠ 0) (hy : y ≠ 0) (hsum : x + y = f.quantity)
    (hside : Quantity.sameSide x y = true) (hminx : s.minimum ≤ |x|) (hminy : s.minimum ≤ |y|)
    (hfirst : s.remaining p.amount x = p.amount + x) (hamount : p₁.amount = p.amount + x)
    (hbasis : p₁.basis = s.basisAfter p (f.part x)) :
    s.basisAfter p₁ (f.part y) = s.basisAfter p f ∧
      s.realizedBy p (f.part x) + s.realizedBy p₁ (f.part y) = s.realizedBy p f := by
  have hparts := parts_of_sameSide hsum hside hminy p.amount
  have hleft : s.remaining (p.amount + x) y = s.remaining p.amount f.quantity := by rw [remaining_parts, hsum]
  have hopened : kindOf p.amount x (p.amount + x) = .opened → p.amount = 0 := fun h => by
    rw [kindOf] at h
    split_ifs at h with hzero
    simpa using hzero
  have hadded := remaining_of_increased p.amount hminx
  have hadded' := remaining_of_increased (p.amount + x) hminy
  rw [hfirst] at hadded
  rw [hleft] at hadded'
  simp only [basisAfter, realizedBy, unitPrice_part s hx, unitPrice_part s hy] at hbasis ⊢
  simp only [Fill.part, hfirst, hamount, hleft] at hbasis ⊢
  -- from here on the three kinds decide, and only seven combinations of them occur
  generalize kindOf p.amount x (p.amount + x) = k₁ at hparts hopened hadded hbasis ⊢
  generalize kindOf (p.amount + x) y (s.remaining p.amount f.quantity) = k₂ at hparts hadded' ⊢
  generalize kindOf p.amount f.quantity (s.remaining p.amount f.quantity) = k at hparts ⊢
  generalize s.remaining p.amount f.quantity = left at hadded' ⊢
  rw [← hsum]
  cases hparts with
  | opened =>
    obtain ⟨hleft, hne⟩ := hadded' rfl
    rw [hopened rfl, zero_add] at hleft hne
    simp only [hbasis, hopened rfl, zero_add, hleft]
    exact ⟨by rw [← add_mul, mul_div_cancel_left₀ _ hne], by simp⟩
  | increased =>
    obtain ⟨-, hne⟩ := hadded rfl
    simp only [hbasis, mul_div_cancel₀ _ hne]
    exact ⟨by ring, by simp⟩
  | reduced => exact ⟨hbasis, by rw [hbasis]; ring⟩
  | closed => exact ⟨rfl, by rw [hbasis]; ring⟩
  | flippedLate => exact ⟨rfl, by rw [hbasis]; ring⟩
  | flippedBetween => exact ⟨rfl, by simp⟩
  | flippedEarly =>
    obtain ⟨hleft, hne⟩ := hadded' rfl
    simp only [hbasis, hleft]
    exact ⟨by rw [← add_mul, mul_div_cancel_left₀ _ hne], by simp⟩

/-- Levels do not survive an accepted fill exactly if it ends a position or turns it. -/
theorem unguards_iff (h : s.fillFault? f = none) : s.unguards p f = true ↔
    kindOf p.amount f.quantity (s.remaining p.amount f.quantity) = .closed ∨
      kindOf p.amount f.quantity (s.remaining p.amount f.quantity) = .flipped := by
  obtain ⟨hq, -⟩ := quantity_of_fillFault?_eq_none h
  simp only [unguards, Bool.or_eq_true, beq_iff_eq, decide_eq_true_eq, or_assoc]
  refine or_iff_right_of_imp fun hzero => ?_
  rcases kindOf_cases h p.amount with ⟨-, -, hleft⟩ | ⟨-, -, -, hne⟩ | ⟨-, -, -, hne⟩ | ⟨hkind, -⟩ | ⟨-, -, -, hne⟩
  · exact absurd (hleft.symm.trans hzero) hq
  · exact absurd hzero hne
  · exact absurd hzero hne
  · exact .inl hkind
  · exact absurd hzero hne

/-- Levels survive two parts exactly if they survive the whole. -/
theorem unguards_parts {p₁ : Position Rat} (hsum : x + y = f.quantity)
    (h₁ : s.fillFault? (f.part x) = none) (h₂ : s.fillFault? (f.part y) = none)
    (hside : Quantity.sameSide x y = true) (hfirst : s.remaining p.amount x = p.amount + x)
    (hamount : p₁.amount = p.amount + x) :
    s.unguards p f = (s.unguards p (f.part x) || s.unguards p₁ (f.part y)) := by
  obtain ⟨-, hmin⟩ := quantity_of_fillFault?_eq_none h₂
  have hparts := parts_of_sameSide hsum hside hmin p.amount
  have hleft : s.remaining (p.amount + x) y = s.remaining p.amount f.quantity := by rw [remaining_parts, hsum]
  rw [Bool.eq_iff_iff, Bool.or_eq_true, unguards_iff (fillFault?_of_part hside hsum h₂), unguards_iff h₁,
    unguards_iff h₂]
  simp only [Fill.part, hfirst, hamount, hleft]
  generalize kindOf p.amount x (p.amount + x) = k₁ at hparts ⊢
  generalize kindOf (p.amount + x) y (s.remaining p.amount f.quantity) = k₂ at hparts ⊢
  generalize kindOf p.amount f.quantity (s.remaining p.amount f.quantity) = k at hparts ⊢
  cases hparts <;> simp

/-! ## The whole fill -/

/-- **Two settled parts.** They leave the position that the whole fill leaves, and what they realise and what they
expense adds up to what it does. -/
theorem settle_parts {p₁ : Position Rat} (hsum : x + y = f.quantity) (hside : Quantity.sameSide x y = true)
    (hbetween : p.amount + x = 0 ∨ s.minimum ≤ |p.amount + x|) (h₁ : s.fillFault? (f.part x) = none)
    (h₂ : s.fillFault? (f.part y) = none) (hp₁ : (s.settle p (f.part x)).2 = p₁) :
    (s.settle p₁ (f.part y)).2 = (s.settle p f).2 ∧
      (s.settle p (f.part x)).1.realized + (s.settle p₁ (f.part y)).1.realized = (s.settle p f).1.realized ∧
      (s.settle p (f.part x)).1.expensed + (s.settle p₁ (f.part y)).1.expensed = (s.settle p f).1.expensed ∧
      FillKind.Parts (s.settle p (f.part x)).1.kind (s.settle p₁ (f.part y)).1.kind (s.settle p f).1.kind := by
  obtain ⟨hx, hminx⟩ : x ≠ 0 ∧ s.minimum ≤ |x| := quantity_of_fillFault?_eq_none h₁
  obtain ⟨hy, hminy⟩ : y ≠ 0 ∧ s.minimum ≤ |y| := quantity_of_fillFault?_eq_none h₂
  have hq := (quantity_of_fillFault?_eq_none (fillFault?_of_part hside hsum h₂)).1
  have hfirst := remaining_part hbetween
  -- the position between the parts
  rw [settle_eq] at hp₁
  have hamount : p₁.amount = p.amount + x := (congrArg Position.amount hp₁.symm).trans hfirst
  obtain ⟨hbasis, hrealized⟩ := basisAfter_parts hx hy hsum hside hminx hminy hfirst hamount
    (congrArg Position.basis hp₁.symm)
  have hunguards := unguards_parts hsum h₁ h₂ hside hfirst hamount
  have hleft : s.remaining p₁.amount y = s.remaining p.amount f.quantity := by
    rw [hamount, remaining_parts, hsum]
  refine ⟨?_, hrealized, expense_parts s hq hsum, ?_⟩
  · have hlast : (seen f p₁.lastPrice p₁.lastTime) = seen f p.lastPrice p.lastTime := by
      subst hp₁
      exact seen_seen f p.lastPrice p.lastTime
    have hseen : seen (f.part y) = seen f := rfl
    rw [settle_eq, settle_eq, hbasis, hunguards, hseen, hlast]
    simp only [Position.mk.injEq]
    refine ⟨(congrArg Position.asset hp₁).symm, hleft, trivial, trivial, trivial, ?_, ?_⟩
    · rw [← congrArg Position.levels hp₁]
      cases s.unguards p (f.part x) <;> cases s.unguards p₁ (f.part y) <;> rfl
    · rw [← congrArg Position.trigger hp₁]
      cases s.unguards p (f.part x) <;> cases s.unguards p₁ (f.part y) <;> rfl
  · have hkinds := parts_of_sameSide hsum hside hminy p.amount
    rw [← hfirst] at hkinds
    have hmiddle : s.remaining p.amount x = p₁.amount := hfirst.trans hamount.symm
    have hkind₂ : (s.settle p₁ (f.part y)).1.kind =
        kindOf (s.remaining p.amount x) y (s.remaining p.amount f.quantity) := by
      rw [← hleft, hmiddle]
      rfl
    rwa [hkind₂]

/-- **A fill in two parts.** Where the parts lie on the same side, and the first one leaves nothing or what counts as
an amount, they leave the position that the whole fill leaves, and what they realise and what they expense adds up to
what it does. -/
theorem apply_parts {p₁ p₂ : Position Rat} {o₁ o₂ : Outcome Rat} (hlevels : f.levels = none)
    (hsum : x + y = f.quantity) (hside : Quantity.sameSide x y = true)
    (hbetween : p.amount + x = 0 ∨ s.minimum ≤ |p.amount + x|)
    (h₁ : s.apply p (f.part x) = .ok (o₁, p₁)) (h₂ : s.apply p₁ (f.part y) = .ok (o₂, p₂)) :
    ∃ o, s.apply p f = .ok (o, p₂) ∧ o.realized = o₁.realized + o₂.realized ∧
      o.expensed = o₁.expensed + o₂.expensed ∧ FillKind.Parts o₁.kind o₂.kind o.kind := by
  have hlevels₁ : (f.part x).levels = none := hlevels
  have hlevels₂ : (f.part y).levels = none := hlevels
  obtain ⟨hnone₁, hsettle₁⟩ := (apply_eq_ok_iff_of_levels_none hlevels₁).mp h₁
  obtain ⟨hnone₂, hsettle₂⟩ := (apply_eq_ok_iff_of_levels_none hlevels₂).mp h₂
  have hfault₁ := fillFault?_of_fault? hnone₁
  have hfault₂ := fillFault?_of_fault? hnone₂
  obtain ⟨hposition, hrealized, hexpensed, hkinds⟩ := settle_parts hsum hside hbetween hfault₁ hfault₂
    (congrArg Prod.snd hsettle₁)
  rw [hsettle₁, hsettle₂] at hrealized hexpensed hkinds
  rw [hsettle₂] at hposition
  have hnone : s.fault? p f = none :=
    fault?_eq_none_iff.mpr ⟨(fault?_eq_none_iff.mp hnone₁).1, fillFault?_of_part hside hsum hfault₂⟩
  refine ⟨(s.settle p f).1, ?_, hrealized.symm, hexpensed.symm, hkinds⟩
  exact (apply_eq_ok_iff_of_levels_none hlevels).mpr ⟨hnone, Prod.ext rfl hposition.symm⟩

/-- Ten are held at 100, and fifteen are sold at 110 with a cost of 15. Sold as four and then eleven they leave five
short at 109, and 36 and 54 are realised. -/
theorem apply_parts_across_zero :
    let s : Settlement Rat := .ofMinimum (1 / 10 ^ 9) .intoBasis
    let time : Instant := ⟨19724, 75600, 0⟩
    let p : Position Rat :=
      { Position.flat "SPY" with amount := 10, basis := 100, levels := ⟨some 95, some 120⟩, trigger := .armed }
    let f : Fill Rat := ⟨"SPY", -15, 110, 15, some time, none⟩
    let p₁ : Position Rat := { p with amount := 6, lastPrice := 110, lastTime := some time }
    let p₂ : Position Rat :=
      { p₁ with amount := -5, basis := 109, levels := .unset, trigger := .disarmed }
    s.apply p (f.part (-4)) = .ok (⟨.reduced, 36, 0, 6, 100⟩, p₁) ∧
      s.apply p₁ (f.part (-11)) = .ok (⟨.flipped, 54, 0, -5, 109⟩, p₂) ∧
      ∃ o, s.apply p f = .ok (o, p₂) ∧ o.realized = 36 + 54 ∧ o.expensed = 0 + 0 ∧
        FillKind.Parts .reduced .flipped o.kind := by
  intro s time p f p₁ p₂
  have h₁ : s.apply p (f.part (-4)) = .ok (⟨.reduced, 36, 0, 6, 100⟩, p₁) := by decide +kernel
  have h₂ : s.apply p₁ (f.part (-11)) = .ok (⟨.flipped, 54, 0, -5, 109⟩, p₂) := by decide +kernel
  have hsum : (-4 : Rat) + -11 = f.quantity := by decide +kernel
  exact ⟨h₁, h₂, apply_parts rfl hsum (by decide +kernel) (.inr (by decide +kernel)) h₁ h₂⟩

end Settlement

end Holdings
