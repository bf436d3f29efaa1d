import Mathlib
import Holdings.Proofs.Account.InPlace

/-!
# Fills that carry levels

A fill may carry the exit levels of the position that it leads to. They are put onto the ticks before the fill is
settled, for the side that its quantity leads to, and they are put on after it is settled, if it leaves anything to
guard.

* `Settlement.apply_carrying` — on a position, the fill is settled and the levels are set;
* `Account.isLong_of_left` — the side that was foreseen is the side that the fill leads to;
* `Account.carried_levels_as_set` — on an account, a fill that carries levels does what the fill without them and the
  setting of levels do one after the other, except that nothing stays of the fill if the levels are refused.
-/

namespace Holdings

variable {α : Type} [Quantity α]

/-! ## On a position -/

namespace Settlement

variable {s : Settlement α}

/-- What is checked of a fill for a position does not concern its levels. -/
theorem fault?_withoutLevels (p : Position α) (f : Fill α) : s.fault? p f.withoutLevels = s.fault? p f := rfl

/-- How a fill settles does not depend on its levels. -/
theorem settle_withoutLevels (p : Position α) (f : Fill α) : s.settle p f.withoutLevels = s.settle p f := rfl

/-- **A fill that carries levels** is settled as without them, and then the levels are set if anything is left. -/
theorem apply_carrying (p : Position α) {f : Fill α} {l : ExitLevels α} (hf : f.levels = some l) :
    s.apply p f = match s.apply p f.withoutLevels with
      | .error fault => .error fault
      | .ok (o, q) => if q.isFlat then .ok (o, q) else (q.configure l).map (o, ·) := by
  rw [apply_of_levels_none p (show f.withoutLevels.levels = none from rfl), fault?_withoutLevels,
    settle_withoutLevels, apply]
  rcases s.fault? p f with - | fault
  · rw [hf]
  · rfl

/-- A remainder is the whole sum, unless it counts as nothing. -/
theorem remaining_of_left [Quantity.LawfulZero α] {held quantity : α}
    (h : (s.remaining held quantity == 0) = false) : s.remaining held quantity = held + quantity := by
  rw [remaining] at h ⊢
  split
  · next hdust =>
    rw [if_pos hdust, Quantity.LawfulZero.zero_beq] at h
    cases h
  · rfl

end Settlement

/-! ## On an account -/

namespace Account

variable {t : Terms α} {a : Account α} {f : Fill α} {o : Outcome α} {l : ExitLevels α}

omit [Quantity α] in
/-- Of two positions that are put in, the second one stays. -/
theorem keep_keep (a : Account α) (asset : Asset) (p q : Position α) :
    (a.keep asset p).keep asset q = a.keep asset q := by
  refine ext_get? (fun other => ?_) rfl
  rw [get?_keep, get?_keep, get?_keep]
  split <;> rfl

/-- The amount that a fill is added to is the one held, zero if none is. -/
theorem getD_amount [Quantity.LawfulLiteral α] (a : Account α) (asset : Asset) :
    ((a.get? asset).map Position.amount).getD 0.0 = (a.held asset).amount := by
  rw [held]
  rcases a.get? asset with - | p
  · exact Quantity.LawfulLiteral.zero_literal
  · rfl

/-- **The side that is foreseen** from what is held and the quantity of a fill is the one of the position that the fill
leaves, if it leaves any. -/
theorem isLong_of_left [Quantity.LawfulZero α] {s : Settlement α} {p q : Position α}
    (hq : s.apply p f.withoutLevels = .ok (o, q)) (hleft : q.isFlat = false) :
    q.isLong = decide (0 < p.amount + f.quantity) := by
  have hamount : q.amount = s.remaining p.amount f.quantity := by
    obtain ⟨-, hsettled⟩ := (Settlement.apply_eq_ok_iff_of_levels_none rfl).mp hq
    rw [show q = (s.settle p f.withoutLevels).2 from (congrArg Prod.snd hsettled).symm, Settlement.settle_eq]
    rfl
  rw [Position.isFlat, hamount] at hleft
  rw [Position.isLong, hamount, Settlement.remaining_of_left hleft]

/-- The account after a fill that has settled to a position: it is kept unless it is flat. -/
def settled (a : Account α) (asset : Asset) (o : Outcome α) (q : Position α) : Account α :=
  { (if q.isFlat then a.release asset else a.keep asset q) with realized := a.realized + o.netProfit }

/-- A fill settles at the position in its asset, or else at a flat one. -/
theorem apply_eq (t : Terms α) (a : Account α) (f : Fill α) :
    a.apply t f = (t.settlement.apply (a.held f.asset) (a.onTicks t f)).map fun x =>
      (x.1, a.settled f.asset x.1 x.2) := by
  rw [apply]
  rcases hs : t.settlement.apply (a.held f.asset) (a.onTicks t f) with fault | ⟨o, q⟩
  · rfl
  · simp only [Except.map, settled, Position.isFlat, (Settlement.apply_position hs).2.1]

theorem get?_settled (a : Account α) (asset : Asset) (o : Outcome α) (q : Position α) :
    (a.settled asset o q).get? asset = if q.isFlat then none else some q := by
  rw [settled]
  split
  · exact (get?_release ..).trans (if_pos rfl)
  · exact (get?_keep ..).trans (if_pos rfl)

/-- A position that is put in place of the one that a fill has left is left by the fill. -/
theorem settled_keep (a : Account α) (asset : Asset) {o o' : Outcome α} {p q : Position α}
    (hprofit : o.netProfit = o'.netProfit) (hp : p.isFlat = false) (hq : q.isFlat = false) :
    (a.settled asset o p).keep asset q = a.settled asset o' q := by
  simp only [settled, hp, hq, hprofit, Bool.false_eq_true, if_false]
  exact congrArg (fun c : Account α => { c with realized := a.realized + o'.netProfit }) (keep_keep a asset p q)

/-- Levels that are set right after a fill are set on the position that it has left. -/
theorem setLevels_settled (a : Account α) (asset : Asset) (o : Outcome α) {q : Position α}
    (hleft : q.isFlat = false) (l : ExitLevels α) :
    (a.settled asset o q).setLevels t asset l =
      (q.configure (t.roundLevels asset q.isLong l)).map (a.settled asset o) := by
  simp only [setLevels, get?_settled, hleft, Bool.false_eq_true, if_false]
  rcases hc : q.configure (t.roundLevels asset q.isLong l) with fault | p
  · rfl
  · obtain ⟨-, rfl⟩ := Position.configure_eq_ok hc
    exact congrArg Except.ok (settled_keep a asset rfl hleft hleft)

/-- A fill without levels settles as it is. -/
theorem apply_withoutLevels (t : Terms α) (a : Account α) (f : Fill α) :
    a.apply t f.withoutLevels = (t.settlement.apply (a.held f.asset) f.withoutLevels).map fun x =>
      (x.1, a.settled f.asset x.1 x.2) := by
  rw [apply_eq, onTicks_of_levels_none t a (show f.withoutLevels.levels = none from rfl)]
  rfl

/-- A fill that carries levels settles, and then its levels are set, on the ticks of the side that was foreseen. -/
theorem apply_foreseen [Quantity.LawfulLiteral α] (t : Terms α) (a : Account α) (hf : f.levels = some l) :
    a.apply t f = match t.settlement.apply (a.held f.asset) f.withoutLevels with
      | .error fault => .error fault
      | .ok (o, q) =>
        if q.isFlat then .ok (o, a.settled f.asset o q)
        else (q.configure (t.roundLevels f.asset (0 < (a.held f.asset).amount + f.quantity) l)).map fun p =>
          (o, a.settled f.asset o p) := by
  have hticks : (a.onTicks t f).levels =
      some (t.roundLevels f.asset (0 < (a.held f.asset).amount + f.quantity) l) := by
    simp only [onTicks, hf, Option.map_some, getD_amount]
  rw [apply_eq, Settlement.apply_carrying _ hticks, show (a.onTicks t f).withoutLevels = f.withoutLevels from rfl]
  rcases t.settlement.apply (a.held f.asset) f.withoutLevels with fault | ⟨o, q⟩
  · rfl
  · dsimp only
    split_ifs
    · rfl
    · rcases q.configure _ with fault | p <;> rfl

/-- **A fill that carries levels is the fill without them, and then the setting of levels** if it has left anything. -/
theorem apply_carrying [Quantity.LawfulZero α] [Quantity.LawfulLiteral α] (t : Terms α) (a : Account α)
    (hf : f.levels = some l) :
    a.apply t f = match a.apply t f.withoutLevels with
      | .error fault => .error fault
      | .ok (o, b) =>
        if (b.get? f.asset).isNone then .ok (o, b) else (b.setLevels t f.asset l).map (o, ·) := by
  rw [apply_foreseen t a hf, apply_withoutLevels]
  rcases hs : t.settlement.apply (a.held f.asset) f.withoutLevels with fault | ⟨o, q⟩
  · rfl
  simp only [Except.map, get?_settled]
  rcases hleft : q.isFlat with - | -
  · -- the side that was foreseen is the one that is left
    rw [setLevels_settled a f.asset o hleft, isLong_of_left hs hleft]
    rcases q.configure _ with fault | p <;> rfl
  · rfl

/-- **Levels that a fill carries are levels that are set after it.** On any account and whatever is known of the
instruments, a fill that carries levels is refused if it is refused without them. If without them it leaves nothing in
its asset, the levels do not matter. Otherwise it has the outcome that it has without them, and leaves the account that
setting the levels then leaves; if setting them is refused, it is refused for the same reason, and the account stays
as it was before the fill. -/
theorem carried_levels_as_set [Quantity.LawfulZero α] [Quantity.LawfulLiteral α] (t : Terms α) (a : Account α)
    (f : Fill α) (l : ExitLevels α) (hf : f.levels = some l) :
    (a.apply t f = match a.apply t f.withoutLevels with
      | .error fault => .error fault
      | .ok (o, b) =>
        if (b.get? f.asset).isNone then .ok (o, b) else (b.setLevels t f.asset l).map (o, ·)) ∧
    (applyInPlace t f).on a = match (applyInPlace t f.withoutLevels).on a with
      | (.error fault, _) => (.error fault, a)
      | (.ok o, b) =>
        if (b.get? f.asset).isNone then (.ok o, b)
        else match (setLevelsInPlace t f.asset l).on b with
          | (.error fault, _) => (.error fault, a)
          | (.ok _, c) => (.ok o, c) := by
  have hcarrying := apply_carrying t a hf
  refine ⟨hcarrying, ?_⟩
  rw [applyInPlace_on, applyInPlace_on, hcarrying]
  rcases a.apply t f.withoutLevels with fault | ⟨o, b⟩
  · rfl
  · simp only [Call.atOnce_ok, setLevelsInPlace_on]
    split_ifs
    · rfl
    · rcases b.setLevels t f.asset l with fault | c <;> rfl

/-- Fifteen of ten shares are sold, with levels off the ticks: they go onto those of the short position that is left,
the stop-loss up and the take-profit down, as if set after the sale. -/
theorem carried_levels_as_set_turned :
    let t : Terms Rat := ⟨⟨1 / 1000, .intoBasis⟩, .wholeShares, fun asset => some (.share asset)⟩
    let a : Account Rat := { book := Book.empty.insert "SPY" { Position.flat "SPY" with amount := 10, basis := 100 }
                             realized := 0 }
    let l : ExitLevels Rat := ⟨some (120004 / 1000), some (89996 / 1000)⟩
    let f : Fill Rat := ⟨"SPY", -15, 110, 0, none, some l⟩
    (a.apply t f = match a.apply t f.withoutLevels with
      | .error fault => .error fault
      | .ok (o, b) =>
        if (b.get? f.asset).isNone then .ok (o, b) else (b.setLevels t f.asset l).map (o, ·)) ∧
    (((applyInPlace t f.withoutLevels).on a).2.get? "SPY").map (fun p => (p.amount, p.levels)) = some (-5, .unset) ∧
    (((applyInPlace t f).on a).2.get? "SPY").map (fun p => (p.amount, p.levels)) =
      some (-5, ⟨some (12001 / 100), some (8999 / 100)⟩) := by
  intro t a l f
  refine ⟨?_, by decide +kernel, by decide +kernel⟩
  have hcarried := (carried_levels_as_set t a f l rfl).1
  generalize a.apply t f.withoutLevels = bare at hcarried ⊢
  rcases bare with fault | ⟨o, b⟩ <;> exact hcarried

end Account

end Holdings
