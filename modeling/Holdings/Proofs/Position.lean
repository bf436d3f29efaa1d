import Mathlib
import Holdings.Exit.Trigger
import Holdings.Position.CorporateAction
import Holdings.Proofs.Quantity

/-!
# What accepted changes do to a position

One lemma for each change of a position that is accepted: what it asked for, and the position after it. Proofs
about positions go through these and do not open the changes again.
-/

namespace Holdings

/-! ## Results -/

theorem map_eq_ok_iff {ε β γ : Type} {f : β → γ} {x : Except ε β} {c : γ} :
    x.map f = .ok c ↔ ∃ b, x = .ok b ∧ f b = c := by
  cases x <;> simp [Except.map]

theorem toOption_eq_some_iff {ε β : Type} {x : Except ε β} {b : β} :
    x.toOption = some b ↔ x = .ok b := by
  cases x <;> simp [Except.toOption]

namespace Position

variable {α : Type} [Quantity α] {p q : Position α}

/-- An accepted mark is a price, and it becomes the last one. -/
theorem mark_eq_ok {price : α} {time : Instant} (h : p.mark price time = .ok q) :
    Quantity.isNoPrice price = false ∧ q = { p with lastPrice := price, lastTime := some time } := by
  rw [mark] at h
  split at h
  · cases h
  · next hprice => exact ⟨by simpa using hprice, (Except.ok.inj h).symm⟩

/-- A mark is refused for its price alone. -/
theorem mark_eq_error {price : α} {time : Instant} {fault : Fault α}
    (h : p.mark price time = .error fault) : fault = .mark price := by
  rw [mark] at h
  split at h
  · exact (Except.error.inj h).symm
  · cases h

/-- Levels that are accepted have no flaw, and they are put on. -/
theorem configure_eq_ok {l : ExitLevels α} (h : p.configure l = .ok q) :
    p.levelFault? l.normalized = none ∧ q = p.withLevels l.normalized := by
  rw [configure] at h
  split at h
  · cases h
  · next hnone => exact ⟨hnone, (Except.ok.inj h).symm⟩

/-- A trigger that fires was armed on a position that is held. The level that was crossed is the only one left. -/
theorem trigger?_eq_some {price : α} {time : Option Instant} {intent : ExitIntent α}
    (h : p.trigger? price time = some (intent, q)) :
    p.isFlat = false ∧ p.trigger = .armed ∧ ∃ reason level,
      p.crossed? price = some (reason, level) ∧
      intent = ⟨p.asset, -p.amount, reason, level, price, time⟩ ∧
      q = { p with levels := .only reason level, trigger := .fired reason } := by
  rw [trigger?] at h
  split at h
  · next hguard =>
    simp only [Bool.and_eq_true, Bool.not_eq_true', decide_eq_true_eq] at hguard
    obtain ⟨⟨reason, level⟩, hcross, hpair⟩ := Option.map_eq_some_iff.mp h
    obtain ⟨rfl, rfl⟩ := Prod.mk.inj hpair
    exact ⟨hguard.1.2, hguard.2, reason, level, hcross, rfl, rfl⟩
  · cases h

/-- An exit names the asset whose position it leaves. -/
theorem asset_of_trigger? {price : α} {time : Option Instant} {intent : ExitIntent α}
    (h : p.trigger? price time = some (intent, q)) : intent.asset = p.asset := by
  obtain ⟨-, -, reason, level, -, rfl, -⟩ := trigger?_eq_some h
  rfl

/-- A level that is crossed is a price above zero. -/
theorem crossed?_pos {price level : α} {reason : ExitReason}
    (h : p.crossed? price = some (reason, level)) : 0 < level := by
  rw [crossed?] at h
  dsimp only at h
  split at h
  · next sl hsl =>
    obtain ⟨-, rfl⟩ := Prod.mk.inj (Option.some.inj h)
    have hhit := (Option.filter_eq_some_iff.mp hsl).2
    simp only [Bool.and_eq_true, decide_eq_true_eq] at hhit
    exact hhit.1
  · obtain ⟨tp, htp, hpair⟩ := Option.map_eq_some_iff.mp h
    obtain ⟨-, rfl⟩ := Prod.mk.inj hpair
    have hhit := (Option.filter_eq_some_iff.mp htp).2
    simp only [Bool.and_eq_true, decide_eq_true_eq] at hhit
    exact hhit.1

/-- An accepted split is one of the asset by a positive ratio; a position that is flat stays as it is. -/
theorem split_eq_ok {asset : Asset} {ratio cash : α} {lot : Lot α}
    (h : p.split asset ratio lot = .ok (cash, q)) :
    p.asset = asset ∧ Quantity.isNotPositive ratio = false ∧
      (p.isFlat = true ∧ q = p ∨ p.isFlat = false ∧ (cash, q) = p.splitHeld ratio lot) := by
  rw [split] at h
  split_ifs at h with hasset hratio hflat
  · exact ⟨by simpa using hasset, by simpa using hratio, .inl ⟨hflat, (Prod.mk.inj (Except.ok.inj h)).2.symm⟩⟩
  · exact ⟨by simpa using hasset, by simpa using hratio,
      .inr ⟨by simpa using hflat, (Except.ok.inj h).symm⟩⟩

/-- A position that is held is split by every ratio that is a positive number. -/
theorem split_of_held {asset : Asset} {ratio : α} (hasset : p.asset = asset)
    (hratio : Quantity.isNotPositive ratio = false) (hheld : p.isFlat = false) (lot : Lot α) :
    p.split asset ratio lot = .ok (p.splitHeld ratio lot) := by
  rw [split, if_neg (not_not.mpr hasset), hratio, hheld]
  rfl

/-- A split leaves what is on the lots. -/
theorem splitHeld_amount (p : Position α) (ratio : α) (lot : Lot α) :
    (p.splitHeld ratio lot).2.amount = lot.round (p.amount / ratio) := by
  rw [splitHeld]
  dsimp only
  split <;> rfl

theorem isFlat_splitHeld (p : Position α) (ratio : α) (lot : Lot α) :
    (p.splitHeld ratio lot).2.isFlat = (lot.round (p.amount / ratio) == 0) := by
  rw [isFlat, splitHeld_amount]

/-- A split that leaves something moves basis, levels and last price with the amount. -/
theorem splitHeld_eq {ratio : α} {lot : Lot α} (h : (lot.round (p.amount / ratio) == 0) = false) :
    (p.splitHeld ratio lot).2 =
      { p with
        amount := lot.round (p.amount / ratio)
        basis := toCent (p.basis * ratio)
        lastPrice := p.lastPrice * ratio
        levels := p.levels.map (fun x => toCent (x * ratio)) fun x => toCent (x * ratio) } := by
  simp only [splitHeld, splitShares, isFlat, h, Bool.false_eq_true, if_false]

/-- An accepted charge changes the basis and nothing else. -/
theorem charge_eq_ok {instrument : Option (Instrument α)} {cost : α}
    (h : p.charge instrument cost = .ok q) : ∃ basis, q = { p with basis := basis } := by
  rw [charge] at h
  split at h
  · cases h
  · split_ifs at h
    · exact ⟨p.basis, (Except.ok.inj h).symm⟩
    · exact ⟨_, (Except.ok.inj h).symm⟩

end Position

end Holdings
