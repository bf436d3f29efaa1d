import Mathlib
import Holdings.Proofs.Account.Normalisation

/-!
# Which snapshots are accepted

A snapshot is read record by record, and the first flaw ends the reading. Whether it ends there, and what is restored
if it does not, does not depend on the order of the records.

* `Record.Valid` — what is asked of a record, by its fields alone;
* `Record.flaw?_eq_none_iff_valid` — the checks of a record ask for that and no more;
* `Account.ofSnapshot_accepts` — a snapshot is accepted exactly if its assets are different and its records valid, in
  whatever order they stand, and the positions are those that the records describe.
-/

namespace Holdings

variable {α : Type} [Quantity α]

/-! ## Levels that are written down -/

namespace ExitLevels

/-- What holds of a level that is written down holds of the price, if that is not zero. -/
theorem forall_mem_ofSentinel {x : α} {P : α → Prop} : (∀ y ∈ ofSentinel x, P y) ↔ ((x == 0) = false → P x) := by
  rw [ofSentinel]
  split_ifs with h <;> simp [h]

theorem isEmpty_ofSentinels (sl tp : α) :
    (ofSentinels sl tp).isEmpty = false ↔ (sl == 0) = false ∨ (tp == 0) = false := by
  rw [ofSentinels, ofSentinel, ofSentinel]
  split_ifs with hsl htp htp <;> simp [isEmpty, hsl, htp]

end ExitLevels

/-! ## Records -/

namespace Record

/-- **What is asked of a record**: something is held, at a basis, with a last price; a level that is not zero is a
price above zero; two levels lie on their sides of the basis; and a level that was crossed is there. -/
structure Valid (r : Record α) : Prop where
  /-- the amount is finite -/
  amount_finite : Quantity.isFinite r.amount = true
  /-- the amount is not zero -/
  amount_ne : (r.amount == 0) = false
  /-- the basis is finite -/
  basis_finite : Quantity.isFinite r.basis = true
  /-- the last price is finite -/
  price_finite : Quantity.isFinite r.lastPrice = true
  /-- the last price is not negative -/
  price_nonneg : 0 ≤ r.lastPrice
  /-- the stop-loss is zero, or finite and positive -/
  stopLoss : (r.stopLoss == 0) = false → Quantity.isFinite r.stopLoss = true ∧ 0 < r.stopLoss
  /-- the take-profit is zero, or finite and positive -/
  takeProfit : (r.takeProfit == 0) = false → Quantity.isFinite r.takeProfit = true ∧ 0 < r.takeProfit
  /-- two levels of a long position lie below and above the basis -/
  straddle_long : (r.stopLoss == 0) = false → (r.takeProfit == 0) = false → 0 < r.amount →
    r.stopLoss ≤ r.basis ∧ r.basis ≤ r.takeProfit ∧ r.stopLoss < r.takeProfit
  /-- two levels of a short position lie above and below the basis -/
  straddle_short : (r.stopLoss == 0) = false → (r.takeProfit == 0) = false → r.amount < 0 →
    r.takeProfit ≤ r.basis ∧ r.basis ≤ r.stopLoss ∧ r.takeProfit < r.stopLoss
  /-- where a level was crossed, one is not zero -/
  fired : ∀ reason, r.trigger = .fired reason → (r.stopLoss == 0) = false ∨ (r.takeProfit == 0) = false

/-- **The position that a record describes**: its amount, basis and last price, and the levels that are not zero. -/
def described (r : Record α) : Position α :=
  { asset := r.asset
    amount := r.amount
    basis := r.basis
    lastPrice := r.lastPrice
    lastTime := r.lastTime
    levels := ⟨ExitLevels.ofSentinel r.stopLoss, ExitLevels.ofSentinel r.takeProfit⟩
    trigger := r.triggerRead }

variable {r : Record α}

theorem rebuilt_eq_described (h : r.bare.isFlat = false) : r.rebuilt = r.described :=
  rebuilt_eq h

omit [Quantity α] in
theorem hasFired_eq_true_iff : r.hasFired = true ↔ ∃ reason, r.trigger = .fired reason := by
  rcases htrigger : r.trigger with - | reason | - <;> simp [hasFired, htrigger]

variable [Quantity.LawfulSign α]

/-- Two levels lie on their sides of the basis if they do so for the side of the amount. -/
theorem straddles_iff_sides (hfinite : Quantity.isFinite r.amount = true) (hne : (r.amount == 0) = false) :
    ExitLevels.straddles r.bare.isLong r.bare.basis r.stopLoss r.takeProfit = true ↔
      (0 < r.amount → r.stopLoss ≤ r.basis ∧ r.basis ≤ r.takeProfit ∧ r.stopLoss < r.takeProfit) ∧
        (r.amount < 0 → r.takeProfit ≤ r.basis ∧ r.basis ≤ r.stopLoss ∧ r.takeProfit < r.stopLoss) := by
  have hside : 0 < r.amount ↔ ¬r.amount < 0 := Quantity.LawfulSign.pos_iff hfinite hne
  have hbare : r.bare.isLong = decide (0 < r.amount) := rfl
  rw [hbare, show r.bare.basis = r.basis from rfl]
  by_cases hlong : 0 < r.amount
  · simp [ExitLevels.straddles, hlong, hside.mp hlong, and_assoc]
  · simp [ExitLevels.straddles, hlong, not_not.mp (mt hside.mpr hlong), and_assoc]

/-- The levels of a record pass their check. -/
theorem levelFault?_levels (hfinite : Quantity.isFinite r.amount = true) (hne : (r.amount == 0) = false) :
    r.bare.levelFault? r.levels = none ↔
      ((r.stopLoss == 0) = false → Quantity.isFinite r.stopLoss = true ∧ 0 < r.stopLoss) ∧
      ((r.takeProfit == 0) = false → Quantity.isFinite r.takeProfit = true ∧ 0 < r.takeProfit) ∧
      ((r.stopLoss == 0) = false → (r.takeProfit == 0) = false →
        (0 < r.amount → r.stopLoss ≤ r.basis ∧ r.basis ≤ r.takeProfit ∧ r.stopLoss < r.takeProfit) ∧
        (r.amount < 0 → r.takeProfit ≤ r.basis ∧ r.basis ≤ r.stopLoss ∧ r.takeProfit < r.stopLoss)) := by
  rw [Position.levelFault?_eq_none (show r.bare.isFlat = false from hne), levels, ExitLevels.ofSentinels]
  simp only [ExitLevels.forall_mem_ofSentinel, straddles_iff_sides hfinite hne]
  exact and_congr (forall_congr' Quantity.isNoPrice_iff_of_ne)
    (and_congr (forall_congr' Quantity.isNoPrice_iff_of_ne) Iff.rfl)

/-- **The checks of a record** ask for what is asked of it, and no more. -/
theorem flaw?_eq_none_iff_valid : r.flaw? = none ↔ r.Valid := by
  have hfired : (r.hasFired = true → r.levels.isEmpty = false) ↔
      ∀ reason, r.trigger = .fired reason → (r.stopLoss == 0) = false ∨ (r.takeProfit == 0) = false := by
    rw [hasFired_eq_true_iff, levels, ExitLevels.isEmpty_ofSentinels, forall_exists_index]
  have hlevels : r.levels.normalized = r.levels := ExitLevels.normalized_ofSentinels ..
  rw [flaw?_eq_none_iff_checks, hlevels, hfired, Quantity.isNoPrice_iff]
  constructor
  · rintro ⟨hfinite, hne, hbasis, ⟨hprice, hnonneg⟩, hlevels, hset⟩
    obtain ⟨hsl, htp, hsides⟩ := (levelFault?_levels hfinite hne).mp hlevels
    exact ⟨hfinite, hne, hbasis, hprice, hnonneg, hsl, htp, fun h h' => (hsides h h').1,
      fun h h' => (hsides h h').2, hset⟩
  · intro h
    refine ⟨h.amount_finite, h.amount_ne, h.basis_finite, ⟨h.price_finite, h.price_nonneg⟩, ?_, h.fired⟩
    exact (levelFault?_levels h.amount_finite h.amount_ne).mpr
      ⟨h.stopLoss, h.takeProfit, fun hsl htp => ⟨h.straddle_long hsl htp, h.straddle_short hsl htp⟩⟩

end Record

namespace Account

variable {s : Snapshot α} {a : Account α}

/-- **What is accepted and what it is restored to**, record by record. -/
theorem ofSnapshot_eq_ok_iff : ofSnapshot s = .ok a ↔
    (s.records.map Record.asset).Nodup ∧ (∀ r ∈ s.records, r.flaw? = none) ∧
      a = ⟨.ofList (s.records.map fun r => (r.asset, r.rebuilt)), s.realized⟩ := by
  have hentries : (s.records.map Record.rebuilt).map (fun p => (p.asset, p)) =
      s.records.map fun r => (r.asset, r.rebuilt) := by
    simp [Function.comp_def, rebuilt_asset]
  rw [ofSnapshot, map_eq_ok_iff, Snapshot.toPositions, ← hentries]
  constructor
  · rintro ⟨ps, hps, rfl⟩
    obtain ⟨hnodup, -, hflaws, rfl⟩ := rebuild_eq_ok_iff.mp hps
    exact ⟨hnodup, hflaws, rfl⟩
  · rintro ⟨hnodup, hflaws, rfl⟩
    exact ⟨_, rebuild_eq_ok_iff.mpr ⟨hnodup, by simp, hflaws, rfl⟩, rfl⟩

/-- What a restored account answers are the positions of its records. -/
theorem get?_of_ofSnapshot (h : ofSnapshot s = .ok a) {asset : Asset} {p : Position α} :
    a.get? asset = some p ↔ ∃ r ∈ s.records, r.asset = asset ∧ p = r.described := by
  obtain ⟨hnodup, hflaws, rfl⟩ := ofSnapshot_eq_ok_iff.mp h
  have hkeys : ((s.records.map fun r => (r.asset, r.rebuilt)).map Prod.fst).Nodup := by
    simpa [Function.comp_def] using hnodup
  rw [get?, Book.get?_ofList_eq_some_iff hkeys, List.mem_map]
  refine exists_congr fun r => and_congr_right fun hr => ?_
  rw [Prod.mk.injEq, Record.rebuilt_eq_described (Record.held_of_flaw? (hflaws r hr)).1, eq_comm (a := p)]

/-- In what order the records stand does not matter to what is restored. -/
theorem ofSnapshot_perm {records : List (Record α)} (hperm : records.Perm s.records) :
    ofSnapshot ⟨records, s.realized⟩ = .ok a ↔ ofSnapshot s = .ok a := by
  have hassets := (hperm.map Record.asset).nodup_iff
  rw [ofSnapshot_eq_ok_iff, ofSnapshot_eq_ok_iff, hassets]
  refine and_congr_right fun hnodup => and_congr (forall_congr' fun r => by rw [hperm.mem_iff]) ?_
  -- a book of distinct assets does not show in what order they were put in
  have hbook : Book.ofList (records.map fun r => (r.asset, r.rebuilt)) =
      Book.ofList (s.records.map fun r => (r.asset, r.rebuilt)) :=
    Book.ofList_eq_of_perm (hperm.map _) (by simpa [Function.comp_def] using hassets.mpr hnodup)
  rw [hbook]

/-- **Which snapshots are accepted.** Whatever the numbers in it, those that are none included, a snapshot is restored
exactly if its assets are different and each of its records is valid. Then each record gives the position that it
describes, under its asset, and nothing else is held. With its records in another order the snapshot is refused if it
was, and else restored to the same account. -/
theorem ofSnapshot_accepts [Quantity.LawfulSign α] (s : Snapshot α) :
    ((∃ a, ofSnapshot s = .ok a) ↔ (s.records.map Record.asset).Nodup ∧ ∀ r ∈ s.records, r.Valid) ∧
    (∀ a, ofSnapshot s = .ok a → a.realized = s.realized ∧
      ∀ asset p, a.get? asset = some p ↔ ∃ r ∈ s.records, r.asset = asset ∧ p = r.described) ∧
    ∀ records, records.Perm s.records →
      (ofSnapshot ⟨records, s.realized⟩).toOption = (ofSnapshot s).toOption := by
  refine ⟨?_, fun a h => ?_, fun records hperm => Option.ext fun a => ?_⟩
  · simp only [ofSnapshot_eq_ok_iff, Record.flaw?_eq_none_iff_valid]
    exact ⟨fun ⟨_, hnodup, hvalid, _⟩ => ⟨hnodup, hvalid⟩, fun ⟨hnodup, hvalid⟩ => ⟨_, hnodup, hvalid, rfl⟩⟩
  · obtain ⟨-, -, hrealized⟩ := positions_perm_of_ofSnapshot h
    exact ⟨hrealized, fun _ _ => get?_of_ofSnapshot h⟩
  · rw [toOption_eq_some_iff, toOption_eq_some_iff, ofSnapshot_perm hperm]

/-- Two records are restored in the other order as well, and not at all if the take-profits are no numbers. -/
theorem ofSnapshot_accepts_disordered :
    (∃ a, ofSnapshot ⟨Snapshot.disordered.records.reverse, 12⟩ = .ok a ∧
      ∃ p, a.get? "AAPL" = some p ∧ p.amount = -5 ∧ p.levels = ⟨some 220, some 150⟩) ∧
      ¬∃ a, ofSnapshot ⟨Snapshot.disordered.records.map fun r => { r with takeProfit := 0 / 0 }, 12⟩ = .ok a := by
  obtain ⟨-, hrestored, hperm⟩ := ofSnapshot_accepts Snapshot.disordered
  obtain ⟨a, ha⟩ : ∃ a, ofSnapshot Snapshot.disordered = .ok a := ⟨_, rfl⟩
  constructor
  · have hreversed := hperm _ (List.reverse_perm _)
    rw [ha] at hreversed
    refine ⟨a, toOption_eq_some_iff.mp hreversed, _, ((hrestored a ha).2 "AAPL" _).mpr
      ⟨_, List.mem_cons_of_mem _ (List.mem_cons_self ..), rfl, rfl⟩, rfl, rfl⟩
  · rw [(ofSnapshot_accepts _).1]
    rintro ⟨-, hvalid⟩
    -- what is no number differs from zero, and so it is a level that would have to be finite
    have hfinite : Quantity.isFinite (0 / 0 : Float) = true :=
      ((hvalid _ (List.mem_cons_self ..)).takeProfit (by decide +kernel)).1
    exact absurd hfinite (by decide +kernel)

end Account

end Holdings
