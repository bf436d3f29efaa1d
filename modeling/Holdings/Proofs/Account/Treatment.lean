import Mathlib
import Holdings.Proofs.Account.Reconciliation

/-!
# Where the cost of a fill goes

A policy puts the cost of a fill into the basis, or expenses it. Two accounts that are kept by policies that differ in
nothing else are the same but for the bases of their positions and the profit that they have realised so far.

* `Account.apply_unpriced` — a fill without levels is answered alike by accounts that are the same without their bases,
  and leaves them so; `Account.unpriced_run` carries it through a run;
* `Account.realized_add_unrealized_of_treatment` — in exact arithmetic both have the same profit, taken with what is
  not realised yet, as long as no remainder was dropped.
-/

namespace Holdings

/-- The operations that know nothing of levels: fills without levels, and observed prices. -/
def Operation.isPlain {α : Type} : Operation α → Bool
  | .fill f => f.levels.isNone
  | .mark .. => true
  | _ => false

theorem Operation.isTrading_of_isPlain {α : Type} {op : Operation α} (h : op.isPlain = true) :
    op.isTrading = true := by
  cases op <;> first | rfl | cases h

/-- An answer that is looked at in part. -/
theorem map_eq_map_iff {ε α β γ : Type} {f : α → γ} {g : β → γ} {x : Except ε α} {y : Except ε β} :
    x.map f = y.map g ↔
      (∃ e, x = .error e ∧ y = .error e) ∨ ∃ u v, x = .ok u ∧ y = .ok v ∧ f u = g v := by
  rcases x with e | u <;> rcases y with e' | v <;> simp [Except.map, eq_comm]

variable {α : Type} [Quantity α]

namespace Position

/-- A position without its basis. -/
def unpriced (p : Position α) : Position α := { p with basis := 0 }

variable {p q : Position α}

/-- A mark does not ask for the basis. -/
theorem mark_unpriced (h : p.unpriced = q.unpriced) (price : α) (time : Instant) :
    (p.mark price time).map unpriced = (q.mark price time).map unpriced := by
  rw [mark, mark]
  split
  · rfl
  · simp only [unpriced, Position.mk.injEq] at h
    obtain ⟨hasset, hamount, -, -, -, hlevels, htrigger⟩ := h
    simp [Except.map, unpriced, hasset, hamount, hlevels, htrigger]

end Position

namespace Settlement

variable {s s' : Settlement α} {p q : Position α} {f : Fill α}

/-- What a fill without levels answers and leaves does not depend on where its cost goes, nor on the basis of the
position that it meets, but for the basis after it. -/
theorem apply_unpriced (hmin : s.minimum = s'.minimum) (h : p.unpriced = q.unpriced) (hf : f.levels = none) :
    (s.apply p f).map (fun x => (x.1.kind, x.1.amount, x.2.unpriced)) =
      (s'.apply q f).map (fun x => (x.1.kind, x.1.amount, x.2.unpriced)) := by
  simp only [Position.unpriced, Position.mk.injEq] at h
  obtain ⟨hasset, hamount, -, hprice, htime, hlevels, htrigger⟩ := h
  have hfault : s.fault? p f = s'.fault? q f := by simp only [fault?, fillFault?, hasset, hmin]
  have hremaining : s.remaining p.amount f.quantity = s'.remaining q.amount f.quantity := by
    simp only [remaining, hamount, hmin]
  have hunguards : s.unguards p f = s'.unguards q f := by rw [unguards, unguards, hremaining, hamount]
  rw [apply_of_levels_none p hf, apply_of_levels_none q hf, hfault]
  rcases s'.fault? q f with - | fault
  · have hposition : (s.settle p f).2.unpriced = (s'.settle q f).2.unpriced := by
      simp only [settle_eq, Position.unpriced, hasset, hremaining, hprice, htime, hlevels, htrigger, hunguards]
    have hkind : (s.settle p f).1.kind = (s'.settle q f).1.kind := by
      change kindOf p.amount f.quantity (s.remaining p.amount f.quantity) = _
      rw [hremaining, hamount]
      rfl
    exact congrArg Except.ok (Prod.ext hkind (Prod.ext hremaining hposition))
  · rfl

end Settlement

/-- An applied fill without the money: the amount that it met, the fill, what it did and the amount that it left. -/
def Applied.gist (x : Applied α) : α × Fill α × FillKind × α :=
  (x.held.amount, x.fill, x.outcome.kind, x.outcome.amount)

namespace Account

variable {t t' : Terms α} {a b : Account α}

/-- The book without the bases of its positions. -/
def unpriced (a : Account α) : Book (Position α) := a.book.map fun _ p => p.unpriced

theorem get?_unpriced (a : Account α) (asset : Asset) :
    a.unpriced.get? asset = (a.get? asset).map Position.unpriced :=
  Book.get?_map ..

theorem values_unpriced (a : Account α) : a.unpriced.values = a.positions.map Position.unpriced := by
  simp [unpriced, positions, Book.values, Book.map, Function.comp_def]

theorem unpriced_keep (a : Account α) (asset : Asset) (p : Position α) :
    (a.keep asset p).unpriced = a.unpriced.insert asset p.unpriced := by
  refine Book.ext_get? fun asset' => ?_
  rw [get?_unpriced, get?_keep, Book.get?_insert, get?_unpriced]
  split <;> rfl

theorem unpriced_release (a : Account α) (asset : Asset) :
    (a.release asset).unpriced = a.unpriced.erase asset := by
  refine Book.ext_get? fun asset' => ?_
  rw [get?_unpriced, get?_release, Book.get?_erase, get?_unpriced]
  split <;> rfl

section Unpriced

variable (h : a.unpriced = b.unpriced)

include h

theorem get?_of_unpriced (asset : Asset) :
    (a.get? asset).map Position.unpriced = (b.get? asset).map Position.unpriced := by
  rw [← get?_unpriced, h, get?_unpriced]

theorem held_of_unpriced (asset : Asset) : (a.held asset).unpriced = (b.held asset).unpriced := by
  have hheld : ∀ c : Account α, (c.held asset).unpriced =
      ((c.get? asset).map Position.unpriced).getD (Position.flat asset).unpriced := fun c => by
    rw [held]
    cases c.get? asset <;> rfl
  rw [hheld, hheld, get?_of_unpriced h]

/-- **A fill without levels** is answered alike by accounts that are the same without their bases, and leaves them
the same. -/
theorem apply_unpriced (hmin : t.settlement.minimum = t'.settlement.minimum) {f : Fill α} (hf : f.levels = none) :
    (a.apply t f).map (fun x => (x.1.kind, x.1.amount, x.2.unpriced)) =
      (b.apply t' f).map (fun x => (x.1.kind, x.1.amount, x.2.unpriced)) := by
  have hsettled := Settlement.apply_unpriced hmin (held_of_unpriced h f.asset) hf
  rw [apply, apply, onTicks_of_levels_none t a hf, onTicks_of_levels_none t' b hf]
  rcases map_eq_map_iff.mp hsettled with ⟨fault, ha, hb⟩ | ⟨⟨o, p⟩, ⟨o', q⟩, ha, hb, hpair⟩
  · rw [ha, hb]
  · obtain ⟨hkind, hamount, hposition⟩ : o.kind = o'.kind ∧ o.amount = o'.amount ∧ p.unpriced = q.unpriced := by
      simpa using hpair
    rw [ha, hb]
    refine congrArg Except.ok (Prod.ext hkind (Prod.ext hamount ?_))
    dsimp only
    rw [hamount]
    split
    · exact (unpriced_release a f.asset).trans (h ▸ (unpriced_release b f.asset).symm)
    · exact (unpriced_keep a f.asset p).trans (h ▸ hposition ▸ (unpriced_keep b f.asset q).symm)

/-- **An observed price** is answered alike. -/
theorem mark_unpriced (asset : Asset) (price : α) (time : Instant) :
    (a.mark asset price time).map (fun x => (x.1, x.2.unpriced)) =
      (b.mark asset price time).map (fun x => (x.1, x.2.unpriced)) := by
  have hget := get?_of_unpriced h asset
  rw [mark, mark]
  rcases ha : a.get? asset with - | p <;> rcases hb : b.get? asset with - | q <;> rw [ha, hb] at hget
  · simp [Except.map, h]
  · cases hget
  · cases hget
  · have hmark := Position.mark_unpriced (Option.some.inj hget) price time
    rcases map_eq_map_iff.mp hmark with ⟨fault, hp, hq⟩ | ⟨p', q', hp, hq, heq⟩
    · simp [hp, hq, Except.map]
    · simp [hp, hq, Except.map, unpriced_keep, h, heq]

theorem entry_unpriced (hmin : t.settlement.minimum = t'.settlement.minimum) {op : Operation α}
    (hop : op.isPlain = true) :
    (a.entry t op).map Applied.gist = (b.entry t' op).map Applied.gist := by
  cases op with
  | fill f =>
    have happly := apply_unpriced h hmin (Option.isNone_iff_eq_none.mp hop)
    have hheld : (a.held f.asset).amount = (b.held f.asset).amount :=
      (Position.mk.inj (held_of_unpriced h f.asset)).2.1
    rcases map_eq_map_iff.mp happly with ⟨fault, ha, hb⟩ | ⟨⟨o, a'⟩, ⟨o', b'⟩, ha, hb, hpair⟩
    · simp [entry, ha, hb]
    · obtain ⟨hkind, hamount, -⟩ : o.kind = o'.kind ∧ o.amount = o'.amount ∧ a'.unpriced = b'.unpriced := by
        simpa using hpair
      simp [entry, ha, hb, Applied.gist, hheld, hkind, hamount]
  | _ => rfl

/-- **An operation without levels** leaves accounts the same without their bases. -/
theorem perform_unpriced (hmin : t.settlement.minimum = t'.settlement.minimum) {op : Operation α}
    (hop : op.isPlain = true) : (a.perform t op).unpriced = (b.perform t' op).unpriced := by
  cases op with
  | fill f =>
    have happly := apply_unpriced h hmin (Option.isNone_iff_eq_none.mp hop)
    rcases map_eq_map_iff.mp happly with ⟨fault, ha, hb⟩ | ⟨⟨o, a'⟩, ⟨o', b'⟩, ha, hb, hpair⟩
    · simpa [perform, perform?, ha, hb, Except.toOption] using h
    · obtain ⟨-, -, hbook⟩ : o.kind = o'.kind ∧ o.amount = o'.amount ∧ a'.unpriced = b'.unpriced := by
        simpa using hpair
      simpa [perform, perform?, ha, hb, Except.toOption] using hbook
  | mark asset price time =>
    have hmark := mark_unpriced h asset price time
    rcases map_eq_map_iff.mp hmark with ⟨fault, ha, hb⟩ | ⟨⟨held, a'⟩, ⟨held', b'⟩, ha, hb, hpair⟩
    · simpa [perform, perform?, ha, hb, Except.toOption] using h
    · obtain ⟨-, hbook⟩ : held = held' ∧ a'.unpriced = b'.unpriced := by simpa using hpair
      simpa [perform, perform?, ha, hb, Except.toOption] using hbook
  | _ => cases hop

end Unpriced

/-- **A run without levels**: where the same operations run on accounts that are the same without their bases, they
stay the same, and the same fills are applied with the same effect on the amounts. -/
theorem run_unpriced (hmin : t.settlement.minimum = t'.settlement.minimum) :
    ∀ {ops : List (Operation α)} {a b : Account α}, (∀ op ∈ ops, op.isPlain = true) →
      a.unpriced = b.unpriced →
      (a.run t ops).unpriced = (b.run t' ops).unpriced ∧
        (a.journal t ops).map Applied.gist = (b.journal t' ops).map Applied.gist
  | [], _, _, _, h => ⟨h, rfl⟩
  | op :: ops, a, b, hops, h => by
    have hop : op.isPlain = true := hops op (List.mem_cons_self ..)
    obtain ⟨hrun, hjournal⟩ := run_unpriced hmin (fun op' hmem => hops op' (List.mem_cons_of_mem _ hmem))
      (perform_unpriced h hmin hop)
    refine ⟨hrun, ?_⟩
    rw [journal, journal, List.map_append, List.map_append, hjournal, entry_unpriced h hmin hop]

/-! ## The profit under both treatments -/

theorem marketValue_of_unpriced {a b : Account Rat} (h : a.unpriced = b.unpriced) :
    a.marketValue = b.marketValue := by
  have hworth : ∀ c : Account Rat, c.marketValue = (c.unpriced.values.map Position.marketValue).sum := fun c => by
    rw [values_unpriced, List.map_map, marketValue, Quantity.total_rat]
    rfl
  rw [hworth, hworth, h]

/-- Where the same fills are applied with the same effect on the amounts, and no remainder is dropped, profit and outlay
change alike. -/
theorem profit_of_gist {t t' : Terms Rat} {ops : List (Operation Rat)} {a b : Account Rat}
    (hops : ∀ op ∈ ops, op.isPlain = true)
    (hgist : (a.journal t ops).map Applied.gist = (b.journal t' ops).map Applied.gist)
    (hsnap : ∀ x ∈ a.journal t ops, ¬x.Snapped) :
    (a.run t ops).realized - (a.run t ops).outlay - (a.realized - a.outlay) =
      (b.run t' ops).realized - (b.run t' ops).outlay - (b.realized - b.outlay) := by
  have htrading : ∀ op ∈ ops, op.isTrading = true := fun op hop => Operation.isTrading_of_isPlain (hops op hop)
  have hsnap' : ∀ x ∈ b.journal t' ops, ¬x.Snapped := fun x hx => by
    obtain ⟨y, hy, hxy⟩ := List.mem_map.mp (hgist ▸ List.mem_map_of_mem hx)
    have hiff : y.Snapped ↔ x.Snapped := by
      simp only [Applied.gist, Prod.mk.injEq] at hxy
      obtain ⟨hheld, hfill, -, hamount⟩ := hxy
      rw [Applied.Snapped, Applied.Snapped, hheld, hfill, hamount]
    exact hiff.not.mp (hsnap y hy)
  have hcash : ((a.journal t ops).map fun x => x.fill.netCash) =
      (b.journal t' ops).map fun x => x.fill.netCash := by
    have hmap := congrArg (List.map fun g => g.2.1.netCash) hgist
    rwa [List.map_map, List.map_map] at hmap
  rw [run_value htrading, run_value htrading, value_of_not_snapped hsnap, value_of_not_snapped hsnap', hcash]
  ring

/-- **The two treatments of cost.** Fills without levels and observed prices are run under two policies that differ
in nothing but where costs go. Then at every point both accounts answer each fill and each price alike, they hold the
same amounts with the same last prices, and, as long as no remainder was dropped, have the same profit, taken with
what is not realised yet; where nothing is held, the same profit is realised. -/
theorem treatments_agree (policy : Policy Rat) (instrument : Asset → Option (Instrument Rat))
    {ops : List (Operation Rat)} (hops : ∀ op ∈ ops, op.isPlain = true) :
    let t := { policy with treatment := .intoBasis }.terms instrument
    let t' := { policy with treatment := .expensed }.terms instrument
    let a := empty.run t ops
    let b := empty.run t' ops
    (∀ f : Fill Rat, f.levels = none →
        (a.apply t f).map (fun x => x.1.kind) = (b.apply t' f).map (fun x => x.1.kind)) ∧
      (∀ asset price time, (a.mark asset price time).map Prod.fst = (b.mark asset price time).map Prod.fst) ∧
      (∀ asset, (a.get? asset).map (fun p => (p.amount, p.lastPrice)) =
        (b.get? asset).map (fun p => (p.amount, p.lastPrice))) ∧
      ((∀ x ∈ empty.journal t ops, ¬x.Snapped) →
        a.realized + a.unrealized = b.realized + b.unrealized ∧
          (a.positions = [] → a.realized = b.realized)) := by
  intro t t' a b
  have hmin : t.settlement.minimum = t'.settlement.minimum := rfl
  obtain ⟨hsame, hgist⟩ : a.unpriced = b.unpriced ∧
      ((empty : Account Rat).journal t ops).map Applied.gist =
        ((empty : Account Rat).journal t' ops).map Applied.gist :=
    run_unpriced hmin hops rfl
  have hheld : ∀ asset, (a.get? asset).map (fun p => (p.amount, p.lastPrice)) =
      (b.get? asset).map (fun p => (p.amount, p.lastPrice)) := fun asset => by
    have hget := congrArg (Option.map fun p => (p.amount, p.lastPrice)) (get?_of_unpriced hsame asset)
    rwa [Option.map_map, Option.map_map] at hget
  refine ⟨fun f hf => ?_, fun asset price time => ?_, hheld, fun hsnap => ?_⟩
  · refine map_eq_map_iff.mpr ((map_eq_map_iff.mp (apply_unpriced hsame hmin hf)).imp_right ?_)
    rintro ⟨u, v, hu, hv, heq⟩
    exact ⟨u, v, hu, hv, (Prod.mk.inj heq).1⟩
  · refine map_eq_map_iff.mpr ((map_eq_map_iff.mp (mark_unpriced hsame asset price time)).imp_right ?_)
    rintro ⟨u, v, hu, hv, heq⟩
    exact ⟨u, v, hu, hv, (Prod.mk.inj heq).1⟩
  · have hprofit : a.realized + a.unrealized = b.realized + b.unrealized := by
      rw [unrealized_eq, unrealized_eq, marketValue_of_unpriced hsame]
      linear_combination profit_of_gist hops hgist hsnap
    refine ⟨hprofit, fun hnone => ?_⟩
    have hnone' : b.positions = [] := by
      rw [← List.map_eq_nil_iff, ← values_unpriced, ← hsame, values_unpriced, hnone]
      rfl
    rwa [unrealized, unrealized, hnone, hnone', add_left_inj] at hprofit

/-- Ten are bought at 100 with a cost of 5, and four are sold at 110 with a cost of 2. With costs in the basis 36 are
realised, and 33 where they are expensed; at a price of 120 both stand at 153 with what is not realised. -/
theorem treatments_agree_reduced :
    let ops : List (Operation Rat) :=
      [.fill ⟨"SPY", 10, 100, 5, none, none⟩, .fill ⟨"SPY", -4, 110, 2, none, none⟩,
        .mark "SPY" 120 ⟨19724, 75600, 0⟩]
    let t := { (Policy.usual : Policy Rat) with treatment := .intoBasis }.terms fun _ => none
    let t' := { (Policy.usual : Policy Rat) with treatment := .expensed }.terms fun _ => none
    (∀ op ∈ ops, op.isPlain = true) ∧ (∀ x ∈ empty.journal t ops, ¬x.Snapped) ∧
      (empty.run t ops).realized = 36 ∧ (empty.run t' ops).realized = 33 ∧
      (empty.run t ops).realized + (empty.run t ops).unrealized =
        (empty.run t' ops).realized + (empty.run t' ops).unrealized := by
  intro ops t t'
  have hops : ∀ op ∈ ops, op.isPlain = true := by simp [ops, Operation.isPlain]
  have hleft : ∀ x ∈ empty.journal t ops, x.outcome.amount ≠ 0 := by decide +kernel
  have hsnap : ∀ x ∈ empty.journal t ops, ¬x.Snapped := fun x hx h => hleft x hx h.1
  obtain ⟨-, -, -, hprofit⟩ := treatments_agree .usual (fun _ => none) hops
  exact ⟨hops, hsnap, by decide +kernel, by decide +kernel, (hprofit hsnap).1⟩

end Account

end Holdings
