import Mathlib
import Holdings.Proofs.Account.Operation

/-!
# Where the profit of an account comes from

The *outlay* of an account is what was paid for the amounts held: the sum of amount times basis. In exact
arithmetic the realised profit less the outlay changes only by fills, and by a fill exactly as much as the cash
that it brings. The one exception is a fill that ends a position with a remainder dropped: its *residue* is the
remainder at the price per unit of the fill.

`run_value` says so of runs of trading operations; marks, levels and triggers change neither side. Splits and
charges move the basis without any fill, and are not trading operations.
-/

namespace Holdings

namespace Position

/-- What was paid for the amount held. -/
def outlay (p : Position Rat) : Rat := p.amount * p.basis

/-- What leaving a position would gain is its worth less what was paid for it. -/
theorem unrealized_eq (p : Position Rat) : p.unrealized = p.marketValue - p.outlay := by
  rw [unrealized, marketValue, outlay]
  split
  · next hflat =>
    have hzero : p.amount = 0 := by simpa [isFlat] using hflat
    rw [hzero]
    ring
  · ring

@[simp] theorem outlay_flat (asset : Asset) : (flat asset : Position Rat).outlay = 0 := by
  simp [outlay, flat]

theorem outlay_of_mark {p q : Position Rat} {price : Rat} {time : Instant}
    (h : p.mark price time = .ok q) : q.outlay = p.outlay := by
  obtain ⟨-, rfl⟩ := mark_eq_ok h
  rfl

theorem outlay_of_configure {p q : Position Rat} {l : ExitLevels Rat} (h : p.configure l = .ok q) :
    q.outlay = p.outlay := by
  obtain ⟨-, rfl⟩ := configure_eq_ok h
  rfl

theorem outlay_of_trigger? {p q : Position Rat} {price : Rat} {time : Option Instant}
    {intent : ExitIntent Rat} (h : p.trigger? price time = some (intent, q)) :
    q.outlay = p.outlay := by
  obtain ⟨-, -, reason, level, -, -, rfl⟩ := trigger?_eq_some h
  rfl

end Position

namespace Applied

/-- What ended a position. -/
def closings (fills : List (Applied Rat)) : List (Applied Rat) :=
  fills.filter fun x => x.outcome.kind = .closed

/-- What is left of a fill beside the position that it met, at the price per unit of the fill. -/
def residue (s : Settlement Rat) (x : Applied Rat) : Rat :=
  (x.held.amount + x.fill.quantity) * s.unitPrice x.fill

/-- What applied fills bring to the profit less the outlay. -/
def value (s : Settlement Rat) (fills : List (Applied Rat)) : Rat :=
  (fills.map fun x => x.fill.netCash).sum + ((closings fills).map (residue s)).sum

theorem value_append (s : Settlement Rat) (fills fills' : List (Applied Rat)) :
    value s (fills ++ fills') = value s fills + value s fills' := by
  simp only [value, closings, List.map_append, List.filter_append, List.sum_append]
  ring

@[simp] theorem value_nil (s : Settlement Rat) : value s [] = 0 := by simp [value, closings]

/-- A remainder was dropped: the fill left nothing although it does not match the amount it met. -/
def Snapped (x : Applied Rat) : Prop := x.outcome.amount = 0 ∧ x.held.amount + x.fill.quantity ≠ 0

end Applied

namespace Account

variable {t : Terms Rat} {a b : Account Rat}

/-- What was paid for all amounts held. -/
def outlay (a : Account Rat) : Rat := a.book.sum Position.outlay

/-- The weight of an asset in the outlay is the outlay of the position that a fill in it meets. -/
theorem weight_outlay (a : Account Rat) (asset : Asset) :
    a.book.weight Position.outlay asset = (a.held asset).outlay := by
  rw [Book.weight, held, get?]
  cases a.book.get? asset <;> simp

/-- Keeping a position of the same outlay leaves the outlay of the account. -/
theorem outlay_keep {asset : Asset} {p q : Position Rat} (hp : a.get? asset = some p)
    (h : q.outlay = p.outlay) : (a.keep asset q).outlay = a.outlay :=
  Book.sum_insert_of_eq hp h

/-- **The value of an applied fill**: the profit less the outlay changes by the cash of the fill, and by its
residue where it ends the position. -/
theorem apply_value {f : Fill Rat} {o : Outcome Rat} (h : a.apply t f = .ok (o, b)) :
    b.realized - b.outlay =
      a.realized - a.outlay + Applied.value t.settlement [⟨a.held f.asset, f, o⟩] := by
  obtain ⟨q, hq, hbook, hrealized⟩ := apply_eq_ok h
  obtain ⟨-, hamount, hbasis⟩ := Settlement.apply_position hq
  obtain ⟨hfault, ho, -⟩ := Settlement.apply_eq_ok hq
  -- the levels that a fill carries play no part in how it settles
  have hsettle : o = (t.settlement.settle (a.held f.asset) f).1 := ho
  have hfillFault : t.settlement.fillFault? f = none := Settlement.fillFault?_of_fault? hfault
  have hvalue := Settlement.settle_value (p := a.held f.asset) hfillFault
  rw [← hsettle] at hvalue
  have houtlay : b.outlay = a.outlay - (a.held f.asset).outlay + o.amount * o.basis := by
    rw [outlay, hbook]
    split
    · next hzero =>
      rw [Book.sum_erase, weight_outlay, show o.amount = 0 by simpa using hzero]
      simp [outlay]
    · have hoq : q.outlay = o.amount * o.basis := by rw [Position.outlay, hamount, hbasis]
      rw [Book.sum_insert, weight_outlay, hoq]
      rfl
  have hresidue : Applied.value t.settlement [⟨a.held f.asset, f, o⟩] =
      f.netCash + t.settlement.residue (a.held f.asset) f := by
    rw [Settlement.residue, ← hsettle]
    by_cases hkind : o.kind = .closed <;> simp [Applied.value, Applied.closings, Applied.residue, hkind]
  rw [hrealized, houtlay, hresidue, Position.outlay]
  linear_combination hvalue

/-- **The value of a trading operation.** -/
theorem perform_value {op : Operation Rat} (hop : op.isTrading = true) :
    (a.perform t op).realized - (a.perform t op).outlay =
      a.realized - a.outlay + Applied.value t.settlement (a.entry t op) := by
  rcases hb : a.perform? t op with - | b
  · rw [perform, hb, Option.getD_none]
    simp [entry_of_refused hb]
  · rw [perform, hb, Option.getD_some]
    -- a mark, levels or a trigger keep amount and basis of the position they concern
    have hkeep : ∀ {asset : Asset} {p q : Position Rat}, a.get? asset = some p →
        q.outlay = p.outlay →
        (a.keep asset q).realized - (a.keep asset q).outlay = a.realized - a.outlay + 0 := by
      intro asset p q hp hpq
      rw [outlay_keep hp hpq, add_zero]
      rfl
    cases op with
    | fill f =>
      obtain ⟨⟨o, b'⟩, hok, rfl⟩ := Option.map_eq_some_iff.mp hb
      have hf := toOption_eq_some_iff.mp hok
      rw [apply_value hf]
      simp only [entry, hf]
    | mark asset price time =>
      obtain ⟨⟨held, b'⟩, hok, rfl⟩ := Option.map_eq_some_iff.mp hb
      rcases mark_eq_ok (toOption_eq_some_iff.mp hok) with rfl | ⟨p, q, hp, hq, rfl⟩
      · simp [entry]
      · simpa [entry] using hkeep hp (Position.outlay_of_mark hq)
    | levels asset l =>
      obtain ⟨p, q, hp, hq, rfl⟩ := setLevels_eq_ok (toOption_eq_some_iff.mp hb)
      simpa [entry] using hkeep hp (Position.outlay_of_configure hq)
    | trigger asset price time =>
      obtain ⟨⟨intent, b'⟩, hok, rfl⟩ := Option.map_eq_some_iff.mp hb
      obtain ⟨p, q, hp, hq, rfl⟩ := trigger?_eq_some hok
      simpa [entry] using hkeep hp (Position.outlay_of_trigger? hq)
    | triggerAll priceOf time =>
      obtain rfl := Option.some.inj hb
      have houtlay : (a.triggerAll priceOf time).2.outlay = a.outlay := by
        refine Book.sum_map _ _ fun asset p => ?_
        dsimp only
        rcases hfire : (priceOf asset).bind fun price => p.trigger? price time with - | ⟨intent, q⟩
        · rfl
        · obtain ⟨price, -, hq⟩ := Option.bind_eq_some_iff.mp hfire
          exact Position.outlay_of_trigger? hq
      rw [houtlay]
      simp [entry, triggerAll]
    | split asset ratio => cases hop
    | charge asset cost => cases hop
    | restore s => cases hop

/-- **The value of a run** of trading operations: the profit less the outlay changes by the cash that the applied
fills bring and by the residues of those that ended a position. -/
theorem run_value : ∀ {ops : List (Operation Rat)} {a : Account Rat},
    (∀ op ∈ ops, op.isTrading = true) →
    (a.run t ops).realized - (a.run t ops).outlay =
      a.realized - a.outlay + Applied.value t.settlement (a.journal t ops)
  | [], a, _ => by simp [journal]
  | op :: ops, a, h => by
    rw [run_cons, run_value fun op' hop => h op' (List.mem_cons_of_mem _ hop),
      perform_value (h op (List.mem_cons_self ..)), journal, Applied.value_append]
    ring

/-- A fill that ended a position left nothing. -/
theorem amount_of_closed {ops : List (Operation Rat)} {x : Applied Rat} (hx : x ∈ a.journal t ops)
    (hkind : x.outcome.kind = .closed) : x.outcome.amount = 0 := by
  obtain ⟨b, c, happly, -⟩ := mem_journal hx
  obtain ⟨q, hq, -⟩ := apply_eq_ok happly
  obtain ⟨-, ho, -⟩ := Settlement.apply_eq_ok hq
  rw [ho] at hkind ⊢
  exact Settlement.left_of_closed hkind

/-- Where no remainder was dropped, the value of a run is the cash of the fills that it applies. -/
theorem value_of_not_snapped {ops : List (Operation Rat)} (h : ∀ x ∈ a.journal t ops, ¬x.Snapped) :
    Applied.value t.settlement (a.journal t ops) = ((a.journal t ops).map fun x => x.fill.netCash).sum := by
  rw [Applied.value, add_eq_left]
  refine List.sum_eq_zero fun r hr => ?_
  obtain ⟨x, hx, rfl⟩ := List.mem_map.mp hr
  obtain ⟨hmem, hkind⟩ := List.mem_filter.mp hx
  have hzero := amount_of_closed hmem (by simpa using hkind)
  have hsum : x.held.amount + x.fill.quantity = 0 := by
    by_contra hne
    exact h x hmem ⟨hzero, hne⟩
  rw [Applied.residue, hsum, zero_mul]

/-- Both sides of a report in terms of the outlay: leaving all positions would gain their worth less what was
paid for them. -/
theorem unrealized_eq (a : Account Rat) : a.unrealized = a.marketValue - a.outlay := by
  rw [unrealized, marketValue, outlay, Book.sum, Quantity.total_rat, Quantity.total_rat, positions]
  induction a.book.values with
  | nil => simp
  | cons p rest ih =>
    simp only [List.map_cons, List.sum_cons, ih, p.unrealized_eq]
    ring

end Account

end Holdings
