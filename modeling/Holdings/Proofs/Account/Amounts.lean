import Mathlib
import Holdings.Proofs.Account.Locality
import Holdings.Proofs.Account.Reconciliation
import Holdings.Proofs.Policy

/-!
# What amounts are held

A fill leaves the sum of the amount that it meets and its own quantity, or nothing where that sum counts as nothing:
the sum is *dropped*. Splits and restored snapshots apart, nothing else changes an amount.

* `Account.Leaves.amount` — where the amount of a position comes from;
* `Account.amount_run` — after any run of trading operations the amount held is what the fills brought, less what was
  dropped on the way;
* `Account.flat_iff_of_netting` — so fills that net to zero leave nothing exactly if what was dropped on the way comes
  to less than the smallest quantity.
-/

namespace Holdings

/-! ## Fills -/

namespace Settlement

variable {s : Settlement Rat} {p q : Position Rat} {f : Fill Rat} {o : Outcome Rat}

/-- The amount after a fill is the sum, or nothing where the sum is below the smallest quantity. -/
theorem amount_of_apply (h : s.apply p f = .ok (o, q)) :
    o.amount = if |p.amount + f.quantity| < s.minimum then 0 else p.amount + f.quantity := by
  obtain ⟨-, rfl, -⟩ := apply_eq_ok h
  rw [settle_outcome]
  simp only [remaining, Quantity.abs_rat]

/-- What a fill leaves is not below the smallest quantity. -/
theorem minimum_le_of_apply (h : s.apply p f = .ok (o, q)) (ho : o.amount ≠ 0) : s.minimum ≤ |o.amount| := by
  rw [amount_of_apply h] at ho ⊢
  split_ifs at ho ⊢ with hdust
  · exact absurd rfl ho
  · exact not_lt.mp hdust

end Settlement

namespace Applied

/-- The part of the sum of amount and quantity that counted as nothing. -/
def dropped (x : Applied Rat) : Rat := x.held.amount + x.fill.quantity - x.outcome.amount

/-- What applied fills brought, less what was dropped. -/
def moved (fills : List (Applied Rat)) : Rat := (fills.map fun x => x.fill.quantity - x.dropped).sum

/-- The fills in one asset. -/
def inAsset (asset : Asset) (fills : List (Applied Rat)) : List (Applied Rat) :=
  fills.filter fun x => x.fill.asset = asset

@[simp] theorem inAsset_nil (asset : Asset) : inAsset asset [] = [] := rfl

theorem inAsset_append (asset : Asset) (fills fills' : List (Applied Rat)) :
    inAsset asset (fills ++ fills') = inAsset asset fills ++ inAsset asset fills' :=
  List.filter_append ..

@[simp] theorem moved_nil : moved [] = 0 := rfl

theorem moved_append (fills fills' : List (Applied Rat)) :
    moved (fills ++ fills') = moved fills + moved fills' := by
  rw [moved, List.map_append, List.sum_append, moved, moved]

theorem moved_eq (fills : List (Applied Rat)) :
    moved fills = (fills.map fun x => x.fill.quantity).sum - (fills.map dropped).sum := by
  induction fills with
  | nil => simp
  | cons x rest ih =>
    rw [moved] at ih ⊢
    simp only [List.map_cons, List.sum_cons, ih]
    ring

end Applied

namespace Account

variable {t : Terms Rat} {a b : Account Rat} {asset : Asset}

/-- What was dropped is less than the smallest quantity, and only a fill that left nothing drops anything. -/
theorem dropped_of_mem_journal {ops : List (Operation Rat)} {x : Applied Rat} (hx : x ∈ a.journal t ops) :
    x.dropped = 0 ∨ x.Snapped ∧ |x.dropped| < t.settlement.minimum := by
  obtain ⟨b, c, happly, hheld⟩ := mem_journal hx
  obtain ⟨q, hq, -⟩ := apply_eq_ok happly
  have hamount := Settlement.amount_of_apply hq
  rw [← hheld, show (b.onTicks t x.fill).quantity = x.fill.quantity from rfl] at hamount
  rw [Applied.dropped, Applied.Snapped, hamount]
  split_ifs with hdust
  · rcases eq_or_ne (x.held.amount + x.fill.quantity) 0 with hzero | hne
    · exact .inl (by rw [hzero, sub_zero])
    · exact .inr ⟨⟨rfl, hne⟩, by rwa [sub_zero]⟩
  · exact .inl (sub_self _)

/-! ## Where amounts come from -/

/-- **Where the amount of a position comes from.** A fill leaves an amount that is not below the smallest quantity, a
split rounds it onto the lots, a record brings its own, and every other operation leaves the one that was there. -/
theorem Leaves.amount {op : Operation Rat} {x : Option (Position Rat)} {q : Position Rat}
    (h : Leaves t asset op x q) :
    (∃ f, op = .fill f ∧ t.settlement.minimum ≤ |q.amount|) ∨
      (∃ p, x = some p ∧ q.amount = p.amount) ∨
      (∃ p ratio, x = some p ∧ op = .split asset ratio ∧ q.isFlat = false ∧
        q.amount = t.lot.round (p.amount / ratio)) ∨
      ∃ s, op = .restore s := by
  cases h with
  | @fill _ f _ o _ _ hf ho =>
    refine .inl ⟨f, rfl, ?_⟩
    rw [(Settlement.apply_position hf).2.1]
    exact Settlement.minimum_le_of_apply hf (by simpa using ho)
  | mark hm =>
    obtain ⟨-, rfl⟩ := Position.mark_eq_ok hm
    exact .inr (.inl ⟨_, rfl, rfl⟩)
  | levels hc =>
    obtain ⟨-, rfl⟩ := Position.configure_eq_ok hc
    exact .inr (.inl ⟨_, rfl, rfl⟩)
  | trigger ht =>
    obtain ⟨-, -, reason, level, -, -, rfl⟩ := Position.trigger?_eq_some ht
    exact .inr (.inl ⟨_, rfl, rfl⟩)
  | triggerAll _ ht =>
    obtain ⟨-, -, reason, level, -, -, rfl⟩ := Position.trigger?_eq_some ht
    exact .inr (.inl ⟨_, rfl, rfl⟩)
  | split hs hflat =>
    obtain ⟨-, -, ⟨-, rfl⟩ | ⟨-, hq⟩⟩ := Position.split_eq_ok hs
    · exact .inr (.inl ⟨_, rfl, rfl⟩)
    · obtain rfl := congrArg Prod.snd hq
      exact .inr (.inr (.inl ⟨_, _, rfl, rfl, hflat, Position.splitHeld_amount ..⟩))
  | charge hc =>
    obtain ⟨basis, rfl⟩ := Position.charge_eq_ok hc
    exact .inr (.inl ⟨_, rfl, rfl⟩)
  | restore => exact .inr (.inr (.inr ⟨_, rfl⟩))

/-- Nothing that is held is below the smallest quantity. -/
def Substantial (t : Terms Rat) (a : Account Rat) : Prop := All (fun _ p => t.settlement.minimum ≤ |p.amount|) a

/-- An operation that leaves nothing below the smallest quantity, whatever account it meets: it restores nothing, and
splits only onto lots that are not below it. -/
def Fits (t : Terms Rat) : Operation Rat → Prop
  | .split .. => 0 < t.lot.unit ∧ t.settlement.minimum ≤ t.lot.unit
  | .restore _ => False
  | _ => True

theorem fits_of_isTrading {op : Operation Rat} (hop : op.isTrading = true) : Fits t op := by
  cases op with
  | split | restore => cases hop
  | _ => trivial

theorem Substantial.perform (ha : a.Substantial t) {op : Operation Rat} (hop : Fits t op) :
    (a.perform t op).Substantial t := by
  intro asset q hq
  rcases get?_perform_cases hq with hsame | ⟨-, hleaves⟩
  · exact ha hsame
  · rcases hleaves.amount with ⟨f, -, hmin⟩ | ⟨p, hp, hamount⟩ | ⟨p, ratio, -, rfl, hflat, hamount⟩ | ⟨s, rfl⟩
    · exact hmin
    · rw [hamount]
      exact ha hp
    · -- what a split leaves is at least one step of the lots
      obtain ⟨hpos, hunit⟩ := hop
      have hne : t.lot.round (p.amount / ratio) ≠ 0 := by simpa [Position.isFlat, hamount] using hflat
      rw [hamount]
      exact hunit.trans (Lot.unit_le_abs_round hpos hne)
    · exact hop.elim

theorem Substantial.run (ha : a.Substantial t) {ops : List (Operation Rat)} (hops : ∀ op ∈ ops, Fits t op) :
    (a.run t ops).Substantial t :=
  run_induction (fun op hop _ hb => hb.perform (hops op hop)) ha

/-! ## What a run of trades adds up to -/

/-- How much is held of an asset. -/
def amount (a : Account Rat) (asset : Asset) : Rat := (a.held asset).amount

theorem amount_keep {asset' : Asset} {p q : Position Rat} (hp : a.get? asset' = some p) (h : q.amount = p.amount) :
    (a.keep asset' q).amount asset = a.amount asset := by
  rw [amount, amount, held, held, get?_keep]
  split
  · next heq => rw [← heq, hp, Option.getD_some, Option.getD_some, h]
  · rfl

/-- **An accepted fill** adds its quantity to the amount held of its asset, less what it drops. -/
theorem amount_apply {f : Fill Rat} {o : Outcome Rat} (h : a.apply t f = .ok (o, b)) :
    b.amount asset = a.amount asset + Applied.moved (Applied.inAsset asset [⟨a.held f.asset, f, o⟩]) := by
  obtain ⟨q, hq, hbook, -⟩ := apply_eq_ok h
  by_cases hasset : f.asset = asset
  · subst hasset
    have hleft : b.amount f.asset = o.amount := by
      rw [amount, held, get?, hbook]
      split
      · next hzero => rw [Book.get?_erase, if_pos rfl, show o.amount = 0 by simpa using hzero]; rfl
      · rw [Book.get?_insert, if_pos rfl, Option.getD_some, (Settlement.apply_position hq).2.1]
    rw [hleft, amount]
    simp only [Applied.inAsset, Applied.moved, Applied.dropped, List.filter_cons, decide_true, if_true,
      List.filter_nil, List.map_cons, List.map_nil, List.sum_cons, List.sum_nil]
    ring
  · have hother : b.get? asset = a.get? asset := by
      rw [get?, hbook]
      split
      · rw [Book.get?_erase, if_neg hasset, get?]
      · rw [Book.get?_insert, if_neg hasset, get?]
    rw [amount, amount, held, held, hother]
    simp [Applied.inAsset, hasset]

/-- **One trading operation**: a fill moves the amount held, and nothing else does. -/
theorem amount_perform {op : Operation Rat} (hop : op.isTrading = true) :
    (a.perform t op).amount asset =
      a.amount asset + Applied.moved (Applied.inAsset asset (a.entry t op)) := by
  have hkept : ∀ {asset' : Asset} {p q : Position Rat}, a.get? asset' = some p → q.amount = p.amount →
      (a.keep asset' q).amount asset = a.amount asset + Applied.moved (Applied.inAsset asset []) := by
    intro asset' p q hp hq
    rw [amount_keep hp hq, Applied.inAsset_nil, Applied.moved_nil, add_zero]
  rw [perform]
  rcases hb : a.perform? t op with - | b
  · simp [entry_of_refused hb]
  · cases op with
    | fill f =>
      obtain ⟨⟨o, b'⟩, hok, rfl⟩ := Option.map_eq_some_iff.mp hb
      have hf := toOption_eq_some_iff.mp hok
      simp only [entry, hf]
      exact amount_apply hf
    | mark asset' price time =>
      obtain ⟨⟨seen, b'⟩, hok, rfl⟩ := Option.map_eq_some_iff.mp hb
      rcases mark_eq_ok (toOption_eq_some_iff.mp hok) with rfl | ⟨p, q, hp, hq, rfl⟩
      · simp [entry]
      · obtain ⟨-, rfl⟩ := Position.mark_eq_ok hq
        exact hkept hp rfl
    | levels asset' l =>
      obtain ⟨p, q, hp, hq, rfl⟩ := setLevels_eq_ok (toOption_eq_some_iff.mp hb)
      obtain ⟨-, rfl⟩ := Position.configure_eq_ok hq
      exact hkept hp rfl
    | trigger asset' price time =>
      obtain ⟨⟨intent, b'⟩, hok, rfl⟩ := Option.map_eq_some_iff.mp hb
      obtain ⟨p, q, hp, hq, rfl⟩ := trigger?_eq_some hok
      obtain ⟨-, -, reason, level, -, -, rfl⟩ := Position.trigger?_eq_some hq
      exact hkept hp rfl
    | triggerAll priceOf time =>
      obtain rfl := Option.some.inj hb
      have hlook : (a.triggerAll priceOf time).2.amount asset = a.amount asset := by
        rw [amount, amount, held, held, get?, triggerAll]
        dsimp only
        rw [Book.get?_map, get?]
        rcases a.book.get? asset with - | p
        · rfl
        · dsimp only [Option.map_some, Option.getD_some]
          rcases hfire : (priceOf asset).bind fun price => p.trigger? price time with - | ⟨intent, q⟩
          · rfl
          · obtain ⟨price, -, hq⟩ := Option.bind_eq_some_iff.mp hfire
            obtain ⟨-, -, reason, level, -, -, rfl⟩ := Position.trigger?_eq_some hq
            rfl
      simpa [entry] using hlook
    | split asset' ratio => cases hop
    | charge asset' cost => cases hop
    | restore s => cases hop

/-- **A run of trades adds up**: of each asset the amount held is the one at the start and the quantities of the fills
that were applied, less what was dropped. -/
theorem amount_run {ops : List (Operation Rat)} : ∀ {a : Account Rat}, (∀ op ∈ ops, op.isTrading = true) →
    (a.run t ops).amount asset = a.amount asset + Applied.moved (Applied.inAsset asset (a.journal t ops)) := by
  induction ops with
  | nil => intro a _; simp [journal]
  | cons op rest ih =>
    intro a hops
    obtain ⟨hop, hrest⟩ := List.forall_mem_cons.mp hops
    rw [run_cons, ih hrest, amount_perform hop, journal, Applied.inAsset_append, Applied.moved_append]
    ring

/-- Nothing is held where everything that is held is substantial and the amount is not. -/
theorem Substantial.get?_eq_none_iff (ha : a.Substantial t) (hmin : 0 < t.settlement.minimum) :
    a.get? asset = none ↔ |a.amount asset| < t.settlement.minimum := by
  rw [amount, held]
  rcases hp : a.get? asset with - | p
  · simpa [Position.flat] using hmin
  · simpa using ha hp

/-! ## Fills that net to zero -/

/-- **What is left of fills that net to zero.** Under a policy that is accepted, after any run of trading operations in
which the quantities of the fills that were applied in an asset come to zero: each of them dropped nothing, or left
nothing and dropped less than the smallest quantity; the amount held is what was dropped, with its sign turned; and
nothing is held exactly if what was dropped comes to less than the smallest quantity, as it does if nothing was. -/
theorem flat_iff_of_netting {policy : Policy Rat} (hcheck : policy.check = .ok ())
    (instrument : Asset → Option (Instrument Rat)) {ops : List (Operation Rat)}
    (hops : ∀ op ∈ ops, op.isTrading = true) (asset : Asset)
    (hnet : ((Applied.inAsset asset (empty.journal (policy.terms instrument) ops)).map
      fun x => x.fill.quantity).sum = 0) :
    let after := empty.run (policy.terms instrument) ops
    let applied := Applied.inAsset asset (empty.journal (policy.terms instrument) ops)
    (∀ x ∈ applied, x.dropped = 0 ∨ x.Snapped ∧ |x.dropped| < policy.minimum) ∧
      after.amount asset = -(applied.map Applied.dropped).sum ∧
      (after.get? asset = none ↔ |(applied.map Applied.dropped).sum| < policy.minimum) ∧
      ((∀ x ∈ applied, ¬x.Snapped) → after.get? asset = none) := by
  intro after applied
  have hpos : 0 < policy.minimum := Policy.minimum_pos hcheck
  have hmin : (policy.terms instrument).settlement.minimum = policy.minimum := Policy.terms_minimum hcheck instrument
  have hdropped : ∀ x ∈ applied, x.dropped = 0 ∨ x.Snapped ∧ |x.dropped| < policy.minimum := by
    intro x hx
    rw [← hmin]
    exact dropped_of_mem_journal (List.mem_of_mem_filter hx)
  have hamount : after.amount asset = -(applied.map Applied.dropped).sum := by
    have hrun : after.amount asset = empty.amount asset + Applied.moved applied := amount_run hops
    rw [Applied.moved_eq, hnet, zero_sub] at hrun
    exact hrun.trans (zero_add _)
  have hsubstantial : after.Substantial (policy.terms instrument) :=
    Substantial.run all_empty fun op hop => fits_of_isTrading (hops op hop)
  have hnone : after.get? asset = none ↔ |(applied.map Applied.dropped).sum| < policy.minimum := by
    rw [hsubstantial.get?_eq_none_iff (hmin.symm ▸ hpos), hamount, abs_neg, hmin]
  refine ⟨hdropped, hamount, hnone, fun hwhole => hnone.mpr ?_⟩
  have hzero : (applied.map Applied.dropped).sum = 0 := by
    refine List.sum_eq_zero fun d hd => ?_
    obtain ⟨x, hx, rfl⟩ := List.mem_map.mp hd
    exact (hdropped x hx).resolve_right fun hsnapped => hwhole x hx hsnapped.1
  rwa [hzero, abs_zero]

/-- Purchases and sales of these quantities at one price. -/
def trades (quantities : List Rat) : List (Operation Rat) :=
  quantities.map fun q => .fill ⟨"SPY", q, 100, 0, none, none⟩

/-- A position that is turned twice and then closed: nothing is dropped on the way, and nothing is left. -/
theorem flat_of_turning_twice :
    let t := (Policy.usual : Policy Rat).terms fun _ => none
    let ops := trades [3, -5, 4, -2]
    (∀ x ∈ Applied.inAsset "SPY" (empty.journal t ops), ¬x.Snapped) ∧ (empty.run t ops).get? "SPY" = none := by
  intro t ops
  have hnet : (Applied.inAsset "SPY" (empty.journal t ops)).map (fun x => x.fill.quantity) = [3, -5, 4, -2] := by cbv
  have hcheck : (Policy.usual : Policy Rat).check = .ok () := by decide +kernel
  have hops : ∀ op ∈ ops, op.isTrading = true := by decide
  have hwhole : ∀ x ∈ Applied.inAsset "SPY" (empty.journal t ops), ¬x.Snapped := by
    unfold Applied.Snapped
    decide +kernel
  obtain ⟨-, -, -, hflat⟩ :=
    flat_iff_of_netting hcheck (fun _ => none) hops "SPY" (by rw [hnet]; norm_num)
  exact ⟨hwhole, hflat hwhole⟩

/-- **What is dropped adds up**: five accepted fills come to zero, two of them drop half a unit each that is owed, and
one unit is left. -/
theorem unit_left_by_netting :
    let t := Policy.wholeUnits.terms fun _ => none
    let ops := trades [1, -3 / 2, 1, -3 / 2, 1]
    Policy.wholeUnits.check = .ok () ∧
      (empty.journal t ops).map (fun x => x.fill.quantity) = [1, -3 / 2, 1, -3 / 2, 1] ∧
      ([1, -3 / 2, 1, -3 / 2, 1] : List Rat).sum = 0 ∧
      (empty.run t ops).amount "SPY" = 1 ∧ (empty.run t ops).get? "SPY" ≠ none := by
  refine ⟨by decide +kernel, by cbv, by norm_num, by cbv, ?_⟩
  decide +kernel

end Account

end Holdings
