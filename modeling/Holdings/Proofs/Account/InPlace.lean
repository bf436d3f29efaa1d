import Mathlib
import Holdings.Proofs.Account.Locality
import Holdings.Proofs.Call

/-!
# Calls that change an account in place

The operations of an account are functions, so that one that is refused has no account to give. Here they are written
once more as a `Call` that changes its account in place, write by write and check by check. What a call wrote before
it was refused stays written, so that a refused call leaves the account as it was only if it has written nothing, or
has worked on a copy.

* `Position.applyInPlace_on` and its neighbours — each call on a position does what its function does, at once;
* `Account.applyInPlace_on` and its neighbours — so does each call on an account, also where a position is put into
  the book before the fill is booked, or taken out of it after it has become flat;
* `Account.calls_commit` — a call that is refused leaves no trace, and one that is accepted touches nothing but the
  position in its asset, and the profit if it is a fill.
-/

namespace Holdings

variable {α : Type} [Quantity α]

/-! ## Calls on a position -/

namespace Position

/-- A call on a position, refused for a fault if it is. -/
abbrev InPlace (α β : Type) := Call (Position α) (Fault α) β

/-- Records an observed price. -/
def markInPlace (price : α) (time : Instant) : InPlace α Unit :=
  if Quantity.isNoPrice price then throw (.mark price)
  else do
    modify fun p => { p with lastPrice := price }
    modify fun p => { p with lastTime := some time }

/-- Writes levels and then the trigger. -/
def putLevels (l : ExitLevels α) : InPlace α Unit := do
  modify fun p => { p with levels := l }
  modify fun p => { p with trigger := if l.isEmpty || p.isFlat then .disarmed else .armed }

/-- Takes the levels off, where a condition holds. -/
def unguardIf (ends : Bool) : InPlace α Unit := if ends then putLevels .unset else return ()

/-- Sets levels after they were checked. -/
def configureInPlace (l : ExitLevels α) : InPlace α Unit := do
  match (← get).levelFault? l.normalized with
  | some fault => throw (.levels fault)
  | none => putLevels l.normalized

/-- Applies a split: amount, basis and last price are written before it shows whether anything is left. -/
def splitInPlace (asset : Asset) (ratio : α) (lot : Lot α) : InPlace α α := do
  let p ← get
  if p.asset ≠ asset then throw (.asset p.asset asset)
  else if Quantity.isNotPositive ratio then throw (.ratio ratio)
  else if p.isFlat then return 0
  else do
    let shares := splitShares p.amount ratio lot
    let basis := toCent (p.basis * ratio)
    modify fun p => { p with amount := shares.kept }
    modify fun p => { p with basis := basis }
    modify fun p => { p with lastPrice := p.lastPrice * ratio }
    if (← get).isFlat then do
      modify fun p => { p with basis := 0 }
      putLevels .unset
    else
      modify fun p => { p with levels := p.levels.map (toCent <| · * ratio) (toCent <| · * ratio) }
    return toCent (shares.rest * basis)

/-- Spreads a charge. -/
def chargeInPlace (instrument : Option (Instrument α)) (cost : α) : InPlace α Unit := do
  let p ← get
  match instrument.filter fun i => i.asset ≠ p.asset with
  | some i => throw (.asset p.asset i.asset)
  | none =>
    if !Quantity.isFinite cost then throw (.fill (.cost cost))
    else if cost == 0 || p.isFlat then return ()
    else modify fun p => { p with basis := (p.basis * p.amount + chargeInPrice instrument cost) / p.amount }

/-- Settles a fill: the basis is written first, then the levels are taken off where the position ends or turns, and
then the amount is written. -/
def settleInPlace (s : Settlement α) (f : Fill α) : InPlace α (Outcome α) := do
  let p ← get
  let left := s.remaining p.amount f.quantity
  let kind := Settlement.kindOf p.amount f.quantity left
  modify fun q => { q with basis := s.basisAfter p f }
  unguardIf (kind = .closed || kind = .flipped)
  modify fun q => { q with amount := left }
  unguardIf (← get).isFlat
  modify fun q => Settlement.observe q f
  return ⟨kind, s.realizedBy p f, s.expense f, (← get).amount, (← get).basis⟩

/-- Settles a fill and puts on the levels that it carries, if anything is left to guard. -/
def settleGuarded (s : Settlement α) (f : Fill α) : InPlace α (Outcome α) := do
  let outcome ← settleInPlace s f
  match f.levels with
  | none => return outcome
  | some levels => do
    if (← get).isFlat then return outcome
    else do
      configureInPlace levels
      return outcome

/-- Applies a fill. The levels that it carries are checked against the basis that it leads to, so that it may still
be refused after it has settled: it settles on a copy. -/
def applyInPlace (s : Settlement α) (f : Fill α) : InPlace α (Outcome α) := do
  match s.fault? (← get) f with
  | some fault => throw fault
  | none => Call.onCopy (settleGuarded s f)

theorem markInPlace_on (p : Position α) (price : α) (time : Instant) :
    (markInPlace price time).on p = Call.atOnce p ((p.mark price time).map ((), ·)) := by
  rw [markInPlace, mark]
  split <;> simp [Except.map]

@[simp] theorem putLevels_on (p : Position α) (l : ExitLevels α) :
    (putLevels l).on p = (.ok (), p.withLevels l) := by
  simp only [putLevels, Call.on_bind, Call.on_modify]
  rfl

@[simp] theorem unguardIf_on (p : Position α) (ends : Bool) : (unguardIf ends).on p =
    (.ok (), { p with
      levels := if ends then .unset else p.levels
      trigger := if ends then .disarmed else p.trigger }) := by
  cases ends <;> rfl

theorem configureInPlace_on (p : Position α) (l : ExitLevels α) :
    (configureInPlace l).on p = Call.atOnce p ((p.configure l).map ((), ·)) := by
  rw [configureInPlace, configure]
  simp only [Call.on_bind, Call.on_get]
  rcases p.levelFault? l.normalized with - | fault <;> simp [Except.map]

theorem splitInPlace_on (p : Position α) (asset : Asset) (ratio : α) (lot : Lot α) :
    (splitInPlace asset ratio lot).on p = Call.atOnce p (p.split asset ratio lot) := by
  rw [splitInPlace, split]
  simp only [Call.on_bind, Call.on_get]
  split_ifs with hasset hratio hflat
  · rfl
  · rfl
  · rfl
  · simp only [Call.on_bind, Call.on_modify, Call.on_get, Call.atOnce_ok, splitHeld]
    split_ifs with hleft
    · rfl
    · rfl

theorem chargeInPlace_on (p : Position α) (instrument : Option (Instrument α)) (cost : α) :
    (chargeInPlace instrument cost).on p = Call.atOnce p ((p.charge instrument cost).map ((), ·)) := by
  rw [chargeInPlace, charge]
  simp only [Call.on_bind, Call.on_get]
  generalize Option.filter _ instrument = foreign
  cases foreign with
  | none =>
    dsimp only
    split_ifs <;> rfl
  | some i => rfl

theorem settleInPlace_on (s : Settlement α) (p : Position α) (f : Fill α) :
    (settleInPlace s f).on p = (.ok (s.settle p f).1, (s.settle p f).2) := by
  simp only [settleInPlace, Call.on_bind, Call.on_modify, Call.on_get, Call.on_pure, unguardIf_on,
    Settlement.observe_eq]
  rw [Settlement.settle_eq, Settlement.unguards]
  -- taking the levels off twice takes them off once
  rcases hflat : s.remaining p.amount f.quantity == 0 with - | -
  · simp only [isFlat, hflat, Bool.false_or, Bool.false_eq_true, if_false]
    rfl
  · simp only [isFlat, hflat, Bool.true_or, if_true]
    rfl

/-- **A fill whose levels are refused has settled before that**, and would leave the settled position, did it not work
on a copy. -/
theorem settleGuarded_on (s : Settlement α) (p : Position α) (f : Fill α) :
    (settleGuarded s f).on p =
      match f.levels with
      | none => (.ok (s.settle p f).1, (s.settle p f).2)
      | some l =>
        if (s.settle p f).2.isFlat then (.ok (s.settle p f).1, (s.settle p f).2)
        else Call.atOnce (s.settle p f).2 (((s.settle p f).2.configure l).map ((s.settle p f).1, ·)) := by
  simp only [settleGuarded, Call.on_bind, settleInPlace_on]
  rcases f.levels with - | l
  · rfl
  · simp only [Call.on_bind, Call.on_get]
    split_ifs
    · rfl
    · simp only [Call.on_bind, configureInPlace_on]
      rcases (s.settle p f).2.configure l with fault | q <;> rfl

theorem applyInPlace_on (s : Settlement α) (p : Position α) (f : Fill α) :
    (applyInPlace s f).on p = Call.atOnce p (s.apply p f) := by
  simp only [applyInPlace, Call.on_bind, Call.on_get, Settlement.apply]
  rcases s.fault? p f with - | fault
  · simp only [Call.onCopy_on, settleGuarded_on]
    rcases f.levels with - | l
    · rfl
    · dsimp only
      split_ifs
      · rfl
      · rcases (s.settle p f).2.configure l with fault | q <;> rfl
  · rfl

/-- Five more shares with a stop-loss above the basis that they lead to: settled they are fifteen, refused ten. -/
example :
    let s : Settlement Rat := ⟨1 / 1000, .intoBasis⟩
    let p : Position Rat := { Position.flat "SPY" with amount := 10, basis := 100 }
    let f : Fill Rat := ⟨"SPY", 5, 130, 0, none, some ⟨some 120, some 90⟩⟩
    ((settleGuarded s f).on p).2.amount = 15 ∧ ((applyInPlace s f).on p).2.amount = 10 := by
  decide +kernel

end Position

/-! ## Calls on an account -/

namespace Account

/-- Changes the position in an asset in its place in the book; nothing is done if there is none. What the change wrote
stays in the book, refused or not. -/
def changeAt {ε β : Type} (asset : Asset) (change : Call (Position α) ε β) : Call (Account α) ε (Option β) := do
  match (← get).get? asset with
  | none => return none
  | some p =>
    let (answer, q) := change.on p
    modify fun a => a.keep asset q
    match answer with
    | .error fault => throw fault
    | .ok x => return some x

/-- Applies a fill to the position in its asset, or else to a flat one, which is put into the book if the fill is
accepted. -/
def settleAt (t : Terms α) (f : Fill α) : Call (Account α) (Fault α) (Outcome α) := do
  match ← changeAt f.asset (Position.applyInPlace t.settlement f) with
  | some outcome => return outcome
  | none =>
    match (Position.applyInPlace t.settlement f).on (.flat f.asset) with
    | (.error fault, _) => throw fault
    | (.ok outcome, p) => do
      modify fun a => a.keep f.asset p
      return outcome

/-- Applies a fill and books its profit. A position that it leaves flat is taken out of the book. -/
def applyInPlace (t : Terms α) (f : Fill α) : Call (Account α) (Fault α) (Outcome α) := do
  let outcome ← settleAt t ((← get).onTicks t f)
  modify fun a => { a with realized := a.realized + outcome.netProfit }
  if outcome.amount == 0 then do
    modify fun a => a.release f.asset
    return outcome
  else return outcome

/-- Records an observed price; says whether a position is held that it concerns. -/
def markInPlace (asset : Asset) (price : α) (time : Instant) : Call (Account α) (Fault α) Bool := do
  return (← changeAt asset (Position.markInPlace price time)).isSome

/-- Sets the levels of a position, on its ticks. -/
def setLevelsInPlace (t : Terms α) (asset : Asset) (l : ExitLevels α) : Call (Account α) (Fault α) Unit := do
  match (← get).get? asset with
  | none => throw (.levels (.flat asset))
  | some p => do
    let _ ← changeAt asset (Position.configureInPlace (t.roundLevels asset p.isLong l))

/-- Applies a split, and takes the position out of the book if it has become flat. -/
def splitInPlace (t : Terms α) (asset : Asset) (ratio : α) : Call (Account α) (Fault α) α := do
  match ← changeAt asset (Position.splitInPlace asset ratio t.lot) with
  | none => if Quantity.isNotPositive ratio then throw (.ratio ratio) else return 0
  | some cash =>
    if ((← get).get? asset).any Position.isFlat then do
      modify fun a => a.release asset
      return cash
    else return cash

/-- Spreads a charge over a position. -/
def chargeInPlace (t : Terms α) (asset : Asset) (cost : α) : Call (Account α) (Fault α) Unit := do
  let _ ← changeAt asset (Position.chargeInPlace (t.instrument asset) cost)

/-- Puts the account of a snapshot in place of the present one: the book first, and then the profit. -/
def restoreInPlace (s : Snapshot α) : Call (Account α) (RecordFault α) Unit :=
  match s.toPositions with
  | .error fault => throw fault
  | .ok positions => do
    modify fun a => { a with book := .ofList (positions.map fun p => (p.asset, p)) }
    modify fun a => { a with realized := s.realized }

omit [Quantity α] in
/-- A position that is put back is the one that was there. -/
theorem keep_self {a : Account α} {asset : Asset} {p : Position α} (h : a.get? asset = some p) :
    a.keep asset p = a := by
  refine ext_get? (fun other => ?_) rfl
  rw [get?_keep]
  split
  · next heq => rw [← heq, h]
  · rfl

omit [Quantity α] in
/-- A position that is put in and taken out again leaves no trace. -/
theorem release_keep (a : Account α) (asset : Asset) (p : Position α) :
    (a.keep asset p).release asset = a.release asset := by
  refine ext_get? (fun other => ?_) rfl
  rw [get?_release, get?_release, get?_keep]
  split <;> rfl

omit [Quantity α] in
/-- **A change of the position in an asset** that is made at once is a change of the account that is made at once. -/
theorem changeAt_on {ε β : Type} {asset : Asset} {change : Call (Position α) ε β} (a : Account α)
    {changed : Position α → Except ε (β × Position α)}
    (h : ∀ p, change.on p = Call.atOnce p (changed p)) :
    (changeAt asset change).on a =
      match a.get? asset with
      | none => (.ok none, a)
      | some p => Call.atOnce a ((changed p).map fun x => (some x.1, a.keep asset x.2)) := by
  simp only [changeAt, Call.on_bind, Call.on_get]
  rcases hp : a.get? asset with - | p
  · rfl
  · simp only [h, Call.on_bind]
    rcases changed p with fault | ⟨x, q⟩
    · simp only [Call.atOnce_error, Call.on_modify, Call.on_throw, Except.map, keep_self hp]
    · rfl

theorem markInPlace_on (a : Account α) (asset : Asset) (price : α) (time : Instant) :
    (markInPlace asset price time).on a = Call.atOnce a (a.mark asset price time) := by
  simp only [markInPlace, Call.on_bind, changeAt_on a (Position.markInPlace_on · price time), mark]
  rcases a.get? asset with - | p
  · rfl
  · dsimp only
    rcases p.mark price time with fault | q <;> rfl

theorem setLevelsInPlace_on (t : Terms α) (a : Account α) (asset : Asset) (l : ExitLevels α) :
    (setLevelsInPlace t asset l).on a = Call.atOnce a ((a.setLevels t asset l).map ((), ·)) := by
  simp only [setLevelsInPlace, Call.on_bind, Call.on_get, setLevels]
  rcases hp : a.get? asset with - | p
  · rfl
  · simp only [Call.on_bind, changeAt_on a (Position.configureInPlace_on · (t.roundLevels asset p.isLong l)), hp]
    rcases p.configure (t.roundLevels asset p.isLong l) with fault | q <;> rfl

theorem chargeInPlace_on (t : Terms α) (a : Account α) (asset : Asset) (cost : α) :
    (chargeInPlace t asset cost).on a = Call.atOnce a ((a.charge t asset cost).map ((), ·)) := by
  simp only [chargeInPlace, Call.on_bind, changeAt_on a (Position.chargeInPlace_on · (t.instrument asset) cost),
    charge]
  rcases a.get? asset with - | p
  · rfl
  · dsimp only
    rcases p.charge (t.instrument asset) cost with fault | q <;> rfl

theorem splitInPlace_on (t : Terms α) (a : Account α) (asset : Asset) (ratio : α) :
    (splitInPlace t asset ratio).on a = Call.atOnce a (a.split t asset ratio) := by
  simp only [splitInPlace, Call.on_bind, changeAt_on a (Position.splitInPlace_on · asset ratio t.lot), split]
  rcases a.get? asset with - | p
  · dsimp only
    split_ifs <;> rfl
  · dsimp only
    rcases p.split asset ratio t.lot with fault | ⟨cash, q⟩
    · rfl
    · simp only [Except.map, Call.atOnce_ok, Call.on_bind, Call.on_get, get?_keep, if_true, Option.any_some]
      split_ifs
      · simp only [Call.on_bind, Call.on_modify, Call.on_pure, release_keep]
      · rfl

theorem restoreInPlace_on (a : Account α) (s : Snapshot α) :
    (restoreInPlace s).on a = Call.atOnce a ((ofSnapshot s).map ((), ·)) := by
  rw [restoreInPlace, ofSnapshot]
  rcases s.toPositions with fault | positions
  · rfl
  · simp only [Except.map, Call.on_bind, Call.on_modify, Call.atOnce_ok]

theorem settleAt_on (t : Terms α) (a : Account α) (f : Fill α) :
    (settleAt t f).on a =
      Call.atOnce a ((t.settlement.apply (a.held f.asset) f).map fun x => (x.1, a.keep f.asset x.2)) := by
  simp only [settleAt, Call.on_bind, changeAt_on a (Position.applyInPlace_on t.settlement · f), held]
  rcases a.get? f.asset with - | p
  · simp only [Position.applyInPlace_on, Option.getD_none]
    rcases t.settlement.apply (.flat f.asset) f with fault | ⟨o, q⟩ <;> rfl
  · simp only [Option.getD_some]
    rcases t.settlement.apply p f with fault | ⟨o, q⟩ <;> rfl

theorem applyInPlace_on (t : Terms α) (a : Account α) (f : Fill α) :
    (applyInPlace t f).on a = Call.atOnce a (a.apply t f) := by
  simp only [applyInPlace, Call.on_bind, Call.on_get, settleAt_on, apply]
  rw [show (a.onTicks t f).asset = f.asset from rfl]
  rcases t.settlement.apply (a.held f.asset) (a.onTicks t f) with fault | ⟨o, q⟩
  · rfl
  · simp only [Except.map, Call.atOnce_ok, Call.on_modify]
    split_ifs
    · change (Except.ok o, { (a.keep f.asset q).release f.asset with realized := a.realized + o.netProfit }) = _
      rw [release_keep]
    · rfl

/-! ## What a call leaves -/

/-- A change of an account in one asset: every other asset keeps the entry that it had, or has none as before. -/
def Within (asset : Asset) (a b : Account α) : Prop := ∀ other, other ≠ asset → SameAt other a b

/-- **A call that commits**, next to the function of the account that does the same at once. -/
structure Commits {ε β : Type} (call : Call (Account α) ε β) (a : Account α) (function : Except ε (β × Account α))
    (R : β → Account α → Prop) : Prop where
  /-- it answers what the function answers, and leaves the account that the function gives -/
  at_once : call.on a = Call.atOnce a function
  /-- refused, it leaves the account as it was -/
  refused : ∀ fault b, call.on a = (.error fault, b) → b = a
  /-- accepted, it leaves what it should -/
  accepted : ∀ x b, call.on a = (.ok x, b) → R x b

section Left

variable {t : Terms α} {a b : Account α} {asset : Asset}

omit [Quantity α] in
theorem Commits.of_on {ε β : Type} {call : Call (Account α) ε β} {function : Except ε (β × Account α)}
    {R : β → Account α → Prop} (hon : call.on a = Call.atOnce a function)
    (hok : ∀ x b, function = .ok (x, b) → R x b) : Commits call a function R := by
  refine ⟨hon, fun fault b h => ?_, fun x b h => ?_⟩ <;> rw [hon] at h
  · rcases function with cause | ⟨y, c⟩
    · exact (Prod.mk.inj h).2.symm
    · cases (Prod.mk.inj h).1
  · rcases function with cause | ⟨y, c⟩
    · cases (Prod.mk.inj h).1
    · obtain ⟨hx, rfl⟩ := Prod.mk.inj h
      exact hok x c (by rw [Except.ok.inj hx])

/-- Only fills and restored snapshots change the profit. -/
theorem realized_of_perform? {op : Operation α} (hfill : ∀ f, op ≠ .fill f) (hrestore : ∀ s, op ≠ .restore s)
    (h : a.perform? t op = some b) : b.realized = a.realized := by
  cases op with
  | fill f => exact absurd rfl (hfill f)
  | mark asset price time =>
    obtain ⟨⟨held, b'⟩, hok, rfl⟩ := Option.map_eq_some_iff.mp h
    obtain rfl | ⟨p, q, -, -, rfl⟩ := mark_eq_ok (toOption_eq_some_iff.mp hok) <;> rfl
  | levels asset l =>
    obtain ⟨p, q, -, -, rfl⟩ := setLevels_eq_ok (toOption_eq_some_iff.mp h)
    rfl
  | trigger asset price time =>
    obtain ⟨⟨intent, b'⟩, hok, rfl⟩ := Option.map_eq_some_iff.mp h
    obtain ⟨p, q, -, -, rfl⟩ := trigger?_eq_some hok
    rfl
  | triggerAll priceOf time =>
    obtain rfl := Option.some.inj h
    rfl
  | split asset ratio =>
    obtain ⟨⟨cash, b'⟩, hok, rfl⟩ := Option.map_eq_some_iff.mp h
    obtain rfl | ⟨p, q, -, -, rfl⟩ := split_eq_ok (toOption_eq_some_iff.mp hok)
    · rfl
    · dsimp only
      split <;> rfl
  | charge asset cost =>
    obtain rfl | ⟨p, q, -, -, rfl⟩ := charge_eq_ok (toOption_eq_some_iff.mp h) <;> rfl
  | restore s => exact absurd rfl (hrestore s)

/-- An operation on one asset that is accepted changes the account in that asset. -/
theorem within_of_perform? {op : Operation α} (hop : op.asset? = some asset) (h : a.perform? t op = some b) :
    a.Within asset b := by
  intro other hne
  have hb : a.perform t op = b := by rw [perform, h, Option.getD_some]
  rw [SameAt, ← hb, get?_perform_of_ne hop hne.symm]

/-- An operation on one asset that is accepted, and is no fill, changes the account in that asset and leaves the
profit. -/
theorem stands_of_perform? (t : Terms α) (op : Operation α) (hop : op.asset? = some asset)
    (hfill : ∀ f, op ≠ .fill f) (h : a.perform? t op = some b) :
    a.Within asset b ∧ b.realized = a.realized := by
  refine ⟨within_of_perform? hop h, realized_of_perform? hfill (fun s hs => ?_) h⟩
  rw [hs] at hop
  cases hop

/-- **What an accepted fill leaves in its asset**: nothing if nothing is left, and otherwise a position with the amount
and the basis that its outcome reports. -/
theorem entry_of_apply {f : Fill α} {o : Outcome α} (h : a.apply t f = .ok (o, b)) :
    (b.get? f.asset).map (fun p => (p.amount, p.basis)) =
      if o.amount == 0 then none else some (o.amount, o.basis) := by
  obtain ⟨q, hq, hbook, -⟩ := apply_eq_ok h
  obtain ⟨-, hamount, hbasis⟩ := Settlement.apply_position hq
  rw [get?, hbook]
  split
  · rw [Book.get?_erase, if_pos rfl, Option.map_none]
  · rw [Book.get?_insert, if_pos rfl, Option.map_some, hamount, hbasis]

/-- **Calls are atomic and touch only their asset.** On any account and with any arguments, each of the six calls does
in place what its function does at once: refused, it leaves the account as it was, position by position and with its
profit. Accepted, a fill, a mark, new levels, a split and a charge leave the entries of all other assets; of them only
a fill changes the profit, and by the net profit of its outcome. What a fill leaves in its asset is a position with the
amount and the basis of the outcome, or no position if that amount is zero. -/
theorem calls_commit (t : Terms α) (a : Account α) :
    (∀ f : Fill α, Commits (applyInPlace t f) a (a.apply t f) fun o b =>
      a.Within f.asset b ∧ b.realized = a.realized + o.netProfit ∧
        (b.get? f.asset).map (fun p => (p.amount, p.basis)) =
          if o.amount == 0 then none else some (o.amount, o.basis)) ∧
    (∀ asset price time, Commits (markInPlace asset price time) a (a.mark asset price time) fun _ b =>
      a.Within asset b ∧ b.realized = a.realized) ∧
    (∀ asset l, Commits (setLevelsInPlace t asset l) a ((a.setLevels t asset l).map ((), ·)) fun _ b =>
      a.Within asset b ∧ b.realized = a.realized) ∧
    (∀ asset ratio, Commits (splitInPlace t asset ratio) a (a.split t asset ratio) fun _ b =>
      a.Within asset b ∧ b.realized = a.realized) ∧
    (∀ asset cost, Commits (chargeInPlace t asset cost) a ((a.charge t asset cost).map ((), ·)) fun _ b =>
      a.Within asset b ∧ b.realized = a.realized) ∧
    ∀ s : Snapshot α, Commits (restoreInPlace s) a ((ofSnapshot s).map ((), ·)) fun _ b =>
      ofSnapshot s = .ok b := by
  refine ⟨fun f => .of_on (applyInPlace_on t a f) fun o b h => ?_,
    fun asset price time => .of_on (markInPlace_on a asset price time) fun held b h => ?_,
    fun asset l => .of_on (setLevelsInPlace_on t a asset l) fun _ b h => ?_,
    fun asset ratio => .of_on (splitInPlace_on t a asset ratio) fun cash b h => ?_,
    fun asset cost => .of_on (chargeInPlace_on t a asset cost) fun _ b h => ?_,
    fun s => .of_on (restoreInPlace_on a s) fun _ b h => ?_⟩
  · have hfill : a.perform? t (.fill f) = some b := by simp [perform?, h, Except.toOption]
    obtain ⟨-, -, -, hprofit⟩ := apply_eq_ok h
    exact ⟨within_of_perform? rfl hfill, hprofit, entry_of_apply h⟩
  · have hmark : a.perform? t (.mark asset price time) = some b := by simp [perform?, h, Except.toOption]
    exact stands_of_perform? t _ rfl (by simp) hmark
  · obtain ⟨b', hok, hpair⟩ := map_eq_ok_iff.mp h
    obtain rfl := (Prod.mk.inj hpair).2
    have hlevels : a.perform? t (.levels asset l) = some b' := by simp [perform?, hok, Except.toOption]
    exact stands_of_perform? t _ rfl (by simp) hlevels
  · have hsplit : a.perform? t (.split asset ratio) = some b := by simp [perform?, h, Except.toOption]
    exact stands_of_perform? t _ rfl (by simp) hsplit
  · obtain ⟨b', hok, hpair⟩ := map_eq_ok_iff.mp h
    obtain rfl := (Prod.mk.inj hpair).2
    have hcharge : a.perform? t (.charge asset cost) = some b' := by simp [perform?, hok, Except.toOption]
    exact stands_of_perform? t _ rfl (by simp) hcharge
  · obtain ⟨b', hok, hpair⟩ := map_eq_ok_iff.mp h
    rw [hok, (Prod.mk.inj hpair).2]

end Left

end Account

end Holdings
