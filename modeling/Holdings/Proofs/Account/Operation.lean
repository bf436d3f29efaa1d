import Mathlib
import Holdings.Account
import Holdings.Proofs.Book
import Holdings.Proofs.Settlement

/-!
# Runs of operations on an account

An `Operation` is one call that may change an account. A refused one leaves the account as it is, so a run of
operations (`Account.run`) is a run over accepted and refused ones alike.

* `Account.journal` — the fills that a run applies, each with the position it met and what it did to it;
* `Account.Leaves` — how an operation leaves a position. Whatever is held after an operation was held before it, or
  the operation left it (`Account.get?_perform_cases`), and this is all that invariants need to know of operations;
* `Account.Stable` — a property of positions that every operation keeps, checked position by position;
  `Account.All.run` carries it through a run of any length.
-/

namespace Holdings

/-- A call that may change an account. -/
inductive Operation (α : Type) where
  /-- a trade -/
  | fill (fill : Fill α)
  /-- an observed price -/
  | mark (asset : Asset) (price : α) (time : Instant)
  /-- new exit levels -/
  | levels (asset : Asset) (levels : ExitLevels α)
  /-- a look whether a price crosses a level -/
  | trigger (asset : Asset) (price : α) (time : Option Instant)
  /-- a look at every position whose asset has a price -/
  | triggerAll (priceOf : Asset → Option α) (time : Option Instant)
  /-- a split of `ratio` old shares into one -/
  | split (asset : Asset) (ratio : α)
  /-- a charge outside any fill -/
  | charge (asset : Asset) (cost : α)
  /-- the book of a snapshot in place of the present one -/
  | restore (snapshot : Snapshot α)

namespace Operation

variable {α : Type}

/-- The operations by which an account is traded: they take what is held at the basis it was paid for. -/
def isTrading : Operation α → Bool
  | .split .. => false
  | .charge .. => false
  | .restore .. => false
  | _ => true

/-- The asset that an operation is on, if it is on one alone. -/
def asset? : Operation α → Option Asset
  | .fill f => some f.asset
  | .mark asset _ _ => some asset
  | .levels asset _ => some asset
  | .trigger asset _ _ => some asset
  | .triggerAll .. => none
  | .split asset _ => some asset
  | .charge asset _ => some asset
  | .restore _ => none

end Operation

variable {α : Type} [Quantity α]

/-- A fill that was applied. -/
structure Applied (α : Type) where
  /-- the position that it met -/
  held : Position α
  /-- the fill -/
  fill : Fill α
  /-- what it did -/
  outcome : Outcome α

namespace Account

/-- The account after an operation that is accepted. -/
def perform? (t : Terms α) (a : Account α) : Operation α → Option (Account α)
  | .fill f => (a.apply t f).toOption.map Prod.snd
  | .mark asset price time => (a.mark asset price time).toOption.map Prod.snd
  | .levels asset l => (a.setLevels t asset l).toOption
  | .trigger asset price time => (a.trigger? asset price time).map Prod.snd
  | .triggerAll priceOf time => some (a.triggerAll priceOf time).2
  | .split asset ratio => (a.split t asset ratio).toOption.map Prod.snd
  | .charge asset cost => (a.charge t asset cost).toOption
  | .restore s => (ofSnapshot s).toOption

/-- The account after an operation; one that is refused leaves it as it is. -/
def perform (t : Terms α) (a : Account α) (op : Operation α) : Account α := (a.perform? t op).getD a

/-- The account after a list of operations. -/
def run (t : Terms α) (a : Account α) (ops : List (Operation α)) : Account α :=
  ops.foldl (perform t) a

@[simp] theorem run_nil (t : Terms α) (a : Account α) : a.run t [] = a := rfl

@[simp] theorem run_cons (t : Terms α) (a : Account α) (op : Operation α) (ops : List (Operation α)) :
    a.run t (op :: ops) = (a.perform t op).run t ops := rfl

theorem run_append (t : Terms α) (a : Account α) (ops ops' : List (Operation α)) :
    a.run t (ops ++ ops') = (a.run t ops).run t ops' :=
  List.foldl_append

/-- **A run keeps what each of its operations keeps.** -/
theorem run_induction {t : Terms α} {P : Account α → Prop} {ops : List (Operation α)} :
    ∀ {a : Account α}, (∀ op ∈ ops, ∀ b : Account α, P b → P (b.perform t op)) → P a → P (a.run t ops) := by
  induction ops with
  | nil => intro a _ ha; exact ha
  | cons op rest ih =>
    intro a hstep ha
    obtain ⟨hop, hrest⟩ := List.forall_mem_cons.mp hstep
    exact ih hrest (hop a ha)

/-! ## The journal of applied fills -/

/-- The fill that an operation applies, if it is a fill and is accepted. -/
def entry (t : Terms α) (a : Account α) : Operation α → List (Applied α)
  | .fill f =>
    match a.apply t f with
    | .ok (outcome, _) => [⟨a.held f.asset, f, outcome⟩]
    | .error _ => []
  | _ => []

/-- An operation that is refused applies no fill. -/
theorem entry_of_refused {t : Terms α} {a : Account α} {op : Operation α} (h : a.perform? t op = none) :
    a.entry t op = [] := by
  cases op with
  | fill f =>
    rcases hf : a.apply t f with fault | ⟨o, b⟩
    · simp [entry, hf]
    · simp [perform?, hf, Except.toOption] at h
  | _ => rfl

/-- The fills that a run applies, in their order. -/
def journal (t : Terms α) (a : Account α) : List (Operation α) → List (Applied α)
  | [] => []
  | op :: ops => a.entry t op ++ (a.perform t op).journal t ops

theorem journal_append (t : Terms α) (ops ops' : List (Operation α)) :
    ∀ a : Account α, a.journal t (ops ++ ops') = a.journal t ops ++ (a.run t ops).journal t ops' := by
  induction ops with
  | nil => intro a; rfl
  | cons op rest ih =>
    intro a
    rw [List.cons_append, journal, ih, journal, List.append_assoc, run_cons]

/-- Every fill of a journal was accepted by the account that the run had reached. -/
theorem mem_journal {t : Terms α} {x : Applied α} : ∀ {ops : List (Operation α)} {a : Account α},
    x ∈ a.journal t ops →
    ∃ b c : Account α, b.apply t x.fill = .ok (x.outcome, c) ∧ x.held = b.held x.fill.asset
  | [], _, h => by cases h
  | op :: ops, a, h => by
    rcases List.mem_append.mp h with hentry | hrest
    · cases op with
      | fill f =>
        rw [entry] at hentry
        split at hentry
        · next o c happly =>
          obtain rfl := List.mem_singleton.mp hentry
          exact ⟨a, c, happly, rfl⟩
        · cases hentry
      | _ => cases hentry
    · exact mem_journal hrest

/-! ## What accepted operations do -/

omit [Quantity α] in
@[simp] theorem get?_keep (a : Account α) (asset asset' : Asset) (p : Position α) :
    (a.keep asset p).get? asset' = if asset = asset' then some p else a.get? asset' :=
  Book.get?_insert ..

omit [Quantity α] in
@[simp] theorem get?_release (a : Account α) (asset asset' : Asset) :
    (a.release asset).get? asset' = if asset = asset' then none else a.get? asset' :=
  Book.get?_erase ..

omit [Quantity α] in
/-- Accounts with the same positions and the same profit are the same. -/
theorem ext_get? {a b : Account α} (h : ∀ asset, a.get? asset = b.get? asset) (hprofit : a.realized = b.realized) :
    a = b := by
  have hbook : a.book = b.book := Book.ext_get? h
  cases a
  cases b
  exact congr (congrArg Account.mk hbook) hprofit

/-- The position that a fill meets is the one in the book, or a flat one. -/
theorem held_cases (a : Account α) (asset : Asset) :
    a.get? asset = some (a.held asset) ∨ (a.get? asset = none ∧ a.held asset = .flat asset) := by
  rw [held]
  rcases h : a.get? asset with - | p
  · exact .inr ⟨rfl, rfl⟩
  · exact .inl rfl

/-- A fill without levels has none to move onto the ticks. -/
theorem onTicks_of_levels_none (t : Terms α) (a : Account α) {f : Fill α} (h : f.levels = none) :
    a.onTicks t f = f := by
  rw [onTicks, h]
  cases f
  exact congrArg _ h.symm

/-- **An accepted fill**: the position it met is settled, what is left of it stays in the book unless nothing is
left, and the profit is booked. -/
theorem apply_eq_ok {t : Terms α} {a b : Account α} {f : Fill α} {o : Outcome α}
    (h : a.apply t f = .ok (o, b)) :
    ∃ q, t.settlement.apply (a.held f.asset) (a.onTicks t f) = .ok (o, q) ∧
      b.book = (if o.amount == 0 then a.book.erase f.asset else a.book.insert f.asset q) ∧
      b.realized = a.realized + o.netProfit := by
  rw [apply] at h
  rcases hs : t.settlement.apply (a.held f.asset) (a.onTicks t f) with fault | ⟨o', q⟩
  · rw [hs] at h
    cases h
  · rw [hs] at h
    obtain ⟨rfl, rfl⟩ := Prod.mk.inj (Except.ok.inj h)
    refine ⟨q, rfl, ?_, rfl⟩
    dsimp only
    split <;> rfl

/-- **A fill of all that is held** ends the position, which leaves the book. -/
theorem ends_of_apply [Quantity.LawfulZero α] [Quantity.LawfulNeg α] {t : Terms α} {a b : Account α} {f : Fill α}
    {o : Outcome α} {p : Position α} (h : a.apply t f = .ok (o, b)) (hp : a.get? f.asset = some p)
    (hflat : p.isFlat = false) (hq : f.quantity = -p.amount) : o.kind = .closed ∧ b.get? f.asset = none := by
  obtain ⟨q, hsettle, hbook, -⟩ := apply_eq_ok h
  obtain ⟨hfault, rfl, -⟩ := Settlement.apply_eq_ok hsettle
  have hheld : a.held f.asset = p := by rw [held, hp, Option.getD_some]
  have hquantity : (a.onTicks t f).quantity = -p.amount := hq
  have hfinite : Quantity.isFinite (-p.amount) = true :=
    hquantity ▸ Settlement.isFinite_of_fillFault? (Settlement.fillFault?_of_fault? hfault)
  have hleft : (t.settlement.remaining p.amount (-p.amount) == 0) = true := Settlement.remaining_all hfinite
  have houtcome : (t.settlement.settle (a.held f.asset) (a.onTicks t f)).1.kind =
        Settlement.kindOf p.amount (-p.amount) (t.settlement.remaining p.amount (-p.amount)) ∧
      (t.settlement.settle (a.held f.asset) (a.onTicks t f)).1.amount =
        t.settlement.remaining p.amount (-p.amount) := by
    rw [hheld, ← hquantity]
    exact ⟨rfl, rfl⟩
  refine ⟨houtcome.1.trans (Settlement.kindOf_all hflat hleft), ?_⟩
  rw [get?, hbook, houtcome.2, if_pos hleft, Book.get?_erase, if_pos rfl]

/-- An accepted mark changes at most the last price of the asset. -/
theorem mark_eq_ok {a b : Account α} {asset : Asset} {price : α} {time : Instant} {held : Bool}
    (h : a.mark asset price time = .ok (held, b)) :
    b = a ∨ ∃ p q, a.get? asset = some p ∧ p.mark price time = .ok q ∧ b = a.keep asset q := by
  rw [mark] at h
  rcases hg : a.get? asset with - | p <;> simp only [hg] at h
  · exact .inl (Prod.mk.inj (Except.ok.inj h)).2.symm
  · obtain ⟨q, hm, hpair⟩ := map_eq_ok_iff.mp h
    exact .inr ⟨p, q, rfl, hm, (Prod.mk.inj hpair).2.symm⟩

/-- A mark is refused for its price alone. -/
theorem mark_eq_error {a : Account α} {asset : Asset} {price : α} {time : Instant} {fault : Fault α}
    (h : a.mark asset price time = .error fault) : fault = .mark price := by
  rw [mark] at h
  rcases hg : a.get? asset with - | p <;> simp only [hg] at h
  · cases h
  · rcases hm : p.mark price time with cause | q <;> rw [hm] at h
    · obtain rfl := Except.error.inj h
      exact Position.mark_eq_error hm
    · cases h

theorem setLevels_eq_ok {t : Terms α} {a b : Account α} {asset : Asset} {l : ExitLevels α}
    (h : a.setLevels t asset l = .ok b) :
    ∃ p q, a.get? asset = some p ∧ p.configure (t.roundLevels asset p.isLong l) = .ok q ∧
      b = a.keep asset q := by
  rw [setLevels] at h
  rcases hg : a.get? asset with - | p <;> simp only [hg] at h
  · cases h
  · obtain ⟨q, hc, rfl⟩ := map_eq_ok_iff.mp h
    exact ⟨p, q, rfl, hc, rfl⟩

theorem trigger?_eq_some {a b : Account α} {asset : Asset} {price : α} {time : Option Instant}
    {intent : ExitIntent α} (h : a.trigger? asset price time = some (intent, b)) :
    ∃ p q, a.get? asset = some p ∧ p.trigger? price time = some (intent, q) ∧
      b = a.keep asset q := by
  rw [trigger?] at h
  rcases hg : a.get? asset with - | p <;> simp only [hg] at h
  · cases h
  · obtain ⟨⟨i, q⟩, hq, hpair⟩ := Option.map_eq_some_iff.mp h
    obtain ⟨rfl, rfl⟩ := Prod.mk.inj hpair
    exact ⟨p, q, rfl, hq, rfl⟩

theorem split_eq_ok {t : Terms α} {a b : Account α} {asset : Asset} {ratio cash : α}
    (h : a.split t asset ratio = .ok (cash, b)) :
    b = a ∨ ∃ p q, a.get? asset = some p ∧ p.split asset ratio t.lot = .ok (cash, q) ∧
      b = if q.isFlat then a.release asset else a.keep asset q := by
  rw [split] at h
  rcases hg : a.get? asset with - | p <;> simp only [hg] at h
  · split at h
    · cases h
    · exact .inl (Prod.mk.inj (Except.ok.inj h)).2.symm
  · obtain ⟨⟨c, q⟩, hs, hpair⟩ := map_eq_ok_iff.mp h
    obtain ⟨rfl, rfl⟩ := Prod.mk.inj hpair
    exact .inr ⟨p, q, rfl, hs, rfl⟩

theorem charge_eq_ok {t : Terms α} {a b : Account α} {asset : Asset} {cost : α}
    (h : a.charge t asset cost = .ok b) :
    b = a ∨ ∃ p q, a.get? asset = some p ∧ p.charge (t.instrument asset) cost = .ok q ∧
      b = a.keep asset q := by
  rw [charge] at h
  rcases hg : a.get? asset with - | p <;> simp only [hg] at h
  · exact .inl (Except.ok.inj h).symm
  · obtain ⟨q, hc, rfl⟩ := map_eq_ok_iff.mp h
    exact .inr ⟨p, q, rfl, hc, rfl⟩

/-! ## Restored books -/

/-- A record that is accepted gives the position that it describes. -/
theorem toPosition_eq_ok {r : Record α} {p : Position α} (h : r.toPosition = .ok p) :
    r.flaw? = none ∧ p = r.rebuilt := by
  rw [Record.toPosition] at h
  split at h
  · cases h
  · next hnone => exact ⟨hnone, (Except.ok.inj h).symm⟩

theorem rebuilt_asset (r : Record α) : r.rebuilt.asset = r.asset := by
  rw [Record.rebuilt]
  split <;> rfl

/-- A record without flaw is read. -/
theorem toPosition_of_flaw? {r : Record α} (h : r.flaw? = none) : r.toPosition = .ok r.rebuilt := by
  rw [Record.toPosition, h]

theorem rebuild_cons_eq_ok_iff {r : Record α} {rest : List (Record α)} {seen : List Asset}
    {ps : List (Position α)} : Snapshot.rebuild seen (r :: rest) = .ok ps ↔
      r.asset ∉ seen ∧ r.flaw? = none ∧
        ∃ qs, Snapshot.rebuild (r.asset :: seen) rest = .ok qs ∧ ps = r.rebuilt :: qs := by
  rw [Snapshot.rebuild]
  split
  · next hseen => simp [hseen]
  · next hseen =>
    rw [Record.toPosition]
    rcases r.flaw? with - | flaw
    · rcases Snapshot.rebuild (r.asset :: seen) rest with fault | qs <;>
        simp [hseen, bind, Except.bind, pure, Except.pure, eq_comm]
    · simp [bind, Except.bind]

/-- **Which records are read together**: those of different assets, none of them seen before and none flawed. Each
gives the position that it describes, in the order of the records. -/
theorem rebuild_eq_ok_iff {records : List (Record α)} :
    ∀ {seen : List Asset} {ps : List (Position α)},
      Snapshot.rebuild seen records = .ok ps ↔
        (records.map Record.asset).Nodup ∧ (∀ r ∈ records, r.asset ∉ seen) ∧
          (∀ r ∈ records, r.flaw? = none) ∧ ps = records.map Record.rebuilt := by
  induction records with
  | nil =>
    intro seen ps
    simp [Snapshot.rebuild, eq_comm]
  | cons r rest ih =>
    intro seen ps
    rw [rebuild_cons_eq_ok_iff]
    constructor
    · rintro ⟨hseen, hflaw, qs, hrest, rfl⟩
      obtain ⟨hnodup, hfresh, hflaws, rfl⟩ := ih.mp hrest
      refine ⟨List.nodup_cons.mpr ⟨fun hmem => ?_, hnodup⟩, ?_, ?_, rfl⟩
      · obtain ⟨r', hr', heq⟩ := List.mem_map.mp hmem
        exact hfresh r' hr' (heq ▸ List.mem_cons_self ..)
      · exact List.forall_mem_cons.mpr
          ⟨hseen, fun r' hr' hmem => hfresh r' hr' (List.mem_cons_of_mem _ hmem)⟩
      · exact List.forall_mem_cons.mpr ⟨hflaw, hflaws⟩
    · rintro ⟨hnodup, hfresh, hflaws, rfl⟩
      obtain ⟨hnot, hnodup⟩ := List.nodup_cons.mp hnodup
      obtain ⟨hseen, hfresh⟩ := List.forall_mem_cons.mp hfresh
      obtain ⟨hflaw, hflaws⟩ := List.forall_mem_cons.mp hflaws
      refine ⟨hseen, hflaw, rest.map Record.rebuilt, ih.mpr ⟨hnodup, ?_, hflaws, rfl⟩, rfl⟩
      intro r' hr' hmem
      rcases List.mem_cons.mp hmem with heq | hmem
      · exact hnot (heq ▸ List.mem_map_of_mem hr')
      · exact hfresh r' hr' hmem

/-- What a restored account answers comes from a record of its asset. -/
theorem ofSnapshot_eq_ok {s : Snapshot α} {a : Account α} (h : ofSnapshot s = .ok a) {asset : Asset}
    {p : Position α} (hp : a.get? asset = some p) :
    ∃ r ∈ s.records, r.toPosition = .ok p ∧ r.asset = asset := by
  rw [ofSnapshot] at h
  obtain ⟨ps, hps, rfl⟩ := map_eq_ok_iff.mp h
  have hmem := Book.mem_of_get?_ofList hp
  obtain ⟨q, hq, hpair⟩ := List.mem_map.mp hmem
  obtain ⟨rfl, rfl⟩ := Prod.mk.inj hpair
  obtain ⟨-, -, hflaws, rfl⟩ := rebuild_eq_ok_iff.mp hps
  obtain ⟨r, hr, rfl⟩ := List.mem_map.mp hq
  exact ⟨r, hr, toPosition_of_flaw? (hflaws r hr), (rebuilt_asset r).symm⟩

/-! ## What is held after an operation -/

/-- How an operation that is accepted leaves a position in an asset, other than as it was. Of the account before it
nothing counts but the position in that asset, if there was one. -/
inductive Leaves (t : Terms α) (asset : Asset) :
    Operation α → Option (Position α) → Position α → Prop where
  /-- a fill settles with the position, or else with a flat one, and something is left -/
  | fill {x : Option (Position α)} {f : Fill α} {long : Bool} {o : Outcome α} {q : Position α} :
      f.asset = asset →
      t.settlement.apply (x.getD (.flat asset))
        { f with levels := f.levels.map (t.roundLevels asset long) } = .ok (o, q) →
      (o.amount == 0) = false → Leaves t asset (.fill f) x q
  /-- a price is recorded -/
  | mark {p q : Position α} {price : α} {time : Instant} : p.mark price time = .ok q →
      Leaves t asset (.mark asset price time) (some p) q
  /-- levels are set -/
  | levels {p q : Position α} {l : ExitLevels α} :
      p.configure (t.roundLevels asset p.isLong l) = .ok q →
      Leaves t asset (.levels asset l) (some p) q
  /-- a trigger fires -/
  | trigger {p q : Position α} {price : α} {time : Option Instant} {intent : ExitIntent α} :
      p.trigger? price time = some (intent, q) →
      Leaves t asset (.trigger asset price time) (some p) q
  /-- a trigger fires in a look at all positions -/
  | triggerAll {p q : Position α} {priceOf : Asset → Option α} {price : α} {time : Option Instant}
      {intent : ExitIntent α} : priceOf asset = some price →
      p.trigger? price time = some (intent, q) →
      Leaves t asset (.triggerAll priceOf time) (some p) q
  /-- a split leaves something -/
  | split {p q : Position α} {ratio cash : α} : p.split asset ratio t.lot = .ok (cash, q) →
      q.isFlat = false → Leaves t asset (.split asset ratio) (some p) q
  /-- a charge is spread over the position -/
  | charge {p q : Position α} {cost : α} : p.charge (t.instrument asset) cost = .ok q →
      Leaves t asset (.charge asset cost) (some p) q
  /-- a record of the asset is read -/
  | restore {x : Option (Position α)} {s : Snapshot α} {r : Record α} {q : Position α} :
      r ∈ s.records → r.toPosition = .ok q → r.asset = asset → Leaves t asset (.restore s) x q

section Leaves

variable {t : Terms α} {a : Account α} {asset : Asset} {q : Position α}

omit [Quantity α] in
theorem get?_keep_cases {asset' : Asset} {p : Position α}
    (h : (a.keep asset' p).get? asset = some q) :
    a.get? asset = some q ∨ asset' = asset ∧ p = q := by
  rw [get?_keep] at h
  split at h
  · next heq => exact .inr ⟨heq, Option.some.inj h⟩
  · exact .inl h

omit [Quantity α] in
theorem get?_release_cases {asset' : Asset} (h : (a.release asset').get? asset = some q) :
    a.get? asset = some q := by
  rw [get?_release] at h
  split at h
  · cases h
  · exact h

/-- **What is held after an operation** was held before it, or the operation was accepted and left it. -/
theorem get?_perform_cases {op : Operation α} (h : (a.perform t op).get? asset = some q) :
    a.get? asset = some q ∨
      (a.perform? t op).isSome = true ∧ Leaves t asset op (a.get? asset) q := by
  rw [perform] at h
  rcases hb : a.perform? t op with - | b <;> rw [hb] at h
  · exact .inl h
  · replace h : b.get? asset = some q := h
    -- an operation on one asset keeps a position there; whoever finds another one in the book finds it as it was
    have hkept : ∀ {asset' : Asset} {p r : Position α}, a.get? asset' = some p →
        b = a.keep asset' r → (asset' = asset → Leaves t asset op (some p) r) →
        a.get? asset = some q ∨ (some b).isSome = true ∧ Leaves t asset op (a.get? asset) q := by
      rintro asset' p r hp rfl hleaves
      rcases get?_keep_cases h with hsame | ⟨rfl, rfl⟩
      · exact .inl hsame
      · exact .inr ⟨rfl, hp ▸ hleaves rfl⟩
    cases op with
    | fill f =>
      obtain ⟨⟨o, b'⟩, hok, rfl⟩ := Option.map_eq_some_iff.mp hb
      obtain ⟨p, hp, hbook, -⟩ := apply_eq_ok (toOption_eq_some_iff.mp hok)
      rw [get?, hbook] at h
      split at h
      · exact .inl (get?_release_cases h)
      · next hne =>
        rcases get?_keep_cases (a := a) h with hsame | ⟨rfl, rfl⟩
        · exact .inl hsame
        · exact .inr ⟨rfl, .fill rfl hp (by simpa using hne)⟩
    | mark asset' price time =>
      obtain ⟨⟨held, b'⟩, hok, rfl⟩ := Option.map_eq_some_iff.mp hb
      rcases mark_eq_ok (toOption_eq_some_iff.mp hok) with rfl | ⟨p, r, hp, hr, heq⟩
      · exact .inl h
      · exact hkept hp heq fun ha => ha ▸ .mark hr
    | levels asset' l =>
      obtain ⟨p, r, hp, hr, heq⟩ := setLevels_eq_ok (toOption_eq_some_iff.mp hb)
      exact hkept hp heq fun ha => ha ▸ .levels hr
    | trigger asset' price time =>
      obtain ⟨⟨intent, b'⟩, hok, rfl⟩ := Option.map_eq_some_iff.mp hb
      obtain ⟨p, r, hp, hr, heq⟩ := trigger?_eq_some hok
      exact hkept hp heq fun ha => ha ▸ .trigger hr
    | triggerAll priceOf time =>
      obtain rfl := Option.some.inj hb
      obtain ⟨p, hp, rfl⟩ := Option.map_eq_some_iff.mp ((Book.get?_map ..).symm.trans h)
      have hp : a.get? asset = some p := hp
      dsimp only
      rcases hfire : (priceOf asset).bind fun price => p.trigger? price time with - | ⟨intent, r⟩
      · exact .inl hp
      · obtain ⟨price, hprice, hr⟩ := Option.bind_eq_some_iff.mp hfire
        exact .inr ⟨rfl, hp ▸ .triggerAll hprice hr⟩
    | split asset' ratio =>
      obtain ⟨⟨cash, b'⟩, hok, rfl⟩ := Option.map_eq_some_iff.mp hb
      rcases split_eq_ok (toOption_eq_some_iff.mp hok) with rfl | ⟨p, r, hp, hr, heq⟩
      · exact .inl h
      · split at heq
        · exact .inl (get?_release_cases (heq ▸ h))
        · next hflat =>
          refine hkept hp heq fun ha => ?_
          subst ha
          exact .split hr (by simpa using hflat)
    | charge asset' cost =>
      rcases charge_eq_ok (toOption_eq_some_iff.mp hb) with rfl | ⟨p, r, hp, hr, heq⟩
      · exact .inl h
      · exact hkept hp heq fun ha => ha ▸ .charge hr
    | restore s =>
      obtain ⟨r, hr, hrq, hasset⟩ := ofSnapshot_eq_ok (toOption_eq_some_iff.mp hb) h
      exact .inr ⟨rfl, .restore hr hrq hasset⟩

end Leaves

/-! ## Properties that every operation keeps -/

/-- Every position of the book has a property, which may speak of the asset it is kept under. -/
def All (P : Asset → Position α → Prop) (a : Account α) : Prop :=
  ∀ ⦃asset : Asset⦄ ⦃p : Position α⦄, a.get? asset = some p → P asset p

/-- A property that every change of a position keeps. A position enters the book by a fill that meets a flat
one, or from a record. -/
structure Stable (t : Terms α) (P : Asset → Position α → Prop) : Prop where
  /-- a fill keeps it, as long as anything is left -/
  fill : ∀ {asset p f o q}, P asset p ∨ p = .flat asset → t.settlement.apply p f = .ok (o, q) →
    f.asset = asset → (o.amount == 0) = false → P asset q
  /-- a mark keeps it -/
  mark : ∀ {asset p price time q}, P asset p → p.mark price time = .ok q → P asset q
  /-- new levels keep it -/
  configure : ∀ {asset p l q}, P asset p → p.configure l = .ok q → P asset q
  /-- a trigger that fires keeps it -/
  trigger : ∀ {asset p price time intent q}, P asset p →
    p.trigger? price time = some (intent, q) → P asset q
  /-- a split keeps it, as long as anything is left -/
  split : ∀ {asset p ratio cash q}, P asset p → p.split asset ratio t.lot = .ok (cash, q) →
    q.isFlat = false → P asset q
  /-- a charge keeps it -/
  charge : ∀ {asset p cost q}, P asset p → p.charge (t.instrument asset) cost = .ok q → P asset q
  /-- a record that is accepted has it -/
  rebuilt : ∀ {r : Record α} {p}, r.toPosition = .ok p → P r.asset p

section Stable

variable {t : Terms α} {P : Asset → Position α → Prop} {a : Account α}

theorem all_empty : All P (empty : Account α) := fun _ _ h => by cases h

/-- **One operation keeps a stable property of all positions.** -/
theorem All.perform (h : Stable t P) (ha : All P a) (op : Operation α) : All P (a.perform t op) := by
  intro asset q hq
  rcases get?_perform_cases hq with hsame | ⟨-, hleaves⟩
  · exact ha hsame
  · generalize hx : a.get? asset = x at hleaves
    cases hleaves with
    | fill hasset hf ho =>
      refine h.fill ?_ hf hasset ho
      cases x with
      | none => exact .inr rfl
      | some p => exact .inl (ha hx)
    | mark hm => exact h.mark (ha hx) hm
    | levels hc => exact h.configure (ha hx) hc
    | trigger ht => exact h.trigger (ha hx) ht
    | triggerAll _ ht => exact h.trigger (ha hx) ht
    | split hs hflat => exact h.split (ha hx) hs hflat
    | charge hc => exact h.charge (ha hx) hc
    | restore _ hr hasset => exact hasset ▸ h.rebuilt hr

/-- **A run keeps a stable property of all positions.** -/
theorem All.run (h : Stable t P) (ops : List (Operation α)) {a : Account α} (ha : All P a) : All P (a.run t ops) :=
  run_induction (fun op _ _ hb => All.perform h hb op) ha

end Stable

end Account

end Holdings
