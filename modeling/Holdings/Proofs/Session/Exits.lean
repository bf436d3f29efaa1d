import Mathlib
import Holdings.Proofs.Account.Amounts
import Holdings.Proofs.Session.Dust
import Holdings.Proofs.Session.Isolation
import Holdings.Proofs.Session.Refusal

/-!
# What becomes of an exit that fires

A price that crosses a level switches the trigger of the position to fired, and only then is the fill tried that
leaves the position. That fill has a price and brings the amount to zero; it is refused for one reason alone, that the
amount is below the smallest quantity.

* `Account.hasFired_of_leaves` — only a trigger leaves a position fired;
* `Session.exits_handle` — the tally counts the exits that fire;
* `Session.exit_cases` — an exit is carried out, or the amount held is below the smallest quantity, and then the event
  is refused and the position stays as one that has fired.
-/

namespace Holdings

/-! ## Positions that have fired -/

namespace Operation

variable {α : Type}

/-- The operations that may leave a position fired that was not. -/
def fires : Operation α → Bool
  | .trigger .. => true
  | .triggerAll .. => true
  | .restore _ => true
  | _ => false

end Operation

variable {α : Type} [Quantity α]

namespace Position

variable {p q : Position α}

/-- A level of the position was crossed, and the position is still there. -/
def HasFired (p : Position α) : Prop := ∃ reason, p.trigger = .fired reason

omit [Quantity α] in
theorem HasFired.congr (h : q.HasFired) (htrigger : q.trigger = p.trigger) : p.HasFired := by
  rwa [HasFired, ← htrigger]

/-- Levels that are put on have not fired. -/
theorem not_hasFired_withLevels (l : ExitLevels α) : ¬(p.withLevels l).HasFired := by
  rintro ⟨reason, hfired⟩
  rw [withLevels] at hfired
  dsimp only at hfired
  split at hfired <;> cases hfired

theorem not_hasFired_of_configure {l : ExitLevels α} (h : p.configure l = .ok q) : ¬q.HasFired := by
  obtain ⟨-, rfl⟩ := configure_eq_ok h
  exact not_hasFired_withLevels _

theorem HasFired.of_fill (hq : q.HasFired) {s : Settlement α} {f : Fill α} {o : Outcome α}
    (hf : s.apply p f = .ok (o, q)) : p.HasFired := by
  obtain ⟨-, -, rfl | ⟨l, hl⟩⟩ := Settlement.apply_eq_ok hf
  · obtain ⟨-, -, -, -, ⟨-, htrigger⟩ | ⟨-, htrigger⟩⟩ := Settlement.settle_position s p f
    · exact hq.congr htrigger
    · obtain ⟨reason, hfired⟩ := hq
      rw [htrigger] at hfired
      cases hfired
  · exact absurd hq (not_hasFired_of_configure hl)

theorem HasFired.of_split (hq : q.HasFired) {asset : Asset} {ratio cash : α} {lot : Lot α}
    (hs : p.split asset ratio lot = .ok (cash, q)) : p.HasFired := by
  obtain ⟨-, -, ⟨-, rfl⟩ | ⟨-, heq⟩⟩ := split_eq_ok hs
  · exact hq
  · obtain rfl := congrArg Prod.snd heq
    obtain ⟨reason, hfired⟩ := hq
    rw [splitHeld] at hfired
    dsimp only at hfired
    split at hfired
    · cases hfired
    · exact ⟨reason, hfired⟩

end Position

namespace Account

variable {t : Terms α} {a : Account α} {asset : Asset} {op : Operation α}

/-- **Only a trigger leaves a position fired**, or a snapshot that is restored: a position that any other operation
leaves fired had fired before. -/
theorem hasFired_of_leaves {x : Option (Position α)} {q : Position α} (h : Leaves t asset op x q)
    (hop : op.fires = false) (hq : q.HasFired) : ∃ p, x = some p ∧ p.HasFired := by
  cases h with
  | @fill x _ _ _ _ _ hf _ =>
    have hmet := hq.of_fill hf
    cases x with
    | none =>
      obtain ⟨reason, hfired⟩ := hmet
      cases hfired
    | some p => exact ⟨p, rfl, hmet⟩
  | mark hm =>
    obtain ⟨-, rfl⟩ := Position.mark_eq_ok hm
    exact ⟨_, rfl, hq⟩
  | levels hc => exact absurd hq (Position.not_hasFired_of_configure hc)
  | split hs _ => exact ⟨_, rfl, hq.of_split hs⟩
  | charge hc =>
    obtain ⟨basis, rfl⟩ := Position.charge_eq_ok hc
    exact ⟨_, rfl, hq⟩
  | trigger => cases hop
  | triggerAll => cases hop
  | restore => cases hop

/-- No position has fired. -/
def NoneFired (a : Account α) : Prop := All (fun _ p => ¬p.HasFired) a

theorem NoneFired.perform (ha : a.NoneFired) (hop : op.fires = false) : (a.perform t op).NoneFired := by
  intro asset q hq hfired
  rcases get?_perform_cases hq with hsame | ⟨-, hleaves⟩
  · exact ha hsame hfired
  · obtain ⟨p, hp, hmet⟩ := hasFired_of_leaves hleaves hop hfired
    exact ha hp hmet

theorem NoneFired.run (ha : a.NoneFired) {ops : List (Operation α)} (hops : ∀ op ∈ ops, op.fires = false) :
    (a.run t ops).NoneFired :=
  run_induction (fun op hop _ hb => hb.perform (hops op hop)) ha

end Account

/-! ## The exit of an event -/

namespace Session

variable {policy : Policy α} {s : Session α} {e : Event α} {exit : FiredExit α}

/-- The exit that an event sets off, if one of its prices crosses a level of the position in its asset. -/
def exit? (s : Session α) (e : Event α) : Option (FiredExit α) :=
  (s.observation? e).bind fun x => firstExit? x.account x.bar.asset x.bar.time x.path

/-- An exit comes of an observation, and of the position in its asset. -/
theorem exit?_eq_some (h : s.exit? e = some exit) :
    ∃ x p q, s.observation? e = some x ∧ firstExit? x.account e.asset x.bar.time x.path = some exit ∧
      x.account.get? e.asset = some p ∧ p.trigger? exit.price (some x.bar.time) = some (exit.intent, q) ∧
      exit.account = x.account.keep e.asset q := by
  obtain ⟨x, hx, hexit⟩ := Option.bind_eq_some_iff.mp h
  rw [observation?_asset hx] at hexit
  obtain ⟨p, q, hp, hfire, hkeep⟩ := Account.trigger?_eq_some (firstExit?_eq_some hexit)
  exact ⟨x, p, q, hx, hexit, hp, hfire, hkeep⟩

/-- Without an exit no price of an observation crosses a level. -/
theorem firstExit?_of_exit?_eq_none {x : Observation α} (hx : s.observation? e = some x) (h : s.exit? e = none) :
    firstExit? (x.session s).account x.bar.asset x.bar.time x.path = none := by
  rwa [exit?, hx, Option.bind_some] at h

/-- An event without an exit performs nothing that leaves a position fired. -/
theorem operations_fires (h : s.exit? e = none) : ∀ op ∈ s.operations policy e, op.fires = false := by
  intro op hop
  rcases hx : s.observation? e with - | x
  · by_cases he : e.isObservation = true
    · obtain ⟨-, -, hnone | ⟨asset, price, time, -, hmark⟩⟩ := observation?_eq_none policy he hx
      · rw [hnone] at hop
        cases hop
      · rw [hmark] at hop
        rw [List.mem_singleton.mp hop]
        rfl
    · cases e with
      | mark | bar => exact absurd rfl he
      | order | dividend => cases hop
      | _ => rw [List.mem_singleton.mp hop]; rfl
  · rw [(observation?_eq_some policy hx).2.1] at hop
    rcases List.mem_cons.mp hop with rfl | hprices
    · rfl
    · rw [priceOperations, firstExit?_of_exit?_eq_none hx h] at hprices
      dsimp only at hprices
      split at hprices
      · rw [orderOperations] at hprices
        split at hprices
        · cases hprices
        · obtain ⟨d, rfl⟩ := mem_triedFills hprices
          rfl
      · cases hprices

/-- **An event with an exit** is played as that exit. -/
theorem handle_of_exit? (policy : Policy α) (h : s.exit? e = some exit) :
    s.handle policy e = s.playExit policy e.asset exit := by
  obtain ⟨x, -, -, hx, hexit, -⟩ := exit?_eq_some h
  have hfirst : firstExit? (x.session s).account e.asset x.bar.time x.path = some exit := hexit
  obtain ⟨-, -, hplay⟩ := observation?_eq_some policy hx
  rw [hplay, playPrices, observation?_asset hx, hfirst]
  rfl

/-- The account of an exit is the one after the price and the trigger. -/
theorem account_of_exit? (t : Terms α) (h : s.exit? e = some exit) : ∃ price time,
    exit.account = (s.account.perform t (.mark e.asset price time)).perform t
      (.trigger e.asset exit.price (some time)) := by
  obtain ⟨x, -, -, hx, hexit, -⟩ := exit?_eq_some h
  obtain ⟨⟨held, hm⟩, -, -⟩ := observation?_eq_some .usual hx
  rw [observation?_asset hx] at hm
  refine ⟨x.bar.closing, x.bar.time, ?_⟩
  rw [perform_of_mark hm]
  simp [Account.perform, Account.perform?, firstExit?_eq_some hexit]

/-- An exit leaves its position fired, and its fill is one of the asset for all that is held. -/
theorem fired_of_exit? (h : s.exit? e = some exit) : ∃ q, exit.account.get? e.asset = some q ∧ q.HasFired ∧
    q.isFlat = false ∧ exit.intent.asset = q.asset ∧ exit.intent.quantity = -q.amount := by
  obtain ⟨x, p, q, -, -, -, hfire, hkeep⟩ := exit?_eq_some h
  obtain ⟨hflat, -, reason, level, -, hintent, rfl⟩ := Position.trigger?_eq_some hfire
  refine ⟨{ p with levels := .only reason level, trigger := .fired reason }, ?_, ⟨reason, rfl⟩, hflat, ?_, ?_⟩
  · rw [hkeep, Account.get?_keep, if_pos rfl]
  · rw [hintent]
  · rw [hintent]

/-- **An event without an exit leaves no position fired** that was not. -/
theorem noneFired_handle (hs : s.account.NoneFired) (h : s.exit? e = none) :
    (s.handle policy e).1.account.NoneFired := by
  rw [(handle_performs s e).account]
  exact hs.run (operations_fires h)

/-! ## The count of exits -/

theorem exits_of_fill {next : Session α} {f : Fill α} (h : s.fill policy f = .ok next) :
    next.tally.exits = s.tally.exits := by
  obtain ⟨o, account, -, rfl⟩ := fill_eq_ok h
  rfl

theorem fillDue_exits (b : Bar α) {due : List (DueFill α)} :
    ∀ {s : Session α}, (fillDue policy b s due).1.tally.exits = s.tally.exits := by
  induction due with
  | nil => intro s; rfl
  | cons d rest ih =>
    intro s
    rw [fillDue]
    rcases hf : s.fill policy (d.fill policy b) with cause | next
    · rfl
    · have hnext : next.tally.exits = s.tally.exits := exits_of_fill hf
      exact ih.trans hnext

theorem playOrders_exits (b : Bar α) : (s.playOrders policy b).1.tally.exits = s.tally.exits := by
  rw [playOrders]
  rcases decideOrders policy.fillRule b s.orders with ⟨orders, fault | due⟩
  · rfl
  · exact fillDue_exits b

theorem playExit_exits (asset : Asset) : (s.playExit policy asset exit).1.tally.exits = s.tally.exits + 1 := by
  rcases playExit_cases policy s asset exit with ⟨cause, -, hplay⟩ | ⟨closed, hf, hplay⟩ <;> rw [hplay]
  · rfl
  · have hclosed : closed.tally.exits = (s.fire exit).tally.exits := exits_of_fill hf
    exact hclosed

/-- **The tally counts the exits that fire**, one for each event that sets one off. -/
theorem exits_handle (policy : Policy α) (s : Session α) (e : Event α) :
    (s.handle policy e).1.tally.exits = s.tally.exits + (s.exit? e).toList.length := by
  rcases hexit : s.exit? e with - | exit
  · change _ = s.tally.exits
    rcases hx : s.observation? e with - | x
    · by_cases he : e.isObservation = true
      · rw [(observation?_eq_none policy he hx).1]
      · exact (handle_of_not_observation policy s (by simpa using he)).2.1
    · rw [(observation?_eq_some policy hx).2.2, playPrices, firstExit?_of_exit?_eq_none hx hexit]
      dsimp only
      split
      · exact playOrders_exits x.bar
      · rfl
  · rw [handle_of_exit? policy hexit, playExit_exits]
    rfl

/-! ## The price of an exit -/

theorem atFirst_of_laterExit? {account : Account α} {asset : Asset} {time : Instant} {path : List α}
    (h : laterExit? account asset time path = some exit) : exit.atFirst = false := by
  induction path with
  | nil => cases h
  | cons price rest ih =>
    rw [laterExit?] at h
    split at h
    · obtain rfl := Option.some.inj h
      rfl
    · exact ih h

/-- An exit at the first price of a path is one at the price where the path begins. -/
theorem head?_of_firstExit? {account : Account α} {asset : Asset} {time : Instant} {path : List α}
    (h : firstExit? account asset time path = some exit) (hfirst : exit.atFirst = true) :
    path.head? = some exit.price := by
  cases path with
  | nil => cases h
  | cons price rest =>
    rw [firstExit?] at h
    split at h
    · obtain rfl := Option.some.inj h
      rfl
    · rw [atFirst_of_laterExit? h] at hfirst
      cases hfirst

/-- A mark of a position that is held is a price. -/
theorem isNoPrice_of_mark {a b : Account α} {asset : Asset} {price : α} {time : Instant} {held : Bool}
    {p : Position α} (h : a.mark asset price time = .ok (held, b)) (hp : b.get? asset = some p) :
    Quantity.isNoPrice price = false := by
  rw [Account.mark] at h
  rcases hg : a.get? asset with - | r <;> simp only [hg] at h
  · obtain rfl := (Prod.mk.inj (Except.ok.inj h)).2
    rw [hg] at hp
    cases hp
  · obtain ⟨q, hm, -⟩ := map_eq_ok_iff.mp h
    exact (Position.mark_eq_ok hm).1

end Session

/-! ## What an exit does -/

namespace Session

variable {policy : Policy Rat} {s : Session Rat} {e : Event Rat} {exit : FiredExit Rat}

/-- The prices of an observation begin with one that is not below zero. -/
theorem head_nonneg {x : Observation Rat} (hx : s.observation? e = some x) {p : Position Rat}
    (hp : x.account.get? e.asset = some p) {price : Rat} (h : x.path.head? = some price) : 0 ≤ price := by
  cases e with
  | mark asset price' time =>
    obtain ⟨⟨held, hm⟩, heq⟩ := record?_eq_some hx
    rw [heq] at h
    obtain rfl : price' = price := Option.some.inj h
    have hprice : Quantity.isNoPrice price' = false := isNoPrice_of_mark hm hp
    simpa using hprice
  | bar b =>
    rw [observation?] at hx
    split at hx
    · cases hx
    · next hpassed =>
      obtain ⟨-, heq⟩ := record?_eq_some hx
      rw [heq, pathOf, show x.account.get? b.asset = some p from hp] at h
      have hopen : b.opening = price := by
        dsimp only at h
        split at h <;> exact Option.some.inj h
      simp only [Bar.isSane, Bool.or_eq_true, Bool.not_eq_true', not_or, Bool.not_eq_false, Bool.and_eq_true,
        decide_eq_true_eq] at hpassed
      obtain ⟨-, ⟨⟨-, hlow⟩, -⟩, hnonneg⟩ := hpassed
      exact hopen ▸ hnonneg.trans hlow
  | _ => cases hx

/-- **An exit is carried out at a price.** -/
theorem exitPrice_nonneg (h : s.exit? e = some exit) : 0 ≤ exit.exitPrice := by
  obtain ⟨x, p, q, hx, hexit, hp, hfire, -⟩ := exit?_eq_some h
  rw [FiredExit.exitPrice]
  split
  · next hfirst => exact head_nonneg hx hp (head?_of_firstExit? hexit hfirst)
  · obtain ⟨-, -, reason, level, hcross, hintent, -⟩ := Position.trigger?_eq_some hfire
    rw [hintent]
    exact (Position.crossed?_pos hcross).le

/-- An exit that is carried out: the event is accepted, and the fill that brings the amount held to zero is applied and
ends the position, which leaves the book. -/
structure CarriedOut (policy : Policy Rat) (s : Session Rat) (e : Event Rat) (exit : FiredExit Rat) : Prop where
  /-- the event is accepted -/
  accepted : (s.handle policy e).2 = .ok ()
  /-- the fill brings the amount held to zero -/
  quantity_eq : (exit.fill policy).quantity = -s.account.amount e.asset
  /-- it is applied and ends the position -/
  closed : ∃ outcome, exit.account.apply (terms policy) (exit.fill policy) =
    .ok (outcome, (s.handle policy e).1.account) ∧ outcome.kind = .closed
  /-- the position leaves the book -/
  absent : (s.handle policy e).1.account.get? e.asset = none

/-- An exit that is not: the event is refused, since the fill that brings the amount held to zero is below the smallest
quantity, and the position stays as one that has fired. -/
structure LeftFired (policy : Policy Rat) (s : Session Rat) (e : Event Rat) (exit : FiredExit Rat) : Prop where
  /-- the event is refused for the quantity of the fill -/
  refused : (s.handle policy e).2 =
    .error (.position (.fill (.dust (-s.account.amount e.asset) |policy.minimum|)))
  /-- the position stays with the amount it had -/
  stays : ∃ p, (s.handle policy e).1.account.get? e.asset = some p ∧ p.amount = s.account.amount e.asset ∧
    p.HasFired

theorem CarriedOut.not_leftFired (h : CarriedOut policy s e exit) : ¬LeftFired policy s e exit := fun hleft => by
  cases h.accepted.symm.trans hleft.refused

/-- A fill of the whole amount leaves nothing, and ends the position. -/
theorem closed_of_apply {t : Terms Rat} {a b : Account Rat} {f : Fill Rat} {o : Outcome Rat}
    (h : a.apply t f = .ok (o, b)) (hq : f.quantity = -a.amount f.asset) (hne : a.amount f.asset ≠ 0) :
    o.kind = .closed ∧ b.get? f.asset = none := by
  rcases a.held_cases f.asset with hheld | ⟨-, hflat⟩
  · exact Account.ends_of_apply h hheld (by simpa [Position.isFlat, Account.amount] using hne) hq
  · exact absurd (by rw [Account.amount, hflat]; rfl) hne

/-- Neither a price nor a trigger changes the amount that is held. -/
theorem amount_of_exit? (h : s.exit? e = some exit) : exit.account.amount e.asset = s.account.amount e.asset := by
  obtain ⟨price, time, hperform⟩ := account_of_exit? (terms Policy.usual) h
  rw [hperform, Account.amount_perform rfl, Account.amount_perform rfl]
  simp [Account.entry]

theorem sound_of_exit? (hs : s.account.All Position.Sound) (h : s.exit? e = some exit) :
    exit.account.All Position.Sound := by
  obtain ⟨price, time, hperform⟩ := account_of_exit? (terms Policy.usual) h
  rw [hperform]
  exact (hs.perform (Position.stable_sound _) _).perform (Position.stable_sound _) _

/-- **The fill of an exit** is one of the asset of the event, and brings the amount held to zero. -/
theorem fill_of_exit? (policy : Policy Rat) (hs : s.account.All Position.Sound) (h : s.exit? e = some exit) :
    (exit.fill policy).asset = e.asset ∧ (exit.fill policy).quantity = -s.account.amount e.asset ∧
      s.account.amount e.asset ≠ 0 := by
  obtain ⟨q, hq, -, hflat, hasset, hquantity⟩ := fired_of_exit? h
  have hamount : q.amount = s.account.amount e.asset := by
    rw [← amount_of_exit? h, Account.amount, Account.held, hq, Option.getD_some]
  refine ⟨hasset.trans (sound_of_exit? hs h hq).asset_eq, hquantity.trans (by rw [hamount]), ?_⟩
  simpa [Position.isFlat, hamount] using hflat

/-- The fill of an exit is refused for its quantity alone. -/
theorem refused_exit_iff (hs : s.account.All Position.Sound) (h : s.exit? e = some exit) {cause : Rejection Rat} :
    (s.fire exit).fill policy (exit.fill policy) = .error cause ↔
      |s.account.amount e.asset| < |policy.minimum| ∧
        cause = .position (.fill (.dust (-s.account.amount e.asset) |policy.minimum|)) := by
  obtain ⟨-, hquantity, hne⟩ := fill_of_exit? policy hs h
  have hiff : (s.fire exit).fill policy (exit.fill policy) = .error cause ↔
      |(exit.fill policy).quantity| < |policy.minimum| ∧
        cause = .position (.fill (.dust (exit.fill policy).quantity |policy.minimum|)) :=
    fill_eq_error_iff (sound_of_exit? hs h) rfl (hquantity ▸ neg_ne_zero.mpr hne) (exitPrice_nonneg h)
  rwa [hquantity, abs_neg] at hiff

/-- **What becomes of an exit.** It is carried out if the amount held is not below the smallest quantity. If it is, the
exit has fired and is not carried out. -/
theorem exit_cases (policy : Policy Rat) (hs : s.account.All Position.Sound) (h : s.exit? e = some exit) :
    (|policy.minimum| ≤ |s.account.amount e.asset| ∧ CarriedOut policy s e exit) ∨
      (|s.account.amount e.asset| < |policy.minimum| ∧ LeftFired policy s e exit) := by
  obtain ⟨hasset, hquantity, hne⟩ := fill_of_exit? policy hs h
  have hplay : s.handle policy e = s.playExit policy e.asset exit := handle_of_exit? policy h
  rcases playExit_cases policy s e.asset exit with ⟨cause, hf, hend⟩ | ⟨closed, hf, hend⟩ <;> rw [hend] at hplay
  · obtain ⟨hdust, rfl⟩ := (refused_exit_iff hs h).mp hf
    obtain ⟨q, hq, hfired, -, -, hleft⟩ := fired_of_exit? h
    refine .inr ⟨hdust, by rw [hplay], q, by rw [hplay]; exact hq, ?_, hfired⟩
    exact neg_inj.mp (hleft.symm.trans hquantity)
  · obtain ⟨o, account, happly, rfl⟩ := fill_eq_ok hf
    have hafter : (s.handle policy e).1.account = account := by
      rw [hplay]
      rfl
    have hamount : exit.account.amount (exit.fill policy).asset = s.account.amount e.asset := by
      rw [hasset, amount_of_exit? h]
    obtain ⟨hkind, habsent⟩ := closed_of_apply happly (hquantity.trans (congrArg _ hamount.symm)) (hamount ▸ hne)
    refine .inl ⟨?_, by rw [hplay], hquantity, ⟨o, hafter ▸ happly, hkind⟩, by rw [hafter, ← hasset]; exact habsent⟩
    by_contra hdust
    rw [(refused_exit_iff hs h).mpr ⟨not_le.mp hdust, rfl⟩] at hf
    cases hf

end Session

end Holdings
