import Mathlib
import Holdings.Session
import Holdings.Proofs.Account.Operation

/-!
# The course of a session in operations on its account

What a session does to its account is a run of account operations: `operations` lists those of an event, and
`operationsOf` those of a list of events. `handle_performs` and `run_performs` say that the account of a session
is the account of that run, and that the tally counts the fills of its journal with their cash — also for events
that are refused half way through. A price and a bar are one thing here, an `Observation`: `observation?` says what
an event observes, unless it is refused for that.
-/

namespace Holdings

variable {α : Type}

/-- An observed price or bar. -/
def Event.isObservation : Event α → Bool
  | .mark .. => true
  | .bar .. => true
  | _ => false

/-- A split. -/
def Event.isSplit : Event α → Bool
  | .split .. => true
  | _ => false

/-- The observed price or the bar itself is refused. -/
def Rejection.isObservation : Rejection α → Bool
  | .position (.mark _) => true
  | .bar .. => true
  | _ => false

variable [Quantity α]

namespace Session

/-! ## Observations -/

/-- An observed bar that was accepted. -/
structure Observation (α : Type) where
  /-- the account with the closing price recorded -/
  account : Account α
  /-- the prices that are played, in their order -/
  path : List α
  /-- the bar; a price is the bar of that one price -/
  bar : Bar α

/-- The session whose account has the closing price of an observation. -/
def Observation.session (x : Observation α) (s : Session α) : Session α :=
  { s with account := x.account }

/-- Records the closing price of a bar whose path is known. -/
def record? (s : Session α) (b : Bar α) (path : Account α → List α) : Option (Observation α) :=
  match s.account.mark b.asset b.closing b.time with
  | .error _ => none
  | .ok (_, account) => some ⟨account, path account, b⟩

/-- What an event observes, if it observes anything and is not refused for it. -/
def observation? (s : Session α) : Event α → Option (Observation α)
  | .mark asset price time => s.record? (.tick asset time price) fun _ => [price]
  | .bar b => if b.isVoid || !b.isSane then none else s.record? b fun account => pathOf account b
  | _ => none

/-! ## The operations of an event -/

/-- The fills of resting orders that are tried: in turn, up to the first that is refused. -/
def triedFills (policy : Policy α) (b : Bar α) (s : Session α) :
    List (DueFill α) → List (Operation α)
  | [] => []
  | d :: rest =>
    .fill (d.fill policy b) ::
      match s.fill policy (d.fill policy b) with
      | .error _ => []
      | .ok next =>
        triedFills policy b (next.count fun t => { t with ordersFilled := t.ordersFilled + 1 }) rest

/-- The operations of resting orders on a bar. -/
def orderOperations (policy : Policy α) (s : Session α) (b : Bar α) : List (Operation α) :=
  match decideOrders policy.fillRule b s.orders with
  | (_, .error _) => []
  | (orders, .ok due) => triedFills policy b { s with orders := orders.filter Order.isOpen } due

/-- The operations of a path of prices: the exit that fires, or else the resting orders. -/
def priceOperations (policy : Policy α) (s : Session α) (path : List α) (b : Bar α) :
    List (Operation α) :=
  match firstExit? s.account b.asset b.time path with
  | some e => [.trigger b.asset e.price (some b.time), .fill (e.fill policy)]
  | none => if b.isSane then s.orderOperations policy b else []

/-- The operations of an event. -/
def operations (policy : Policy α) (s : Session α) : Event α → List (Operation α)
  | .fill asset quantity price cost time levels =>
    [.fill (recordedFill policy asset quantity price cost time levels)]
  | .mark asset price time =>
    .mark asset price time ::
      match s.account.mark asset price time with
      | .error _ => []
      | .ok (_, account) =>
        { s with account := account }.priceOperations policy [price] (.tick asset time price)
  | .bar b =>
    if b.isVoid || !b.isSane then []
    else .mark b.asset b.closing b.time ::
      match s.account.mark b.asset b.closing b.time with
      | .error _ => []
      | .ok (_, account) =>
        { s with account := account }.priceOperations policy (pathOf account b) b
  | .levels asset levels => [.levels asset levels]
  | .order _ => []
  | .split asset ratio => [.split asset ratio]
  | .dividend .. => []

/-- A session that has counted an event and has not played it yet. -/
def taken (s : Session α) : Session α := s.count fun t => { t with events := t.events + 1 }

/-- The operations of a list of events of which none ends the run. -/
def operationsOf (policy : Policy α) (s : Session α) : List (Event α) → List (Operation α)
  | [] => []
  | e :: rest => s.taken.operations policy e ++ (s.step policy e).1.operationsOf policy rest

/-- The fills that a list of events applies to a session, with the positions they meet. -/
def journal (policy : Policy α) (s : Session α) (events : List (Event α)) : List (Applied α) :=
  s.account.journal (terms policy) (s.operationsOf policy events)

/-! ## Fills and exits of a session -/

/-- An accepted fill is applied to the account and counted with its cash. -/
theorem fill_eq_ok {policy : Policy α} {s next : Session α} {f : Fill α}
    (h : s.fill policy f = .ok next) :
    ∃ o account, s.account.apply (terms policy) f = .ok (o, account) ∧
      next = { s with account := account }.count fun t =>
        { t with fills := t.fills + 1, netCash := t.netCash + f.netCash } := by
  rw [fill] at h
  split at h
  · cases h
  · next o account happly => exact ⟨o, account, happly, (Except.ok.inj h).symm⟩

/-- A refused fill is refused by the account. -/
theorem fill_eq_error {policy : Policy α} {s : Session α} {f : Fill α} {cause : Rejection α}
    (h : s.fill policy f = .error cause) :
    ∃ fault, s.account.apply (terms policy) f = .error fault ∧ cause = .position fault := by
  rw [fill] at h
  split at h
  · next fault happly => exact ⟨fault, happly, (Except.error.inj h).symm⟩
  · cases h

/-- An accepted fill is an operation, with an entry in the journal. -/
theorem perform_of_fill {policy : Policy α} {s next : Session α} {f : Fill α}
    (h : s.fill policy f = .ok next) :
    s.account.perform (terms policy) (.fill f) = next.account ∧
      ∃ outcome, s.account.entry (terms policy) (.fill f) =
        [⟨s.account.held f.asset, f, outcome⟩] := by
  obtain ⟨o, account, happly, rfl⟩ := fill_eq_ok h
  refine ⟨?_, o, by rw [Account.entry, happly]⟩
  simp [Account.perform, Account.perform?, happly, Except.toOption, count]

/-- A refused fill is an operation that leaves the account, without an entry. -/
theorem perform_of_refused {policy : Policy α} {s : Session α} {f : Fill α} {cause : Rejection α}
    (h : s.fill policy f = .error cause) :
    s.account.perform (terms policy) (.fill f) = s.account ∧
      s.account.entry (terms policy) (.fill f) = [] := by
  obtain ⟨fault, happly, -⟩ := fill_eq_error h
  refine ⟨?_, by rw [Account.entry, happly]⟩
  simp [Account.perform, Account.perform?, happly, Except.toOption]

/-- An accepted mark is an operation. -/
theorem perform_of_mark {t : Terms α} {a b : Account α} {asset : Asset} {price : α} {time : Instant}
    {held : Bool} (h : a.mark asset price time = .ok (held, b)) :
    a.perform t (.mark asset price time) = b := by
  simp [Account.perform, Account.perform?, h, Except.toOption]

theorem record?_eq_some {s : Session α} {b : Bar α} {path : Account α → List α} {x : Observation α}
    (h : s.record? b path = some x) :
    (∃ held, s.account.mark b.asset b.closing b.time = .ok (held, x.account)) ∧
      x = ⟨x.account, path x.account, b⟩ := by
  rw [record?] at h
  split at h
  · cases h
  · next held account hm =>
    obtain rfl := Option.some.inj h
    exact ⟨⟨held, hm⟩, rfl⟩

theorem record?_eq_none {s : Session α} {b : Bar α} {path : Account α → List α}
    (h : s.record? b path = none) :
    s.account.mark b.asset b.closing b.time = .error (.mark b.closing) := by
  rw [record?] at h
  split at h
  · next fault hm => rw [hm, Account.mark_eq_error hm]
  · cases h

/-- **An accepted observation** marks the account at the closing price and plays the prices of its path. -/
theorem observation?_eq_some (policy : Policy α) {s : Session α} {e : Event α} {x : Observation α}
    (h : s.observation? e = some x) :
    (∃ held, s.account.mark x.bar.asset x.bar.closing x.bar.time = .ok (held, x.account)) ∧
      s.operations policy e = .mark x.bar.asset x.bar.closing x.bar.time ::
        (x.session s).priceOperations policy x.path x.bar ∧
      s.handle policy e = (x.session s).playPrices policy x.path x.bar := by
  cases e with
  | mark asset price time =>
    obtain ⟨⟨held, hm⟩, hx⟩ := record?_eq_some h
    rw [hx]
    have hm' : s.account.mark asset price time = .ok (held, x.account) := hm
    refine ⟨⟨held, hm⟩, ?_, ?_⟩
    · rw [operations, hm']
      rfl
    · rw [handle, playMark, hm']
      rfl
  | bar b =>
    rw [observation?] at h
    split at h
    · cases h
    · next hsane =>
      obtain ⟨⟨held, hm⟩, hx⟩ := record?_eq_some h
      rw [hx]
      refine ⟨⟨held, hm⟩, ?_, ?_⟩
      · rw [operations, if_neg hsane, hm]
        rfl
      · simp only [Bool.or_eq_true, Bool.not_eq_true', not_or, Bool.not_eq_true, Bool.not_eq_false]
          at hsane
        rw [handle, playBar, hsane.1, hsane.2, hm]
        rfl
  | _ => cases h

theorem isObservation_of_observation? {s : Session α} {e : Event α} {x : Observation α}
    (h : s.observation? e = some x) : e.isObservation = true := by
  cases e with
  | mark => rfl
  | bar => rfl
  | _ => cases h

/-- **A refused observation** leaves the session, and so does a void bar. At most the refused mark is tried. -/
theorem observation?_eq_none (policy : Policy α) {s : Session α} {e : Event α}
    (he : e.isObservation = true) (h : s.observation? e = none) :
    (s.handle policy e).1 = s ∧
      (∀ cause, (s.handle policy e).2 = .error cause → cause.isObservation = true) ∧
      (s.operations policy e = [] ∨ ∃ asset price time,
        s.account.mark asset price time = .error (.mark price) ∧
          s.operations policy e = [.mark asset price time]) := by
  cases e with
  | mark asset price time =>
    have hm : s.account.mark asset price time = .error (.mark price) := record?_eq_none h
    rw [handle, playMark, operations, hm]
    refine ⟨rfl, fun cause hcause => ?_, .inr ⟨asset, price, time, hm, rfl⟩⟩
    obtain rfl := Except.error.inj hcause
    rfl
  | bar b =>
    by_cases hpassed : (b.isVoid || !b.isSane) = true
    · rw [operations, if_pos hpassed, handle, playBar]
      split_ifs with hvoid hsane
      · exact ⟨rfl, fun cause hcause => (by cases hcause), .inl rfl⟩
      · refine ⟨rfl, fun cause hcause => ?_, .inl rfl⟩
        obtain rfl := Except.error.inj hcause
        rfl
      · simp [hvoid, hsane] at hpassed
    · -- the bar itself is in order, so what is refused is the mark
      rw [observation?, if_neg hpassed] at h
      have hm := record?_eq_none h
      simp only [Bool.or_eq_true, Bool.not_eq_true', not_or, Bool.not_eq_true, Bool.not_eq_false]
        at hpassed
      rw [operations, handle, playBar, hpassed.1, hpassed.2, hm]
      refine ⟨rfl, fun cause hcause => ?_, .inr ⟨b.asset, b.closing, b.time, hm, rfl⟩⟩
      obtain rfl := Except.error.inj hcause
      rfl
  | _ => cases he

theorem laterExit?_eq_some {account : Account α} {asset : Asset} {time : Instant} {e : FiredExit α} :
    ∀ {path : List α}, laterExit? account asset time path = some e →
      account.trigger? asset e.price (some time) = some (e.intent, e.account)
  | [], h => by cases h
  | price :: rest, h => by
    rw [laterExit?] at h
    split at h
    · next intent fired hfire =>
      obtain rfl := Option.some.inj h
      exact hfire
    · exact laterExit?_eq_some h

/-- An exit that fires is a trigger of the account. -/
theorem firstExit?_eq_some {account : Account α} {asset : Asset} {time : Instant} {e : FiredExit α}
    {path : List α} (h : firstExit? account asset time path = some e) :
    account.trigger? asset e.price (some time) = some (e.intent, e.account) := by
  cases path with
  | nil => cases h
  | cons price rest =>
    rw [firstExit?] at h
    split at h
    · next intent fired hfire =>
      obtain rfl := Option.some.inj h
      exact hfire
    · exact laterExit?_eq_some h

/-! ## The operations of an event -/

section MemOperations

variable {policy : Policy α} {s : Session α} {op : Operation α}

/-- The bar of an observation is one of the asset of the event. -/
theorem observation?_asset {e : Event α} {x : Observation α} (h : s.observation? e = some x) :
    x.bar.asset = e.asset := by
  cases e with
  | mark asset price time =>
    obtain ⟨-, hx⟩ := record?_eq_some h
    rw [hx]
    rfl
  | bar b =>
    rw [observation?] at h
    split at h
    · cases h
    · obtain ⟨-, hx⟩ := record?_eq_some h
      rw [hx]
      rfl
  | _ => cases h

/-- Resting orders try fills of the asset of the bar. -/
theorem mem_triedFills {b : Bar α} : ∀ {due : List (DueFill α)} {s : Session α},
    op ∈ s.triedFills policy b due → ∃ d : DueFill α, op = .fill (d.fill policy b)
  | [], _, h => by cases h
  | d :: rest, s, h => by
    rw [triedFills] at h
    rcases List.mem_cons.mp h with rfl | hrest
    · exact ⟨d, rfl⟩
    · split at hrest
      · cases hrest
      · exact mem_triedFills hrest

/-- A path of prices trades in the asset of the bar, or carries an exit out. -/
theorem mem_priceOperations {path : List α} {b : Bar α} (h : op ∈ s.priceOperations policy path b) :
    (op.asset? = some b.asset ∧ op.isTrading = true) ∨
      ∃ exit, firstExit? s.account b.asset b.time path = some exit ∧ op = .fill (exit.fill policy) := by
  rw [priceOperations] at h
  split at h
  · next exit hexit =>
    simp only [List.mem_cons, List.not_mem_nil, or_false] at h
    rcases h with rfl | rfl
    · exact .inl ⟨rfl, rfl⟩
    · exact .inr ⟨exit, hexit, rfl⟩
  · split at h
    · rw [orderOperations] at h
      split at h
      · cases h
      · obtain ⟨d, rfl⟩ := mem_triedFills h
        exact .inl ⟨rfl, rfl⟩
    · cases h

/-- **The operations of an event** are on its asset, and all but a split trade in it; or they carry out an exit that
the prices set off. -/
theorem mem_operations {e : Event α} (h : op ∈ s.operations policy e) :
    (op.asset? = some e.asset ∧ op.isTrading = !e.isSplit) ∨
      ∃ x exit, s.observation? e = some x ∧
        firstExit? x.account x.bar.asset x.bar.time x.path = some exit ∧
        op = .fill (exit.fill policy) := by
  rcases hx : s.observation? e with - | x
  · cases e with
    | mark asset price time =>
      have hm : s.account.mark asset price time = .error (.mark price) := record?_eq_none hx
      rw [operations, hm] at h
      rw [List.mem_singleton.mp h]
      exact .inl ⟨rfl, rfl⟩
    | bar b =>
      rw [operations] at h
      split at h
      · cases h
      · next hpassed =>
        rw [observation?, if_neg hpassed] at hx
        rw [record?_eq_none hx] at h
        rw [List.mem_singleton.mp h]
        exact .inl ⟨rfl, rfl⟩
    | order => cases h
    | dividend => cases h
    | _ => rw [List.mem_singleton.mp h]; exact .inl ⟨rfl, rfl⟩
  · have hsplit : e.isSplit = false := by
      cases e with
      | split => cases hx
      | _ => rfl
    have hasset := observation?_asset hx
    rw [(observation?_eq_some policy hx).2.1] at h
    rw [hsplit, ← hasset]
    rcases List.mem_cons.mp h with rfl | hprices
    · exact .inl ⟨rfl, rfl⟩
    · rcases mem_priceOperations hprices with hother | ⟨exit, hexit, rfl⟩
      · exact .inl hother
      · exact .inr ⟨x, exit, rfl, hexit, rfl⟩

end MemOperations

/-! ## A session performs operations -/

/-- A session goes over into another by operations on its account, and counts the fills that were applied with
their cash. -/
structure Performs (policy : Policy α) (s : Session α) (ops : List (Operation α)) (s' : Session α) :
    Prop where
  /-- the account is the one of the run -/
  account : s'.account = s.account.run (terms policy) ops
  /-- each applied fill is counted -/
  fills : s'.tally.fills = s.tally.fills + (s.account.journal (terms policy) ops).length
  /-- and its cash is booked -/
  netCash : s'.tally.netCash =
    (s.account.journal (terms policy) ops).foldl (fun cash x => cash + x.fill.netCash) s.tally.netCash

namespace Performs

variable {policy : Policy α} {s s' s'' : Session α} {ops ops' : List (Operation α)}

/-- A step that touches neither the account nor the count of fills. -/
theorem still (haccount : s'.account = s.account) (hfills : s'.tally.fills = s.tally.fills)
    (hcash : s'.tally.netCash = s.tally.netCash) : Performs policy s [] s' :=
  ⟨haccount, hfills, hcash⟩

theorem refl (policy : Policy α) (s : Session α) : Performs policy s [] s := still rfl rfl rfl

theorem trans (h : Performs policy s ops s') (h' : Performs policy s' ops' s'') :
    Performs policy s (ops ++ ops') s'' where
  account := by rw [h'.account, h.account, Account.run_append]
  fills := by
    rw [h'.fills, h.fills, h.account, Account.journal_append, List.length_append]
    omega
  netCash := by
    rw [h'.netCash, h.netCash, h.account, Account.journal_append, List.foldl_append]

/-- An accepted operation that is no fill. -/
theorem of_perform {op : Operation α} (hentry : s.account.entry (terms policy) op = [])
    (haccount : s'.account = s.account.perform (terms policy) op)
    (hfills : s'.tally.fills = s.tally.fills) (hcash : s'.tally.netCash = s.tally.netCash) :
    Performs policy s [op] s' where
  account := haccount
  fills := by rw [hfills, Account.journal, hentry]; rfl
  netCash := by rw [hcash, Account.journal, hentry]; rfl

theorem fill_ok {f : Fill α} (h : s.fill policy f = .ok s') :
    Performs policy s [.fill f] s' := by
  obtain ⟨hperform, outcome, hentry⟩ := perform_of_fill h
  obtain ⟨o, account, -, rfl⟩ := fill_eq_ok h
  exact
    { account := hperform.symm
      fills := by simp [Account.journal, hentry, count]
      netCash := by simp [Account.journal, hentry, count] }

theorem fill_error {f : Fill α} {cause : Rejection α} (h : s.fill policy f = .error cause) :
    Performs policy s [.fill f] s := by
  obtain ⟨hperform, hentry⟩ := perform_of_refused h
  exact of_perform hentry hperform.symm rfl rfl

end Performs

variable {policy : Policy α}

/-- The fills of resting orders are operations. -/
theorem fillDue_performs (b : Bar α) : ∀ (due : List (DueFill α)) (s : Session α),
    Performs policy s (s.triedFills policy b due) (fillDue policy b s due).1
  | [], s => .refl policy s
  | d :: rest, s => by
    rw [triedFills, fillDue]
    rcases hf : s.fill policy (d.fill policy b) with cause | next
    · exact .fill_error hf
    · have hcounted : Performs policy next []
          (next.count fun t => { t with ordersFilled := t.ordersFilled + 1 }) := .still rfl rfl rfl
      exact (Performs.fill_ok hf).trans (hcounted.trans (fillDue_performs b rest _))

theorem playOrders_performs (s : Session α) (b : Bar α) :
    Performs policy s (s.orderOperations policy b) (s.playOrders policy b).1 := by
  rw [orderOperations, playOrders]
  rcases decideOrders policy.fillRule b s.orders with ⟨orders, fault | due⟩
  · exact .still rfl rfl rfl
  · have hkept : Performs policy s [] { s with orders := orders.filter Order.isOpen } :=
      .still rfl rfl rfl
    exact hkept.trans (fillDue_performs b due _)

theorem playExit_performs {s : Session α} {asset : Asset} {e : FiredExit α} {time : Option Instant}
    (h : s.account.trigger? asset e.price time = some (e.intent, e.account)) :
    Performs policy s [.trigger asset e.price time, .fill (e.fill policy)]
      (s.playExit policy asset e).1 := by
  have hfired : Performs policy s [.trigger asset e.price time]
      ({ s with account := e.account }.count fun t => { t with exits := t.exits + 1 }) := by
    refine .of_perform rfl ?_ rfl rfl
    simp [Account.perform, Account.perform?, h, count]
  rw [playExit]
  split
  · next cause hf => exact hfired.trans (.fill_error hf)
  · next closed hf =>
    have hcancelled : Performs policy closed [] (closed.cancelOrders asset) := .still rfl rfl rfl
    exact hfired.trans ((Performs.fill_ok hf).trans hcancelled)

theorem playPrices_performs (s : Session α) (path : List α) (b : Bar α) :
    Performs policy s (s.priceOperations policy path b) (s.playPrices policy path b).1 := by
  rw [priceOperations, playPrices]
  rcases hexit : firstExit? s.account b.asset b.time path with - | e
  · dsimp only
    split
    · exact playOrders_performs s b
    · exact .refl policy s
  · exact playExit_performs (firstExit?_eq_some hexit)

/-- An accepted mark is an operation. -/
theorem Performs.mark {s : Session α} {asset : Asset} {price : α} {time : Instant} {held : Bool}
    {account : Account α} (h : s.account.mark asset price time = .ok (held, account)) :
    Performs policy s [.mark asset price time] { s with account := account } :=
  .of_perform rfl (perform_of_mark h).symm rfl rfl

/-- A refused operation leaves the session. -/
theorem Performs.refused {s : Session α} {op : Operation α}
    (hentry : s.account.entry (terms policy) op = [])
    (h : s.account.perform? (terms policy) op = none) : Performs policy s [op] s :=
  .of_perform hentry (by rw [Account.perform, h]; rfl) rfl rfl

/-- A refused observation performs at most its mark, which leaves the account. -/
theorem refused_performs {s : Session α} {e : Event α} (he : e.isObservation = true)
    (h : s.observation? e = none) :
    Performs policy s (s.operations policy e) (s.handle policy e).1 := by
  obtain ⟨hsame, -, hoperations⟩ := observation?_eq_none policy he h
  rw [hsame]
  rcases hoperations with hnone | ⟨asset, price, time, hm, hmark⟩
  · rw [hnone]
    exact .refl policy s
  · rw [hmark]
    exact .refused rfl (by simp [Account.perform?, hm, Except.toOption])

/-- **An event is a run of operations** on the account, whether it is refused or not. -/
theorem handle_performs (s : Session α) (e : Event α) :
    Performs policy s (s.operations policy e) (s.handle policy e).1 := by
  rcases hx : s.observation? e with - | x
  · cases e with
    | mark asset price time => exact refused_performs rfl hx
    | bar b => exact refused_performs rfl hx
    | fill asset quantity price cost time levels =>
      rw [operations, handle]
      split
      · next cause hf => exact .fill_error hf
      · next next hf => exact .fill_ok hf
    | levels asset l =>
      rw [operations, handle]
      split
      · next fault hl => exact .refused rfl (by simp [Account.perform?, hl, Except.toOption])
      · next account hl =>
        exact .of_perform rfl (by simp [Account.perform, Account.perform?, hl, Except.toOption]) rfl rfl
    | order o =>
      rw [operations, handle]
      split <;> exact .still rfl rfl rfl
    | split asset ratio =>
      rw [operations, handle]
      split
      · next fault hs => exact .refused rfl (by simp [Account.perform?, hs, Except.toOption])
      · next cash account hs =>
        exact .of_perform rfl
          (by simp [Account.perform, Account.perform?, hs, Except.toOption, count]) rfl rfl
    | dividend asset perShare =>
      rw [operations, handle, playDividend]
      split
      · exact .refl policy s
      · split <;> exact .still rfl rfl rfl
  · obtain ⟨⟨held, hm⟩, hoperations, hplay⟩ := observation?_eq_some policy hx
    rw [hoperations, hplay]
    exact (Performs.mark hm).trans (playPrices_performs _ _ _)

/-- A step is the event played on the session that has counted it; a refusal is counted after it. -/
theorem step_cases (policy : Policy α) (s : Session α) (e : Event α) :
    ((s.taken.handle policy e).2 = .ok () ∧ s.step policy e = s.taken.handle policy e) ∨
    ∃ cause, (s.taken.handle policy e).2 = .error cause ∧
      s.step policy e = ((s.taken.handle policy e).1.count fun t =>
        { t with rejected := t.rejected + 1 }, .error cause) := by
  rw [step]
  rcases hplay : s.taken.handle policy e with ⟨next, cause | ⟨⟩⟩
  · have hplay' : (s.count fun t => { t with events := t.events + 1 }).handle policy e =
        (next, .error cause) := hplay
    exact .inr ⟨cause, rfl, by rw [hplay']⟩
  · have hplay' : (s.count fun t => { t with events := t.events + 1 }).handle policy e =
        (next, .ok ()) := hplay
    exact .inl ⟨rfl, by rw [hplay']⟩

/-- A run that passes over refused events plays one event after another. -/
theorem runFrom_eq_foldl : ∀ (events : List (Event α)) (index : Nat) (s : Session α),
    (s.runFrom policy false index events).1 = events.foldl (fun s e => (s.step policy e).1) s
  | [], _, _ => rfl
  | e :: rest, index, s => by
    rw [runFrom, List.foldl_cons]
    rcases s.step policy e with ⟨next, cause | ⟨⟩⟩ <;> exact runFrom_eq_foldl rest (index + 1) next

theorem run_concat (s : Session α) (events : List (Event α)) (e : Event α) :
    (s.run policy false (events ++ [e])).1 = ((s.run policy false events).1.step policy e).1 := by
  simp only [run, runFrom_eq_foldl, List.foldl_append, List.foldl_cons, List.foldl_nil]

theorem step_performs (s : Session α) (e : Event α) :
    Performs policy s (s.taken.operations policy e) (s.step policy e).1 := by
  have htaken : Performs policy s [] s.taken := .still rfl rfl rfl
  have hhandled := htaken.trans (handle_performs s.taken e)
  rcases step_cases policy s e with ⟨-, hs⟩ | ⟨cause, -, hs⟩ <;> rw [hs]
  · exact hhandled
  · have hrejected : Performs policy (s.taken.handle policy e).1 []
        ((s.taken.handle policy e).1.count fun t => { t with rejected := t.rejected + 1 }) :=
      .still rfl rfl rfl
    have hall := hhandled.trans hrejected
    rwa [List.append_nil] at hall

/-- A step keeps what every operation on the account keeps. -/
theorem all_step {P : Asset → Position α → Prop} (hP : Account.Stable (terms policy) P) {s : Session α}
    (hs : s.account.All P) (e : Event α) : (s.step policy e).1.account.All P :=
  (step_performs s e).account ▸ Account.All.run hP _ hs

/-- **A run is a run of operations** on the account, over accepted and refused events alike. -/
theorem runFrom_performs : ∀ (events : List (Event α)) (index : Nat) (s : Session α),
    Performs policy s (s.operationsOf policy events) (s.runFrom policy false index events).1
  | [], _, s => .refl policy s
  | e :: rest, index, s => by
    have hstep : Performs policy s _ (s.step policy e).1 := step_performs s e
    rw [operationsOf, runFrom]
    -- a refused event is passed over, and what it performed stays
    rcases hs : s.step policy e with ⟨next, cause | ⟨⟩⟩ <;> rw [hs] at hstep
    · exact hstep.trans (runFrom_performs rest (index + 1) next)
    · exact hstep.trans (runFrom_performs rest (index + 1) next)

theorem run_performs (s : Session α) (events : List (Event α)) :
    Performs policy s (s.operationsOf policy events) (s.run policy false events).1 :=
  runFrom_performs events 0 s

end Session

end Holdings
