import Mathlib
import Holdings.Proofs.Session.Orders

/-!
# An order put to one bar after another

`Order.decideAll` decides an order on a list of bars, and the status that it has reached goes from one bar to the next.
What comes of it can be said without any status, by the places of bars in the list:

* `Bar.IsFirst` — the bar at a place is the first one, from some place on, of which something holds. Void bars do not
  count;
* `Order.FillsAt` — a stop fills at the first bar that reaches it, and so does a limit. A stop-limit fills at the first
  bar that reaches the limit, looked for from the bar on that reached its stop, or from the next one on;
* `Order.decideAll_means` — an order that waits is decided just so, bar by bar.
-/

namespace Holdings

variable {α : Type} [Quantity α]

/-! ## What a list of bars means for an order -/

namespace Bar

/-- The prices of a bar reach a stop: a seller's from above, a buyer's from below. -/
def AtStop (side : Side) (stop : α) (b : Bar α) : Prop :=
  match side with
  | .sell => b.low ≤ stop
  | .buy => stop ≤ b.high

/-- The prices of a bar reach a limit: a seller's from below, a buyer's from above. -/
def AtLimit (side : Side) (limit : α) (b : Bar α) : Prop :=
  match side with
  | .sell => limit ≤ b.high
  | .buy => b.low ≤ limit

/-- A bar counts and something holds of it. -/
def Hits (P : Bar α → Prop) (b : Bar α) : Prop := b.isVoid = false ∧ P b

/-- The bar at a place is the first one, from the place `start` on, that counts and of which something holds. -/
structure IsFirst (P : Bar α → Prop) (start : Nat) (bars : List (Bar α)) (n : Nat) (b : Bar α) :
    Prop where
  /-- it is the bar at the place -/
  here : bars[n]? = some b
  /-- it does not lie before the start -/
  start_le : start ≤ n
  /-- it counts, and the thing holds of it -/
  hits : b.Hits P
  /-- of no bar between the start and it the thing holds -/
  none_before : ∀ m b', start ≤ m → m < n → bars[m]? = some b' → ¬b'.Hits P

end Bar

omit [Quantity α] in
/-- The first place at which a limit may fill whose stop was reached at a place. -/
def Activation.earliest : Activation → Nat → Nat
  | .nextBar, i => i + 1
  | .sameBar, i => i

namespace Order

/-- The fill of a stop on a bar that reaches it. -/
def stopFill (rule : FillRule) (o : Order α) (stop : α) (b : Bar α) : Execution α where
  price := if b.gaps o.side stop then rule.gap.price b.opening stop o.side else stop
  quantity := o.quantity
  gapped := b.gaps o.side stop

omit [Quantity α] in
/-- The fill of a limit. -/
def limitFill (o : Order α) (limit : α) : Execution α := ⟨limit, o.quantity, false⟩

/-- An order fills at a place of a list of bars. -/
def FillsAt (rule : FillRule) (o : Order α) (bars : List (Bar α)) (n : Nat) (x : Execution α) :
    Prop :=
  match o.kind with
  | .stop stop => ∃ b, Bar.IsFirst (Bar.AtStop o.side stop) 0 bars n b ∧ x = o.stopFill rule stop b
  | .limit limit =>
    ∃ b, Bar.IsFirst (Bar.AtLimit o.side limit) 0 bars n b ∧ x = o.limitFill limit
  | .stopLimit stop limit => ∃ i b' b, Bar.IsFirst (Bar.AtStop o.side stop) 0 bars i b' ∧
      Bar.IsFirst (Bar.AtLimit o.side limit) (rule.activation.earliest i) bars n b ∧
      x = o.limitFill limit

/-- The stop of a stop-limit is reached at a place of a list of bars, and not before. -/
def StopsAt (o : Order α) (bars : List (Bar α)) (n : Nat) : Prop :=
  ∃ stop limit b, o.kind = .stopLimit stop limit ∧
    Bar.IsFirst (Bar.AtStop o.side stop) 0 bars n b

/-- What a list of bars means for an order at a place: it fills there, or its stop is reached and it does not fill, or
neither. -/
def Means (rule : FillRule) (o : Order α) (bars : List (Bar α)) (n : Nat) : Decision α → Prop
  | .filled x => o.FillsAt rule bars n x
  | .stopTriggered => o.StopsAt bars n ∧ ∀ x, ¬o.FillsAt rule bars n x
  | .noFill => ¬o.StopsAt bars n ∧ ∀ x, ¬o.FillsAt rule bars n x

/-- Decides an order on one bar after another. -/
def decideAll (rule : FillRule) : Order α → List (Bar α) →
    Except (OrderFault α) (List (Decision α))
  | _, [] => .ok []
  | o, b :: rest => do
    let (decision, next) ← o.decide rule b
    let decisions ← next.decideAll rule rest
    return decision :: decisions

end Order

/-! ## First bars -/

namespace Bar

variable {P : Bar α → Prop} {b c : Bar α} {rest bars : List (Bar α)} {start n : Nat}

@[simp] theorem isFirst_zero_zero : IsFirst P 0 (b :: rest) 0 c ↔ b = c ∧ b.Hits P := by
  constructor
  · intro h
    obtain rfl := Option.some.inj h.here
    exact ⟨rfl, h.hits⟩
  · rintro ⟨rfl, hhits⟩
    exact ⟨rfl, le_rfl, hhits, fun m b' _ hm => absurd hm (Nat.not_lt_zero m)⟩

@[simp] theorem isFirst_zero_succ :
    IsFirst P 0 (b :: rest) (n + 1) c ↔ ¬b.Hits P ∧ IsFirst P 0 rest n c := by
  constructor
  · intro h
    refine ⟨h.none_before 0 b le_rfl (Nat.succ_pos n) rfl, h.here, Nat.zero_le n, h.hits, ?_⟩
    intro m b' _ hm hb'
    exact h.none_before (m + 1) b' (Nat.zero_le _) (Nat.succ_lt_succ hm) hb'
  · rintro ⟨hnot, h⟩
    refine ⟨h.here, Nat.zero_le _, h.hits, fun m b' _ hm hb' => ?_⟩
    cases m with
    | zero => exact Option.some.inj hb' ▸ hnot
    | succ m => exact h.none_before m b' (Nat.zero_le m) (Nat.lt_of_succ_lt_succ hm) hb'

@[simp] theorem not_isFirst_succ_zero : ¬IsFirst P (start + 1) bars 0 c :=
  fun h => absurd h.start_le (Nat.not_succ_le_zero start)

@[simp] theorem isFirst_succ_succ :
    IsFirst P (start + 1) (b :: rest) (n + 1) c ↔ IsFirst P start rest n c := by
  constructor
  · intro h
    refine ⟨h.here, Nat.le_of_succ_le_succ h.start_le, h.hits, fun m b' hle hm hb' => ?_⟩
    exact h.none_before (m + 1) b' (Nat.succ_le_succ hle) (Nat.succ_lt_succ hm) hb'
  · intro h
    refine ⟨h.here, Nat.succ_le_succ h.start_le, h.hits, fun m b' hle hm hb' => ?_⟩
    cases m with
    | zero => exact absurd hle (Nat.not_succ_le_zero start)
    | succ m =>
      exact h.none_before m b' (Nat.le_of_succ_le_succ hle) (Nat.lt_of_succ_lt_succ hm) hb'

/-- If something holds of a bar that counts, no other bar of the list is the first. -/
theorem isFirst_cons_of_hits (hhits : b.Hits P) :
    IsFirst P 0 (b :: rest) n c ↔ n = 0 ∧ b = c := by
  cases n <;> simp [hhits]

/-- Where a bar counts and something holds of it, there is a first such bar, and it comes no later. -/
theorem exists_isFirst_le (hb : bars[n]? = some b) (hstart : start ≤ n) (hhits : b.Hits P) :
    ∃ m ≤ n, ∃ c, IsFirst P start bars m c := by
  classical
  have hex : ∃ m, start ≤ m ∧ ∃ c, bars[m]? = some c ∧ c.Hits P := ⟨n, hstart, b, hb, hhits⟩
  obtain ⟨hle, c, hc, hchits⟩ := Nat.find_spec hex
  refine ⟨Nat.find hex, Nat.find_min' hex ⟨hstart, b, hb, hhits⟩, c, hc, hle, hchits, ?_⟩
  exact fun m b' hm hlt hb' hhits' => Nat.find_min hex hlt ⟨hm, b', hb', hhits'⟩

end Bar

/-! ## Decisions on a list of bars -/

namespace Order

variable {rule : FillRule} {o : Order α} {bars : List (Bar α)} {n : Nat} {d : Decision α}

/-- What a list of bars decides of an order without flaw. -/
def decisions (rule : FillRule) : Order α → List (Bar α) → List (Decision α)
  | _, [] => []
  | o, b :: rest => o.decisionOn rule b :: (o.advance rule b).decisions rule rest

/-- An order without flaw is decided on every bar of its asset. -/
theorem decideAll_eq (bars : List (Bar α)) : ∀ {o : Order α}, o.check = .ok () →
    (∀ b ∈ bars, b.asset = o.asset) → o.decideAll rule bars = .ok (o.decisions rule bars) := by
  induction bars with
  | nil => intro o _ _; rfl
  | cons b rest ih =>
    intro o hcheck hasset
    obtain ⟨hb, hrest⟩ := List.forall_mem_cons.mp hasset
    have hnext : (o.advance rule b).check = .ok () := by
      rw [← check_ticket, ticket_advance, check_ticket, hcheck]
    have hassets : ∀ b' ∈ rest, b'.asset = (o.advance rule b).asset := fun b' hb' =>
      (hrest b' hb').trans (asset_advance rule b o).symm
    rw [decideAll, decide_eq hcheck hb.symm]
    simp only [bind, Except.bind, ih hnext hassets]
    rfl

theorem length_decisions (bars : List (Bar α)) :
    ∀ o : Order α, (o.decisions rule bars).length = bars.length := by
  induction bars with
  | nil => intro o; rfl
  | cons b rest ih =>
    intro o
    rw [decisions, List.length_cons, ih, List.length_cons]

/-- An order that does not wait any more is passed over. -/
theorem decisions_of_not_open (hclosed : o.isOpen = false) (bars : List (Bar α)) :
    o.decisions rule bars = List.replicate bars.length .noFill := by
  induction bars with
  | nil => rfl
  | cons b rest ih =>
    rw [decisions, decisionOn_eq_noFill fun _ => hclosed, advance_eq_self fun _ => hclosed, ih,
      List.length_cons, List.replicate_succ]

/-- What a list of bars means for an order that fills at the first bar that hits. -/
def MeansOnce (P : Bar α → Prop) (fill : Bar α → Execution α) (bars : List (Bar α)) (n : Nat) :
    Decision α → Prop
  | .filled x => ∃ b, Bar.IsFirst P 0 bars n b ∧ x = fill b
  | .stopTriggered => False
  | .noFill => ∀ b, ¬Bar.IsFirst P 0 bars n b

omit [Quantity α] in
theorem forall_not_fill_iff {R : Bar α → Prop} {fill : Bar α → Execution α} :
    (∀ x, ¬∃ b, R b ∧ x = fill b) ↔ ∀ b, ¬R b :=
  ⟨fun h b hb => h _ ⟨b, hb, rfl⟩, fun h _ ⟨b, hb, _⟩ => h b hb⟩

/-- Where no stop is waited for, a list of bars means no more than that, be it from a later bar on. -/
theorem means_iff_meansOnce {P : Bar α → Prop} {fill : Bar α → Execution α} {later : List (Bar α)}
    {m : Nat} (hstops : ¬o.StopsAt bars n)
    (hfills : ∀ x, o.FillsAt rule bars n x ↔ ∃ b, Bar.IsFirst P 0 later m b ∧ x = fill b) :
    o.Means rule bars n d ↔ MeansOnce P fill later m d := by
  cases d with
  | filled x => exact hfills x
  | stopTriggered => simp [Means, MeansOnce, hstops]
  | noFill => simp only [Means, MeansOnce, hstops, hfills, forall_not_fill_iff, not_false_eq_true, true_and]

/-- **An order that fills at any bar that hits** fills at the first one. -/
theorem decisions_once {P : Bar α → Prop} {fill : Bar α → Execution α} (bars : List (Bar α))
    (hdecision : ∀ b ∈ bars,
      b.Hits P ∧ o.decisionOn rule b = .filled (fill b) ∨
        ¬b.Hits P ∧ o.decisionOn rule b = .noFill) :
    ∀ {n : Nat} {d : Decision α},
      (o.decisions rule bars)[n]? = some d ↔ n < bars.length ∧ MeansOnce P fill bars n d := by
  induction bars with
  | nil => intro n d; simp [decisions]
  | cons b rest ih =>
    obtain ⟨hb, hrest⟩ := List.forall_mem_cons.mp hdecision
    intro n d
    rcases hb with ⟨hhits, hfilled⟩ | ⟨hnot, hnone⟩
    · -- it fills here, and is passed over from here on
      have hdone : (o.advance rule b).isOpen = false := by
        rw [advance, hfilled]
        rfl
      rw [decisions, hfilled, decisions_of_not_open hdone]
      cases n with
      | zero => cases d <;> simp [MeansOnce, hhits, eq_comm]
      | succ n => cases d <;> simp [MeansOnce, hhits, List.getElem?_replicate]
    · have hsame : o.advance rule b = o := by
        rw [advance, hnone]
        rfl
      rw [decisions, hnone, hsame]
      cases n with
      | zero => cases d <;> simp [MeansOnce, hnot]
      | succ n =>
        rw [List.getElem?_cons_succ, ih hrest]
        cases d <;> simp [MeansOnce, hnot]

/-! ## Decisions on one bar -/

/-- On a bar of its asset an order that waits is decided, unless the bar is void. -/
theorem decisionOn_eq {b : Bar α} (hopen : o.isOpen = true) (hasset : b.asset = o.asset) :
    o.decisionOn rule b = if b.isVoid then .noFill else o.decideOpen rule b := by
  rw [decisionOn, hopen, hasset]
  cases b.isVoid <;> simp

/-- An order that fills where a test says so, and does nothing where it does not. -/
theorem hits_or_not {P : Bar α → Prop} {test : Bool} {x : Execution α} {b : Bar α}
    (hopen : o.isOpen = true) (hasset : b.asset = o.asset) (htest : test = true ↔ P b)
    (hdecide : o.decideOpen rule b = if test then .filled x else .noFill) :
    b.Hits P ∧ o.decisionOn rule b = .filled x ∨ ¬b.Hits P ∧ o.decisionOn rule b = .noFill := by
  rw [decisionOn_eq hopen hasset, hdecide, Bar.Hits, ← htest]
  cases b.isVoid <;> cases test <;> simp

theorem reachesStop_iff {side : Side} {stop : α} {b : Bar α} :
    b.reachesStop side stop = true ↔ b.AtStop side stop := by
  cases side <;> exact decide_eq_true_iff

theorem reachesLimit_iff {side : Side} {limit : α} {b : Bar α} :
    b.reachesLimit side limit = true ↔ b.AtLimit side limit := by
  cases side <;> exact decide_eq_true_iff

theorem decideStop_eq (stop : α) (b : Bar α) : o.decideStop rule stop b =
    if b.reachesStop o.side stop then .filled (o.stopFill rule stop b) else .noFill := by
  rw [decideStop, stopFill]
  cases b.gaps o.side stop <;> rfl

/-- A stop fills at the first bar that reaches it. -/
theorem decisions_stop {stop : α} (hkind : o.kind = .stop stop) (hopen : o.isOpen = true)
    (hasset : ∀ b ∈ bars, b.asset = o.asset) : (o.decisions rule bars)[n]? = some d ↔
      n < bars.length ∧ MeansOnce (Bar.AtStop o.side stop) (o.stopFill rule stop) bars n d := by
  refine decisions_once bars fun b hb => hits_or_not hopen (hasset b hb) reachesStop_iff ?_
  rw [decideOpen, hkind]
  exact decideStop_eq stop b

/-- An order that waits for a limit alone. -/
def AwaitsLimit (o : Order α) (limit : α) : Prop :=
  o.kind = .limit limit ∧ o.isOpen = true ∨ ∃ stop, o.kind = .stopLimit stop limit ∧ o.status = .triggered

/-- A limit fills at the first bar that reaches it. -/
theorem decisions_limit {limit : α} (hawaits : o.AwaitsLimit limit)
    (hasset : ∀ b ∈ bars, b.asset = o.asset) : (o.decisions rule bars)[n]? = some d ↔
      n < bars.length ∧
        MeansOnce (Bar.AtLimit o.side limit) (fun _ => o.limitFill limit) bars n d := by
  refine decisions_once bars fun b hb => ?_
  rcases hawaits with ⟨hkind, hopen⟩ | ⟨stop, hkind, hstatus⟩
  · refine hits_or_not hopen (hasset b hb) reachesLimit_iff ?_
    rw [decideOpen, hkind]
    rfl
  · have hopen : o.isOpen = true := by rw [isOpen, hstatus]; rfl
    refine hits_or_not hopen (hasset b hb) reachesLimit_iff ?_
    rw [decideOpen, hkind, hstatus]
    rfl

/-! ## Stop-limits -/

section StopLimit

variable {stop limit : α} {b : Bar α}

variable (rule) in
/-- A stop-limit on a bar that does not reach its stop. -/
theorem decisionOn_stopLimit_of_not (hkind : o.kind = .stopLimit stop limit)
    (hactive : o.status = .active) (hasset : b.asset = o.asset)
    (hnot : ¬b.Hits (Bar.AtStop o.side stop)) : o.decisionOn rule b = .noFill := by
  have hopen : o.isOpen = true := by rw [isOpen, hactive]; rfl
  rw [decisionOn_eq hopen hasset, decideOpen, hkind, hactive]
  rw [Bar.Hits, ← reachesStop_iff] at hnot
  cases hvoid : b.isVoid
  · simp [hvoid] at hnot
    simp [hnot]
  · rfl

variable (rule) in
/-- A stop-limit on a bar that reaches its stop: it fills if it may fill on this bar and the bar reaches the limit too,
and waits for the limit otherwise. -/
theorem decisionOn_stopLimit (hkind : o.kind = .stopLimit stop limit)
    (hactive : o.status = .active) (hasset : b.asset = o.asset)
    (hhits : b.Hits (Bar.AtStop o.side stop)) :
    (rule.activation = .sameBar ∧ b.Hits (Bar.AtLimit o.side limit) ∧
      o.decisionOn rule b = .filled (o.limitFill limit)) ∨
    ((rule.activation = .sameBar → ¬b.Hits (Bar.AtLimit o.side limit)) ∧
      o.decisionOn rule b = .stopTriggered) := by
  have hopen : o.isOpen = true := by rw [isOpen, hactive]; rfl
  obtain ⟨hvoid, hstop⟩ := hhits
  have hstop : b.reachesStop o.side stop = true := reachesStop_iff.mpr hstop
  rw [decisionOn_eq hopen hasset, hvoid, decideOpen, hkind, hactive, Bar.Hits, hvoid, ← reachesLimit_iff]
  simp only [hstop, decideLimit, limitFill]
  cases rule.activation <;> cases b.reachesLimit o.side limit <;> simp

variable {rest : List (Bar α)} {x : Execution α}

theorem fillsAt_stopLimit_iff (hkind : o.kind = .stopLimit stop limit) :
    o.FillsAt rule bars n x ↔ ∃ i b' b, Bar.IsFirst (Bar.AtStop o.side stop) 0 bars i b' ∧
      Bar.IsFirst (Bar.AtLimit o.side limit) (rule.activation.earliest i) bars n b ∧
      x = o.limitFill limit := by
  rw [FillsAt, hkind]

theorem stopsAt_stopLimit_iff (hkind : o.kind = .stopLimit stop limit) :
    o.StopsAt bars n ↔ ∃ b, Bar.IsFirst (Bar.AtStop o.side stop) 0 bars n b := by
  simp only [StopsAt, hkind, OrderKind.stopLimit.injEq]
  constructor
  · rintro ⟨stop', limit', b, ⟨rfl, rfl⟩, hfirst⟩
    exact ⟨b, hfirst⟩
  · rintro ⟨b, hfirst⟩
    exact ⟨stop, limit, b, ⟨rfl, rfl⟩, hfirst⟩

/-- Where the first bar reaches the stop, the limit is all that is waited for. -/
theorem fillsAt_of_hits (hkind : o.kind = .stopLimit stop limit)
    (hhits : b.Hits (Bar.AtStop o.side stop)) : o.FillsAt rule (b :: rest) n x ↔
      ∃ c, Bar.IsFirst (Bar.AtLimit o.side limit) (rule.activation.earliest 0) (b :: rest) n c ∧
        x = o.limitFill limit := by
  simp [fillsAt_stopLimit_iff hkind, Bar.isFirst_cons_of_hits hhits]

theorem stopsAt_of_hits (hkind : o.kind = .stopLimit stop limit)
    (hhits : b.Hits (Bar.AtStop o.side stop)) : o.StopsAt (b :: rest) n ↔ n = 0 := by
  simp [stopsAt_stopLimit_iff hkind, Bar.isFirst_cons_of_hits hhits]

/-- A first bar that does not reach the stop means nothing, and the places of the others move by one. -/
theorem means_cons_of_not (hkind : o.kind = .stopLimit stop limit)
    (hnot : ¬b.Hits (Bar.AtStop o.side stop)) :
    (o.Means rule (b :: rest) 0 d ↔ d = .noFill) ∧
      (o.Means rule (b :: rest) (n + 1) d ↔ o.Means rule rest n d) := by
  have hearliest : ∀ i, rule.activation.earliest (i + 1) = rule.activation.earliest i + 1 := by
    intro i
    cases rule.activation <;> rfl
  have hstops_zero : ¬o.StopsAt (b :: rest) 0 := by
    simp [stopsAt_stopLimit_iff hkind, hnot]
  have hstops_succ : o.StopsAt (b :: rest) (n + 1) ↔ o.StopsAt rest n := by
    simp [stopsAt_stopLimit_iff hkind, hnot]
  -- the stop is reached at a place behind the first bar, and the limit no earlier
  have hfills_zero : ∀ x, ¬o.FillsAt rule (b :: rest) 0 x := by
    intro x hfills
    obtain ⟨i, b', c, hstop, hlimit, -⟩ := (fillsAt_stopLimit_iff hkind).mp hfills
    cases i with
    | zero => exact hnot (Bar.isFirst_zero_zero.mp hstop).2
    | succ i => exact Bar.not_isFirst_succ_zero (hearliest i ▸ hlimit)
  have hfills_succ : ∀ x, o.FillsAt rule (b :: rest) (n + 1) x ↔ o.FillsAt rule rest n x := by
    intro x
    rw [fillsAt_stopLimit_iff hkind, fillsAt_stopLimit_iff hkind]
    constructor
    · rintro ⟨i, b', c, hstop, hlimit, hx⟩
      cases i with
      | zero => exact absurd (Bar.isFirst_zero_zero.mp hstop).2 hnot
      | succ i =>
        rw [hearliest] at hlimit
        exact ⟨i, b', c, (Bar.isFirst_zero_succ.mp hstop).2, Bar.isFirst_succ_succ.mp hlimit, hx⟩
    · rintro ⟨i, b', c, hstop, hlimit, hx⟩
      refine ⟨i + 1, b', c, Bar.isFirst_zero_succ.mpr ⟨hnot, hstop⟩, ?_, hx⟩
      rw [hearliest]
      exact Bar.isFirst_succ_succ.mpr hlimit
  constructor
  · cases d <;> simp [Means, hstops_zero, hfills_zero]
  · cases d <;> simp [Means, hstops_succ, hfills_succ]

/-- A first bar on which the limit is reached as well, and may fill. -/
theorem means_cons_of_filled (hkind : o.kind = .stopLimit stop limit)
    (hhits : b.Hits (Bar.AtStop o.side stop)) (hactivation : rule.activation = .sameBar)
    (hlimit : b.Hits (Bar.AtLimit o.side limit)) :
    (o.Means rule (b :: rest) 0 d ↔ d = .filled (o.limitFill limit)) ∧
      (o.Means rule (b :: rest) (n + 1) d ↔ d = .noFill) := by
  have hfills : ∀ m x, o.FillsAt rule (b :: rest) m x ↔ m = 0 ∧ x = o.limitFill limit := by
    intro m x
    rw [fillsAt_of_hits hkind hhits, hactivation, Activation.earliest]
    simp [Bar.isFirst_cons_of_hits hlimit]
  constructor
  · cases d <;> simp [Means, hfills]
  · cases d <;> simp [Means, hfills, stopsAt_of_hits hkind hhits]

/-- A first bar that reaches the stop and fills nothing: from the next one on only the limit counts. -/
theorem means_cons_of_triggered (hkind : o.kind = .stopLimit stop limit)
    (hhits : b.Hits (Bar.AtStop o.side stop))
    (hlimit : rule.activation = .sameBar → ¬b.Hits (Bar.AtLimit o.side limit)) :
    (o.Means rule (b :: rest) 0 d ↔ d = .stopTriggered) ∧
      (o.Means rule (b :: rest) (n + 1) d ↔
        MeansOnce (Bar.AtLimit o.side limit) (fun _ => o.limitFill limit) rest n d) := by
  have hfills_zero : ∀ x, ¬o.FillsAt rule (b :: rest) 0 x := by
    intro x hfills
    obtain ⟨c, hfirst, -⟩ := (fillsAt_of_hits hkind hhits).mp hfills
    rcases hactivation : rule.activation with - | - <;> rw [hactivation] at hfirst
    · exact Bar.not_isFirst_succ_zero hfirst
    · exact hlimit hactivation (Bar.isFirst_zero_zero.mp hfirst).2
  have hfills_succ : ∀ x, o.FillsAt rule (b :: rest) (n + 1) x ↔
      ∃ c, Bar.IsFirst (Bar.AtLimit o.side limit) 0 rest n c ∧ x = o.limitFill limit := by
    intro x
    rw [fillsAt_of_hits hkind hhits]
    rcases hactivation : rule.activation with - | - <;> simp only [Activation.earliest]
    · simp only [Nat.zero_add, Bar.isFirst_succ_succ]
    · simp only [Bar.isFirst_zero_succ, hlimit hactivation, not_false_eq_true, true_and]
  constructor
  · cases d <;> simp [Means, hfills_zero, stopsAt_of_hits hkind hhits]
  · exact means_iff_meansOnce (by simp [stopsAt_of_hits hkind hhits]) hfills_succ

/-- **A stop-limit** triggers at the first bar that reaches its stop, unless it fills there, and fills at the first bar
that reaches its limit from the earliest one on that may. -/
theorem decisions_stopLimit (hkind : o.kind = .stopLimit stop limit) (hactive : o.status = .active)
    (bars : List (Bar α)) (hasset : ∀ b ∈ bars, b.asset = o.asset) : ∀ {n : Nat} {d : Decision α},
    (o.decisions rule bars)[n]? = some d ↔ n < bars.length ∧ o.Means rule bars n d := by
  induction bars with
  | nil => intro n d; simp [decisions]
  | cons b rest ih =>
    obtain ⟨hb, hrest⟩ := List.forall_mem_cons.mp hasset
    intro n d
    rw [decisions]
    by_cases hhits : b.Hits (Bar.AtStop o.side stop)
    · rcases decisionOn_stopLimit rule hkind hactive hb hhits with
        ⟨hactivation, hlimit, hfilled⟩ | ⟨hlimit, htriggered⟩
      · have hdone : (o.advance rule b).isOpen = false := by
          rw [advance, hfilled]
          rfl
        rw [hfilled, decisions_of_not_open hdone]
        cases n with
        | zero => simp [(means_cons_of_filled (n := 0) hkind hhits hactivation hlimit).1, eq_comm]
        | succ n =>
          simp [(means_cons_of_filled hkind hhits hactivation hlimit).2, List.getElem?_replicate, eq_comm]
      · have hnext : o.advance rule b = { o with status := .triggered } := by
          rw [advance, htriggered]
          rfl
        have hawaits : ({ o with status := .triggered } : Order α).AwaitsLimit limit :=
          .inr ⟨stop, hkind, rfl⟩
        rw [htriggered, hnext]
        cases n with
        | zero => simp [(means_cons_of_triggered (n := 0) hkind hhits hlimit).1, eq_comm]
        | succ n =>
          rw [List.getElem?_cons_succ, decisions_limit hawaits hrest,
            (means_cons_of_triggered hkind hhits hlimit).2, List.length_cons, Nat.add_lt_add_iff_right]
          rfl
    · have hnone := decisionOn_stopLimit_of_not rule hkind hactive hb hhits
      have hsame : o.advance rule b = o := by
        rw [advance, hnone]
        rfl
      rw [hnone, hsame]
      cases n with
      | zero => simp [(means_cons_of_not (n := 0) hkind hhits).1, eq_comm]
      | succ n =>
        rw [List.getElem?_cons_succ, ih hrest, (means_cons_of_not hkind hhits).2, List.length_cons,
          Nat.add_lt_add_iff_right]

end StopLimit

/-! ## Any order -/

/-- **The decisions on a list of bars** are what the list means for an order that was just placed. -/
theorem decisions_means (hactive : o.status = .active) (hasset : ∀ b ∈ bars, b.asset = o.asset) :
    (o.decisions rule bars)[n]? = some d ↔ n < bars.length ∧ o.Means rule bars n d := by
  have hopen : o.isOpen = true := by rw [isOpen, hactive]; rfl
  rcases hkind : o.kind with stop | ⟨stop, limit⟩ | limit
  · have hstops : ¬o.StopsAt bars n := by simp [StopsAt, hkind]
    rw [decisions_stop hkind hopen hasset, means_iff_meansOnce hstops]
    intro x
    rw [FillsAt, hkind]
  · exact decisions_stopLimit hkind hactive bars hasset
  · have hstops : ¬o.StopsAt bars n := by simp [StopsAt, hkind]
    rw [decisions_limit (.inl ⟨hkind, hopen⟩) hasset, means_iff_meansOnce hstops]
    intro x
    rw [FillsAt, hkind]

/-- Every fill is for the whole quantity. -/
theorem quantity_of_fillsAt {x : Execution α} (h : o.FillsAt rule bars n x) :
    x.quantity = o.quantity := by
  rw [FillsAt] at h
  split at h
  · obtain ⟨b, -, rfl⟩ := h
    rfl
  · obtain ⟨b, -, rfl⟩ := h
    rfl
  · obtain ⟨i, b', b, -, -, rfl⟩ := h
    rfl

/-- An order whose limit may fill on the bar that reaches the stop fills no later than one whose limit may not. -/
theorem fillsAt_sameBar_le {gap : GapRule} {x : Execution α}
    (h : o.FillsAt ⟨gap, .nextBar⟩ bars n x) :
    ∃ m ≤ n, ∃ y, o.FillsAt ⟨gap, .sameBar⟩ bars m y := by
  rcases hkind : o.kind with stop | ⟨stop, limit⟩ | limit
  · refine ⟨n, le_rfl, x, ?_⟩
    rw [FillsAt, hkind] at h ⊢
    exact h
  · obtain ⟨i, b', b, hstop, hlimit, rfl⟩ := (fillsAt_stopLimit_iff hkind).mp h
    obtain ⟨m, hm, c, hfirst⟩ := Bar.exists_isFirst_le hlimit.here
      ((Nat.le_succ i).trans hlimit.start_le) hlimit.hits
    exact ⟨m, hm, o.limitFill limit, (fillsAt_stopLimit_iff hkind).mpr ⟨i, b', c, hstop, hfirst, rfl⟩⟩
  · refine ⟨n, le_rfl, x, ?_⟩
    rw [FillsAt, hkind] at h ⊢
    exact h

/-- **What becomes of an order on a list of bars.** An order without flaw that was just placed is decided on all bars of
a list of its asset, void ones included. It fills where the list means it to, and there as the list means it to, with
its whole quantity; a stop-limit triggers where its stop is reached first, unless it fills there; and no other bar does
anything. Where the limit of a stop-limit may fill on the bar that reaches the stop, it fills no later than where it may
not. -/
theorem decideAll_means (hcheck : o.check = .ok ()) (hactive : o.status = .active)
    (hasset : ∀ b ∈ bars, b.asset = o.asset) :
    (∀ rule, ∃ decisions, o.decideAll rule bars = .ok decisions ∧ decisions.length = bars.length ∧
      (∀ n d, decisions[n]? = some d ↔ n < bars.length ∧ o.Means rule bars n d) ∧
      ∀ (n : Nat) (x : Execution α), decisions[n]? = some (.filled x) → x.quantity = o.quantity) ∧
    ∀ gap next same, o.decideAll ⟨gap, .nextBar⟩ bars = .ok next →
      o.decideAll ⟨gap, .sameBar⟩ bars = .ok same →
      ∀ (n : Nat) (x : Execution α), next[n]? = some (.filled x) →
        ∃ m ≤ n, ∃ y : Execution α, same[m]? = some (.filled y) := by
  constructor
  · intro rule
    refine ⟨o.decisions rule bars, decideAll_eq bars hcheck hasset, length_decisions bars o, ?_, ?_⟩
    · exact fun n d => decisions_means hactive hasset
    · exact fun n x hx => quantity_of_fillsAt ((decisions_means hactive hasset).mp hx).2
  · intro gap next same hnext hsame n x hx
    obtain rfl := Except.ok.inj ((decideAll_eq bars hcheck hasset).symm.trans hnext)
    obtain rfl := Except.ok.inj ((decideAll_eq bars hcheck hasset).symm.trans hsame)
    obtain ⟨hn, hfills⟩ := (decisions_means hactive hasset).mp hx
    obtain ⟨m, hm, y, hfills'⟩ := fillsAt_sameBar_le hfills
    exact ⟨m, hm, y, (decisions_means hactive hasset).mpr ⟨hm.trans_lt hn, hfills'⟩⟩

/-- A stop-limit to sell two and a half shares at 97 once the price falls to 95. The first bar reaches both but has no
opening price, and the second reaches neither. The third reaches both: the limit fills on it, or else on the fourth. -/
theorem decideAll_means_both_reached :
    let o : Order Float := ⟨1, "SPY", .sell, .stopLimit 95 97, 2.5, .active⟩
    let time : Instant := ⟨19724, 75600, 0⟩
    let bars : List (Bar Float) := [⟨"SPY", time, 0 / 0, 98, 94, 95, 0⟩, ⟨"SPY", time, 96, 96.5, 95.5, 96, 0⟩,
      ⟨"SPY", time, 96, 98, 94, 95, 0⟩, ⟨"SPY", time, 95, 97, 93, 94, 0⟩]
    o.check = .ok () ∧ o.status = .active ∧ (∀ b ∈ bars, b.asset = o.asset) ∧
      o.decideAll ⟨.atOpen, .nextBar⟩ bars =
        .ok [.noFill, .noFill, .stopTriggered, .filled ⟨97, 2.5, false⟩] ∧
      o.decideAll ⟨.atOpen, .sameBar⟩ bars =
        .ok [.noFill, .noFill, .filled ⟨97, 2.5, false⟩, .noFill] ∧
      o.FillsAt ⟨.atOpen, .nextBar⟩ bars 3 ⟨97, 2.5, false⟩ ∧
      o.FillsAt ⟨.atOpen, .sameBar⟩ bars 2 ⟨97, 2.5, false⟩ := by
  intro o time bars
  have hcheck : o.check = .ok () := by decide +kernel
  have hasset : ∀ b ∈ bars, b.asset = o.asset := by simp [bars, o]
  have hnext : o.decideAll ⟨.atOpen, .nextBar⟩ bars =
      .ok [.noFill, .noFill, .stopTriggered, .filled ⟨97, 2.5, false⟩] := by decide +kernel
  have hsame : o.decideAll ⟨.atOpen, .sameBar⟩ bars =
      .ok [.noFill, .noFill, .filled ⟨97, 2.5, false⟩, .noFill] := by decide +kernel
  obtain ⟨hmeans, -⟩ := decideAll_means hcheck rfl hasset
  refine ⟨hcheck, rfl, hasset, hnext, hsame, ?_, ?_⟩
  · obtain ⟨decisions, hdecisions, -, hiff, -⟩ := hmeans ⟨.atOpen, .nextBar⟩
    obtain rfl := Except.ok.inj (hdecisions.symm.trans hnext)
    exact ((hiff 3 (.filled ⟨97, 2.5, false⟩)).mp rfl).2
  · obtain ⟨decisions, hdecisions, -, hiff, -⟩ := hmeans ⟨.atOpen, .sameBar⟩
    obtain rfl := Except.ok.inj (hdecisions.symm.trans hsame)
    exact ((hiff 2 (.filled ⟨97, 2.5, false⟩)).mp rfl).2

end Order

end Holdings
