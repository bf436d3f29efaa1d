import Mathlib
import Holdings.Proofs.Account.Locality
import Holdings.Proofs.Account.Trigger
import Holdings.Proofs.Session.Orders

/-!
# The assets of a session do not meet

All assets share one book, one list of resting orders and one tally. Still an event reads and writes nothing but the
position and the open orders of its own asset, and adds to the tally what these two make it add.

* `Session.AgreesOn` — two sessions with the same position and the same open orders in an asset;
* `Session.agreesOn_step_of_ne` — an event of another asset changes nothing of them;
* `Session.Alike.step` — an event of the asset does the same to both, and adds the same to both tallies;
* `Session.run_isolated` — so a run of events is, asset by asset, the run of the events of that asset.
-/

namespace Holdings

variable {α : Type}

/-- What a tally counts of single assets: fills, refused events, exits, and orders that were filled. -/
def Tally.counts (t : Tally α) : ℕ × ℕ × ℕ × ℕ := (t.fills, t.rejected, t.exits, t.ordersFilled)

namespace Order

/-- The orders of an asset that wait, in their order. -/
def openOf (asset : Asset) (orders : List (Order α)) : List (Order α) :=
  orders.filter fun o => o.asset = asset && o.isOpen

variable {asset : Asset} {orders : List (Order α)}

theorem openOf_append (orders' : List (Order α)) :
    openOf asset (orders ++ orders') = openOf asset orders ++ openOf asset orders' :=
  List.filter_append ..

theorem openOf_eq_nil (h : ∀ o ∈ orders, o.asset ≠ asset) : openOf asset orders = [] :=
  List.filter_eq_nil_iff.mpr fun o ho => by simp [h o ho]

/-- Orders are changed one by one and dropped when they do not wait any more: for those of an asset nothing counts but
those that waited. -/
theorem openOf_map_filter (asset : Asset) (orders : List (Order α)) {g : Order α → Order α}
    (hasset : ∀ o, (g o).asset = o.asset) (hopen : ∀ o, (g o).isOpen = true → o.isOpen = true) :
    openOf asset ((orders.map g).filter isOpen) = ((openOf asset orders).map g).filter isOpen := by
  simp only [openOf, List.filter_filter, List.filter_map, Function.comp_def]
  refine congrArg (List.map g) (List.filter_congr fun o _ => ?_)
  rcases ho : (g o).isOpen with - | -
  · simp
  · simp [hasset, hopen o ho]

/-- Changes that leave the orders of an asset alone leave those of them that wait. -/
theorem openOf_map_filter_of_same {g : Order α → Order α} (hasset : ∀ o, (g o).asset = o.asset)
    (hopen : ∀ o, (g o).isOpen = true → o.isOpen = true) (hsame : ∀ o, o.asset = asset → g o = o) :
    openOf asset ((orders.map g).filter isOpen) = openOf asset orders := by
  have hmem : ∀ o ∈ openOf asset orders, o.asset = asset ∧ o.isOpen = true := fun o ho => by
    simpa using (List.mem_filter.mp ho).2
  rw [openOf_map_filter asset orders hasset hopen, List.map_congr_left fun o ho => hsame o (hmem o ho).1,
    List.map_id', List.filter_eq_self.mpr fun o ho => (hmem o ho).2]

end Order

variable [Quantity α]

namespace Order

/-- Only orders of the asset of the bar are due, and only while they wait. -/
theorem filterMap_due?_openOf (rule : FillRule) (b : Bar α) (orders : List (Order α)) :
    (openOf b.asset orders).filterMap (due? rule b) = orders.filterMap (due? rule b) := by
  rw [openOf, List.filterMap_filter]
  refine List.filterMap_congr fun o _ => ?_
  split
  · rfl
  · next hpassed =>
    refine (due?_eq_none fun hasset => ?_).symm
    simpa [hasset] using hpassed

end Order

namespace Session

/-- Two sessions with the same position and the same open orders in an asset. -/
structure AgreesOn (asset : Asset) (s s' : Session α) : Prop where
  /-- the same is held -/
  account : s.account.SameAt asset s'.account
  /-- the same orders wait -/
  orders : Order.openOf asset s.orders = Order.openOf asset s'.orders

/-- What is kept in a session: positions under their assets, and orders without flaw. -/
structure Proper (s : Session α) : Prop where
  /-- no position is under another asset -/
  held : s.account.All Position.Held
  /-- no order is flawed -/
  orders : s.OrdersSound

variable {policy : Policy α} {s s' : Session α} {asset : Asset}

theorem proper_start : (start : Session α).Proper :=
  ⟨Account.all_empty, fun o ho => by cases ho⟩

theorem Proper.step (h : s.Proper) (e : Event α) : (s.step policy e).1.Proper :=
  ⟨all_step (Position.stable_held _) h.held e, h.orders.step e⟩

/-- A recorded price leaves a session proper. -/
theorem Proper.mark (h : s.Proper) {price : α} {time : Instant} {held : Bool} {account : Account α}
    (hm : s.account.mark asset price time = .ok (held, account)) (policy : Policy α) :
    ({ s with account := account } : Session α).Proper where
  held := perform_of_mark (t := terms policy) hm ▸ h.held.perform (Position.stable_held _) _
  orders := h.orders

omit [Quantity α] in
/-- None of the orders that are withdrawn waits any more. -/
theorem openOf_cancelOrders (s : Session α) (asset : Asset) :
    Order.openOf asset (s.cancelOrders asset).orders = [] := by
  refine Order.openOf_eq_nil fun o ho hasset => ?_
  obtain ⟨hmem, hopen⟩ := List.mem_filter.mp ho
  obtain ⟨o, -, rfl⟩ := List.mem_map.mp hmem
  split at hasset
  · next heq =>
    rw [if_pos heq, Order.isOpen_cancel] at hopen
    cases hopen
  · next hne => exact hne hasset

omit [Quantity α] in
/-- Orders of other assets are not withdrawn. -/
theorem openOf_cancelOrders_of_ne (s : Session α) {asset' : Asset} (hne : asset' ≠ asset) :
    Order.openOf asset (s.cancelOrders asset').orders = Order.openOf asset s.orders := by
  refine Order.openOf_map_filter_of_same (fun o => ?_) (fun o ho => ?_) (fun o ho => ?_)
  · split
    · exact o.asset_cancel
    · rfl
  · split at ho
    · rw [Order.isOpen_cancel] at ho
      cases ho
    · exact ho
  · exact if_neg fun heq => hne (heq.symm.trans ho)

/-! ## Events of other assets -/

/-- The operations of an event are on its asset. -/
theorem operations_asset? (h : s.Proper) {e : Event α} :
    ∀ op ∈ s.operations policy e, op.asset? = some e.asset := by
  intro op hop
  rcases mem_operations hop with ⟨hasset, -⟩ | ⟨x, exit, hx, hexit, rfl⟩
  · exact hasset
  · obtain ⟨⟨held, hm⟩, -, -⟩ := observation?_eq_some policy hx
    have hasset := Account.asset_of_trigger? (h.mark hm policy).held (firstExit?_eq_some hexit)
    exact congrArg some (hasset.trans (observation?_asset hx))

/-- Prices of another asset leave the open orders. -/
theorem openOf_playPrices_of_ne (hs : s.OrdersSound) {path : List α} {b : Bar α} (hne : b.asset ≠ asset) :
    Order.openOf asset (s.playPrices policy path b).1.orders = Order.openOf asset s.orders := by
  rw [playPrices]
  split
  · next exit _ =>
    rcases playExit_cases policy s b.asset exit with ⟨cause, -, hplay⟩ | ⟨closed, hf, hplay⟩ <;> rw [hplay]
    · rfl
    · have horders : closed.orders = (s.fire exit).orders := fill_orders hf
      exact (openOf_cancelOrders_of_ne closed hne).trans (congrArg (Order.openOf asset) horders)
  · split
    · rw [playOrders_orders hs]
      exact Order.openOf_map_filter_of_same (Order.asset_advance _ b) (fun o => Order.isOpen_of_advance)
        fun o ho => Order.advance_eq_self fun heq => absurd (heq.symm.trans ho) hne
    · rfl

/-- **An event of another asset** changes neither the position nor the open orders. -/
theorem agreesOn_handle_of_ne (hs : s.Proper) {e : Event α} (hne : e.asset ≠ asset) :
    AgreesOn asset (s.handle policy e).1 s where
  account := by
    rw [Account.SameAt, (handle_performs s e).account]
    exact Account.get?_run_of_ne hne (operations_asset? hs)
  orders := by
    rcases hx : s.observation? e with - | x
    · by_cases he : e.isObservation = true
      · rw [(observation?_eq_none policy he hx).1]
      · rw [(handle_of_not_observation policy s (by simpa using he)).1, Order.openOf_append]
        have hplaced : Order.openOf asset e.placed = [] := Order.openOf_eq_nil fun o ho => by
          obtain rfl := Event.eq_order_of_mem_placed ho
          exact hne
        rw [hplaced, List.append_nil]
    · rw [(observation?_eq_some policy hx).2.2]
      exact openOf_playPrices_of_ne (s := x.session s) hs.orders ((observation?_asset hx).symm ▸ hne)

theorem agreesOn_step_of_ne (policy : Policy α) (hs : s.Proper) {e : Event α} (hne : e.asset ≠ asset) :
    AgreesOn asset (s.step policy e).1 s := by
  have hhandled : AgreesOn asset (s.taken.handle policy e).1 s.taken :=
    agreesOn_handle_of_ne (s := s.taken) ⟨hs.held, hs.orders⟩ hne
  rcases step_cases policy s e with ⟨-, heq⟩ | ⟨cause, -, heq⟩ <;> rw [heq] <;>
    exact ⟨hhandled.account, hhandled.orders⟩

/-! ## Events of the asset -/

/-- Two sessions that agree on an asset and have counted the same since their tallies stood at `k` and `k'`. -/
structure Alike (asset : Asset) (k k' : ℕ × ℕ × ℕ × ℕ) (s s' : Session α) : Prop
    extends AgreesOn asset s s' where
  /-- the same was counted -/
  counts : s.tally.counts + k' = s'.tally.counts + k

/-- Two plays with the same verdict that lead to sessions alike. -/
structure PlayedAlike (asset : Asset) (k k' : ℕ × ℕ × ℕ × ℕ) (r r' : Play α) : Prop where
  /-- the sessions are alike -/
  sessions : Alike asset k k' r.1 r'.1
  /-- the verdicts are the same -/
  verdict : r.2 = r'.2

variable {k k' : ℕ × ℕ × ℕ × ℕ}

namespace Alike

omit [Quantity α] in
theorem played (h : Alike asset k k' s s') (verdict : Except (Rejection α) Unit) :
    PlayedAlike asset k k' (s, verdict) (s', verdict) :=
  ⟨h, rfl⟩

omit [Quantity α] in
/-- Sessions stay alike when the same account comes in, as far as the asset goes. -/
theorem withAccount (h : Alike asset k k' s s') {a a' : Account α} (ha : a.SameAt asset a') :
    Alike asset k k' { s with account := a } { s' with account := a' } :=
  ⟨⟨ha, h.orders⟩, h.counts⟩

omit [Quantity α] in
/-- Sessions stay alike when the same is counted. -/
theorem count (h : Alike asset k k' s s') {f f' : Tally α → Tally α} (d : ℕ × ℕ × ℕ × ℕ)
    (hf : (f s.tally).counts = s.tally.counts + d) (hf' : (f' s'.tally).counts = s'.tally.counts + d) :
    Alike asset k k' (s.count f) (s'.count f') where
  account := h.account
  orders := h.orders
  counts := by
    change (f s.tally).counts + k' = (f' s'.tally).counts + k
    rw [hf, hf', add_right_comm, h.counts, add_right_comm]

omit [Quantity α] in
/-- Sessions stay alike when the same order comes to rest. -/
theorem place (h : Alike asset k k' s s') (o : Order α) :
    Alike asset k k' { s with orders := s.orders ++ [o] } { s' with orders := s'.orders ++ [o] } where
  account := h.account
  orders := (Order.openOf_append _).trans (h.orders ▸ (Order.openOf_append _).symm)
  counts := h.counts

omit [Quantity α] in
/-- Sessions stay alike when no order of the asset waits any more. -/
theorem cancelOrders (h : Alike asset k k' s s') :
    Alike asset k k' (s.cancelOrders asset) (s'.cancelOrders asset) where
  account := h.account
  orders := (openOf_cancelOrders s asset).trans (openOf_cancelOrders s' asset).symm
  counts := h.counts

/-- **A fill of the asset** is refused in both for the same reason, or applied in both. -/
theorem fill (h : Alike asset k k' s s') (policy : Policy α) {f : Fill α} (hf : f.asset = asset) :
    Matched (Alike asset k k') (s.fill policy f) (s'.fill policy f) := by
  subst hf
  have happly := h.account.apply (t := terms policy) (f := f)
  rw [Session.fill, Session.fill]
  generalize s.account.apply (terms policy) f = x at happly ⊢
  generalize s'.account.apply (terms policy) f = y at happly ⊢
  cases happly with
  | error fault => exact .error _
  | @ok x y hxy => exact .ok ((h.withAccount hxy.2).count (1, 0, 0, 0) rfl rfl)

end Alike

/-! ### Exits -/

/-- The same exit, from two accounts that hold the same in the asset. -/
structure FiredExit.Same (asset : Asset) (e e' : FiredExit α) : Prop where
  /-- the accounts that it leaves agree -/
  account : e.account.SameAt asset e'.account
  /-- all else is the same -/
  rest : e' = { e with account := e'.account }

theorem laterExit?_same {a a' : Account α} (h : a.SameAt asset a') (time : Instant) :
    ∀ path : List α, Option.Rel (FiredExit.Same asset) (laterExit? a asset time path)
      (laterExit? a' asset time path)
  | [] => .none
  | price :: rest => by
    have hlook := h.trigger? price (some time)
    rw [laterExit?, laterExit?]
    generalize a.trigger? asset price (some time) = x at hlook ⊢
    generalize a'.trigger? asset price (some time) = y at hlook ⊢
    cases hlook with
    | none => exact laterExit?_same h time rest
    | @some x y hxy => exact .some ⟨hxy.2, by rw [hxy.1]⟩

/-- Accounts that hold the same in an asset see the same exit on a path of its prices. -/
theorem firstExit?_same {a a' : Account α} (h : a.SameAt asset a') (time : Instant) (path : List α) :
    Option.Rel (FiredExit.Same asset) (firstExit? a asset time path) (firstExit? a' asset time path) := by
  cases path with
  | nil => exact .none
  | cons price rest =>
    have hlook := h.trigger? price (some time)
    rw [firstExit?, firstExit?]
    generalize a.trigger? asset price (some time) = x at hlook ⊢
    generalize a'.trigger? asset price (some time) = y at hlook ⊢
    cases hlook with
    | none => exact laterExit?_same h time rest
    | @some x y hxy => exact .some ⟨hxy.2, by rw [hxy.1]⟩

/-- The same exit is carried out alike. -/
theorem Alike.playExit (h : Alike asset k k' s s') {e e' : FiredExit α} (he : e.Same asset e')
    (hasset : e.intent.asset = asset) :
    PlayedAlike asset k k' (s.playExit policy asset e) (s'.playExit policy asset e') := by
  have hfired : Alike asset k k' (s.fire e) (s'.fire e') :=
    (h.withAccount he.account).count (0, 0, 1, 0) rfl rfl
  have hsame : e'.fill policy = e.fill policy := by rw [he.rest]; rfl
  have hfill := hfired.fill policy (f := e.fill policy) hasset
  rcases playExit_cases policy s asset e with ⟨cause, hf, hplay⟩ | ⟨closed, hf, hplay⟩ <;>
    rcases playExit_cases policy s' asset e' with ⟨cause', hf', hplay'⟩ | ⟨closed', hf', hplay'⟩ <;>
    rw [hsame] at hf' <;> rw [hf, hf'] at hfill <;> rw [hplay, hplay'] <;> cases hfill
  · exact ⟨hfired, rfl⟩
  · next hclosed => exact ⟨hclosed.cancelOrders, rfl⟩

/-! ### Resting orders -/

/-- The same fills of orders of the asset are applied alike, up to the first that is refused. -/
theorem Alike.fillDue {b : Bar α} : ∀ (due : List (DueFill α)) {s s' : Session α},
    Alike b.asset k k' s s' →
    PlayedAlike b.asset k k' (Session.fillDue policy b s due) (Session.fillDue policy b s' due)
  | [], _, _, h => ⟨h, rfl⟩
  | d :: rest, s, s', h => by
    have hfill := h.fill policy (f := d.fill policy b) rfl
    rw [Session.fillDue, Session.fillDue]
    generalize s.fill policy (d.fill policy b) = x at hfill ⊢
    generalize s'.fill policy (d.fill policy b) = y at hfill ⊢
    cases hfill with
    | error cause => exact ⟨h, rfl⟩
    | ok hnext => exact Alike.fillDue rest (hnext.count (0, 0, 0, 1) rfl rfl)

/-- What a bar leaves of the open orders of its asset depends on nothing but them. -/
theorem openOf_withoutDue (s : Session α) (b : Bar α) :
    Order.openOf b.asset (s.withoutDue policy b).orders =
      ((Order.openOf b.asset s.orders).map (Order.advance policy.fillRule b)).filter Order.isOpen :=
  Order.openOf_map_filter b.asset s.orders (Order.asset_advance _ b) fun _ => Order.isOpen_of_advance

/-- The open orders of the asset of a bar are decided alike. -/
theorem Alike.playOrders {b : Bar α} (h : Alike b.asset k k' s s') (hs : s.OrdersSound)
    (hs' : s'.OrdersSound) :
    PlayedAlike b.asset k k' (s.playOrders policy b) (s'.playOrders policy b) := by
  have hdue : s.orders.filterMap (Order.due? policy.fillRule b) =
      s'.orders.filterMap (Order.due? policy.fillRule b) := by
    rw [← Order.filterMap_due?_openOf _ b s.orders, ← Order.filterMap_due?_openOf _ b s'.orders,
      h.orders]
  have hwithout : Alike b.asset k k' (s.withoutDue policy b) (s'.withoutDue policy b) :=
    ⟨⟨h.account, by rw [openOf_withoutDue, openOf_withoutDue, h.orders]⟩, h.counts⟩
  rw [playOrders_eq hs, playOrders_eq hs', hdue]
  exact Alike.fillDue _ hwithout

/-- Prices of the asset are played alike. -/
theorem Alike.playPrices {b : Bar α} (h : Alike b.asset k k' s s') (hs : s.Proper) (hs' : s'.Proper)
    (path : List α) :
    PlayedAlike b.asset k k' (s.playPrices policy path b) (s'.playPrices policy path b) := by
  have hexit := firstExit?_same h.account b.time path
  rw [Session.playPrices, Session.playPrices]
  rcases he : firstExit? s.account b.asset b.time path with - | e <;>
    rcases he' : firstExit? s'.account b.asset b.time path with - | e' <;> rw [he, he'] at hexit <;>
    cases hexit
  · dsimp only
    split
    · exact h.playOrders hs.orders hs'.orders
    · exact ⟨h, rfl⟩
  · next hsame => exact h.playExit hsame (Account.asset_of_trigger? hs.held (firstExit?_eq_some he))

/-! ### Whole events -/

theorem Alike.playMark (h : Alike asset k k' s s') (hs : s.Proper) (hs' : s'.Proper) (price : α)
    (time : Instant) :
    PlayedAlike asset k k' (s.playMark policy asset price time) (s'.playMark policy asset price time) := by
  have hmark := h.account.mark price time
  rw [Session.playMark, Session.playMark]
  rcases hm : s.account.mark asset price time with fault | ⟨held, a⟩ <;>
    rcases hm' : s'.account.mark asset price time with fault' | ⟨held', a'⟩ <;>
    rw [hm, hm'] at hmark <;> cases hmark
  · exact h.played _
  · next hxy =>
    exact (h.withAccount hxy.2).playPrices (b := .tick asset time price) (hs.mark hm policy)
      (hs'.mark hm' policy) [price]

theorem Alike.playBar {b : Bar α} (h : Alike b.asset k k' s s') (hs : s.Proper) (hs' : s'.Proper) :
    PlayedAlike b.asset k k' (s.playBar policy b) (s'.playBar policy b) := by
  have hmark := h.account.mark b.closing b.time
  rw [Session.playBar, Session.playBar]
  split
  · exact h.played _
  · split
    · exact h.played _
    · rcases hm : s.account.mark b.asset b.closing b.time with fault | ⟨held, a⟩ <;>
        rcases hm' : s'.account.mark b.asset b.closing b.time with fault' | ⟨held', a'⟩ <;>
        rw [hm, hm'] at hmark <;> cases hmark
      · exact h.played _
      · next hxy =>
        -- the direction of the position is the same, and with it the path
        have hpath : pathOf a b = pathOf a' b := by rw [pathOf, pathOf, hxy.2.get?_eq]
        dsimp only
        rw [hpath]
        exact (h.withAccount hxy.2).playPrices (hs.mark hm policy) (hs'.mark hm' policy) _

theorem Alike.playDividend (h : Alike asset k k' s s') (perShare : α) :
    PlayedAlike asset k k' (s.playDividend asset perShare) (s'.playDividend asset perShare) := by
  have howed : s.account.dividend? asset perShare = s'.account.dividend? asset perShare := by
    rw [Account.dividend?, Account.dividend?, h.account.get?_eq]
  rw [Session.playDividend, Session.playDividend, howed]
  split
  · exact h.played _
  · rcases s'.account.dividend? asset perShare with - | d
    · exact h.played _
    · exact (h.count 0 rfl rfl).played _

/-- **An event of the asset** is played alike: it has the same verdict, does the same to the position and the open
orders, and is counted in the same way. -/
theorem Alike.handle {e : Event α} (h : Alike e.asset k k' s s') (hs : s.Proper) (hs' : s'.Proper)
    (policy : Policy α) :
    PlayedAlike e.asset k k' (s.handle policy e) (s'.handle policy e) := by
  cases e with
  | fill asset quantity price cost time levels =>
    have hfill := h.fill policy (f := recordedFill policy asset quantity price cost time levels) rfl
    rw [Session.handle, Session.handle]
    generalize s.fill policy _ = x at hfill ⊢
    generalize s'.fill policy _ = y at hfill ⊢
    cases hfill with
    | error cause => exact h.played _
    | ok hnext => exact hnext.played _
  | mark asset price time => exact h.playMark hs hs' price time
  | bar b => exact h.playBar hs hs'
  | levels asset l =>
    have hlevels : Matched (Account.SameAt asset) (s.account.setLevels (terms policy) asset l)
        (s'.account.setLevels (terms policy) asset l) := h.account.setLevels l
    rw [Session.handle, Session.handle]
    generalize s.account.setLevels (terms policy) asset l = x at hlevels ⊢
    generalize s'.account.setLevels (terms policy) asset l = y at hlevels ⊢
    cases hlevels with
    | error fault => exact h.played _
    | ok hxy => exact (h.withAccount hxy).played _
  | order o =>
    rw [Session.handle, Session.handle]
    rcases o.check with fault | ⟨⟩
    · exact h.played _
    · exact (h.place o).played _
  | split asset ratio =>
    have hsplit : Matched (fun x y => x.1 = y.1 ∧ Account.SameAt asset x.2 y.2)
        (s.account.split (terms policy) asset ratio) (s'.account.split (terms policy) asset ratio) :=
      h.account.split ratio
    rw [Session.handle, Session.handle]
    generalize s.account.split (terms policy) asset ratio = x at hsplit ⊢
    generalize s'.account.split (terms policy) asset ratio = y at hsplit ⊢
    cases hsplit with
    | error fault => exact h.played _
    | ok hxy =>
      obtain ⟨hcash, hbook⟩ := hxy
      exact ((h.withAccount hbook).count 0 rfl rfl).played _
  | dividend asset perShare => exact h.playDividend perShare

/-- A step of the asset leaves sessions alike that were alike. -/
theorem Alike.step {e : Event α} (h : Alike e.asset k k' s s') (hs : s.Proper) (hs' : s'.Proper)
    (policy : Policy α) :
    Alike e.asset k k' (s.step policy e).1 (s'.step policy e).1 := by
  have htaken : Alike e.asset k k' s.taken s'.taken := h.count 0 rfl rfl
  have hplayed := htaken.handle ⟨hs.held, hs.orders⟩ ⟨hs'.held, hs'.orders⟩ policy
  have hverdict := hplayed.verdict
  rcases step_cases policy s e with ⟨hv, heq⟩ | ⟨cause, hv, heq⟩ <;>
    rcases step_cases policy s' e with ⟨hv', heq'⟩ | ⟨cause', hv', heq'⟩ <;>
    rw [hv, hv'] at hverdict <;> rw [heq, heq']
  · exact hplayed.sessions
  · cases hverdict
  · cases hverdict
  · dsimp only
    exact hplayed.sessions.count (0, 1, 0, 0) rfl rfl

/-! ## Whole runs -/

theorem proper_run (policy : Policy α) (events : List (Event α)) :
    (start.run policy false events).1.Proper := by
  induction events using List.reverseRecOn with
  | nil => exact proper_start
  | append_singleton events e ih =>
    rw [run_concat]
    exact ih.step e

/-- What is held in an asset and which of its orders wait comes from the events of that asset alone. -/
theorem agreesOn_run (policy : Policy α) (asset : Asset) (events : List (Event α)) :
    AgreesOn asset (start.run policy false events).1
      (start.run policy false (events.filter fun e => e.asset = asset)).1 := by
  induction events using List.reverseRecOn with
  | nil => exact ⟨rfl, rfl⟩
  | append_singleton events e ih =>
    have hproper := proper_run policy events
    rw [run_concat, List.filter_append]
    by_cases heq : e.asset = asset
    · subst heq
      have hown : [e].filter (fun e' => e'.asset = e.asset) = [e] := by simp
      rw [hown, run_concat]
      exact ((Alike.mk ih (add_comm _ _)).step hproper (proper_run policy _) policy).toAgreesOn
    · have hnone : [e].filter (fun e' => e'.asset = asset) = [] := by simp [heq]
      rw [hnone, List.append_nil]
      have hstep := agreesOn_step_of_ne policy hproper heq
      exact ⟨hstep.account.trans ih.account, hstep.orders.trans ih.orders⟩

/-- What is counted is counted in the runs of the single assets. The sum may run over more assets than occur, since
nothing is counted where nothing is played. -/
theorem counts_run (policy : Policy α) (events : List (Event α)) {assets : Finset Asset}
    (h : ∀ e ∈ events, e.asset ∈ assets) :
    (start.run policy false events).1.tally.counts = ∑ asset ∈ assets,
      (start.run policy false (events.filter fun e => e.asset = asset)).1.tally.counts := by
  induction events using List.reverseRecOn with
  | nil => exact (Finset.sum_eq_zero fun asset _ => rfl).symm
  | append_singleton events e ih =>
    have hown : (events ++ [e]).filter (fun e' => e'.asset = e.asset) =
        (events.filter fun e' => e'.asset = e.asset) ++ [e] := by simp
    have hother : ∑ asset ∈ assets.erase e.asset, (start.run policy false
          ((events ++ [e]).filter fun e' => e'.asset = asset)).1.tally.counts =
        ∑ asset ∈ assets.erase e.asset, (start.run policy false
          (events.filter fun e' => e'.asset = asset)).1.tally.counts :=
      Finset.sum_congr rfl fun asset hasset => by simp [(Finset.ne_of_mem_erase hasset).symm]
    have hmem : e.asset ∈ assets := h e (by simp)
    have hbefore := ih fun e' he' => h e' (List.mem_append_left _ he')
    -- the event adds the same to the whole run and to the run of its own asset
    have hadded := ((Alike.mk (agreesOn_run policy e.asset events) (add_comm _ _)).step
      (proper_run policy events) (proper_run policy _) policy).counts
    rw [← Finset.add_sum_erase _ _ hmem] at hbefore ⊢
    rw [hother, hown, run_concat, run_concat]
    rw [hbefore] at hadded
    refine add_right_cancel (hadded.trans ?_)
    abel

/-- **The assets of a session do not meet**: after any run that passes over refused events, what is held in an asset
and which of its orders wait is what a run of the events of that asset alone leads to; and the fills, the refused
events, the exits and the filled orders are counted as those of the runs of the single assets together. -/
theorem run_isolated (policy : Policy α) (events : List (Event α)) :
    (∀ asset, AgreesOn asset (start.run policy false events).1
      (start.run policy false (events.filter fun e => e.asset = asset)).1) ∧
    (start.run policy false events).1.tally.counts =
      ∑ asset ∈ (events.map Event.asset).toFinset,
        (start.run policy false (events.filter fun e => e.asset = asset)).1.tally.counts :=
  ⟨fun asset => agreesOn_run policy asset events,
    counts_run policy events fun _ he => List.mem_toFinset.mpr (List.mem_map_of_mem he)⟩

end Session

end Holdings
