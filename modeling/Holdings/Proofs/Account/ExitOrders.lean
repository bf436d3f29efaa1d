import Mathlib
import Holdings.Proofs.Account.Normalisation
import Holdings.Proofs.Exit.Orders

/-!
# The exit orders of an account

All levels of an account can be written down as resting orders. They are numbered twice: within a position, where a
level that is not set has no number, and through the book, where each position goes on from the one before it.

* `Account.guards` — the levels that are set, in the order of the assets and the stop-loss before the take-profit
  (`Account.mem_guards`, `Account.guards_pairwise`);
* `Account.exitOrders_eq` — the orders stand for them one by one, numbered without gaps;
* `Account.exitOrders_close` — and each of them, carried out, ends its position, which leaves the book.
-/

namespace Holdings

variable {α : Type}

/-- A level that is set on a position. -/
structure Guard (α : Type) where
  /-- the position -/
  position : Position α
  /-- which of the two levels -/
  reason : ExitReason
  /-- the level -/
  level : α

/-- The order of levels: that of their assets, and the stop-loss of a position before its take-profit. -/
def Guard.Before (g g' : Guard α) : Prop :=
  g.position.asset < g'.position.asset ∨
    g.position = g'.position ∧ g.reason = .stopLoss ∧ g'.reason = .takeProfit

/-- The levels that are set on a position, the stop-loss first. -/
def Position.guards (p : Position α) : List (Guard α) :=
  (p.levels.stopLoss.map (⟨p, .stopLoss, ·⟩)).toList ++ (p.levels.takeProfit.map (⟨p, .takeProfit, ·⟩)).toList

/-- The levels that are set in an account. -/
def Account.guards (a : Account α) : List (Guard α) := a.positions.flatMap Position.guards

/-! ## The levels of a position -/

namespace Position

variable {p : Position α} {g : Guard α}

theorem mem_guards : g ∈ p.guards ↔ g.position = p ∧ g.level ∈ p.levels.level? g.reason := by
  rw [guards, List.mem_append, Option.mem_toList, Option.mem_toList, Option.map_eq_some_iff, Option.map_eq_some_iff]
  constructor
  · rintro (⟨level, hlevel, rfl⟩ | ⟨level, hlevel, rfl⟩) <;> exact ⟨rfl, hlevel⟩
  · obtain ⟨q, reason, level⟩ := g
    rintro ⟨rfl, hlevel⟩
    cases reason with
    | stopLoss => exact .inl ⟨level, hlevel, rfl⟩
    | takeProfit => exact .inr ⟨level, hlevel, rfl⟩

theorem guards_pairwise (p : Position α) : p.guards.Pairwise Guard.Before := by
  rw [guards]
  rcases p.levels.stopLoss with - | sl <;> rcases p.levels.takeProfit with - | tp <;> simp [Guard.Before]

end Position

variable [Quantity α]

namespace Guard

/-- The resting order in place of a level. -/
def order (g : Guard α) (id : Nat) : Order α := g.position.exitOrder id (.ofExit g.reason g.level)

/-- The resting orders in place of levels, numbered through from `first`. -/
def orders (first : Nat) (guards : List (Guard α)) : List (Order α) :=
  guards.mapIdx fun i g => g.order (first + i)

theorem length_orders (first : Nat) (guards : List (Guard α)) : (orders first guards).length = guards.length :=
  List.length_mapIdx

theorem getElem?_orders (first : Nat) (guards : List (Guard α)) (i : Nat) :
    (orders first guards)[i]? = guards[i]?.map fun g => g.order (first + i) :=
  List.getElem?_mapIdx

/-- Numbers go on where those of the orders before end. -/
theorem orders_append (first : Nat) (guards guards' : List (Guard α)) :
    orders first (guards ++ guards') = orders first guards ++ orders (first + guards.length) guards' := by
  simp only [orders, List.mapIdx_append, Nat.add_assoc, Nat.add_comm guards.length]

end Guard

/-- The exit orders of a position that is held stand for its levels. -/
theorem Position.exitOrders_eq {p : Position α} (hp : p.isFlat = false) (first : Nat) :
    p.exitOrders first = Guard.orders first p.guards := by
  rw [exitOrders, hp, if_neg Bool.false_ne_true, exitKinds, guards]
  rcases p.levels.stopLoss with - | sl <;> rcases p.levels.takeProfit with - | tp <;> rfl

namespace Account

variable {a : Account α} {g : Guard α}

/-! ## The levels of an account -/

omit [Quantity α] in
/-- **The levels that are set in an account** are those of the positions that are held. -/
theorem mem_guards (hown : All (fun asset p => p.asset = asset) a) :
    g ∈ a.guards ↔ a.get? g.position.asset = some g.position ∧ g.level ∈ g.position.levels.level? g.reason := by
  rw [guards, List.mem_flatMap]
  constructor
  · rintro ⟨p, hp, hg⟩
    obtain ⟨rfl, hlevel⟩ := Position.mem_guards.mp hg
    obtain ⟨asset, hget⟩ := Book.mem_values_iff.mp hp
    obtain rfl := hown hget
    exact ⟨hget, hlevel⟩
  · rintro ⟨hget, hlevel⟩
    exact ⟨g.position, Book.mem_values_iff.mpr ⟨_, hget⟩, Position.mem_guards.mpr ⟨rfl, hlevel⟩⟩

omit [Quantity α] in
/-- **They are in order**, and so no level is among them twice. -/
theorem guards_pairwise (hown : All (fun asset p => p.asset = asset) a) : a.guards.Pairwise Guard.Before := by
  refine List.pairwise_flatMap.mpr ⟨fun p _ => p.guards_pairwise, ?_⟩
  refine (List.pairwise_map.mp (positions_rising hown)).imp ?_
  intro p q hlt g hg g' hg'
  refine .inl ?_
  rw [(Position.mem_guards.mp hg).1, (Position.mem_guards.mp hg').1]
  exact hlt

/-! ## The orders in place of them -/

/-- Positions that are held are numbered through with their levels. The induction is on the positions, and the number
that the next one starts from goes along. -/
theorem exitOrdersOf_eq {ps : List (Position α)} : ∀ {first : Nat}, (∀ p ∈ ps, p.isFlat = false) →
    exitOrdersOf first ps = Guard.orders first (ps.flatMap Position.guards) := by
  induction ps with
  | nil => intro first _; rfl
  | cons p rest ih =>
    intro first hps
    obtain ⟨hp, hrest⟩ := List.forall_mem_cons.mp hps
    rw [exitOrdersOf, Position.exitOrders_eq hp, ih hrest, Guard.length_orders, List.flatMap_cons, Guard.orders_append]

/-- **The exit orders of an account** stand for its levels, one for each and numbered without gaps. -/
theorem exitOrders_eq (ha : All Position.Held a) (first : Nat) : a.exitOrders first = Guard.orders first a.guards := by
  refine exitOrdersOf_eq fun p hp => ?_
  obtain ⟨asset, hget⟩ := Book.mem_values_iff.mp hp
  exact (ha hget).not_flat

/-- **A resting order that stands for a level** of an account, under a number. -/
structure StandsFor (a : Account α) (g : Guard α) (id : Nat) (o : Order α) : Prop where
  /-- it has the number -/
  id_eq : o.id = id
  /-- it is in the asset of the position -/
  asset_eq : o.asset = g.position.asset
  /-- it is a stop at a stop-loss, and a limit at a take-profit -/
  kind_eq : o.kind = .ofExit g.reason g.level
  /-- it waits -/
  active : o.status = .active
  /-- it trades all that is held -/
  trades_all : o.signedQuantity = -g.position.amount
  /-- a fill of that quantity ends the position, on whatever terms and at whatever price it is accepted -/
  ends : ∀ (t : Terms α) (f : Fill α), f.asset = o.asset → f.quantity = o.signedQuantity →
    ∀ outcome b, a.apply t f = .ok (outcome, b) → outcome.kind = .closed ∧ b.get? o.asset = none

variable [Quantity.LawfulZero α] [Quantity.LawfulNeg α] [Quantity.LawfulMagnitude α]

/-- The order in place of a level of a position that is held stands for it. -/
theorem standsFor_order (hget : a.get? g.position.asset = some g.position) (hp : g.position.isFlat = false) (id : Nat) :
    a.StandsFor g id (g.order id) where
  id_eq := rfl
  asset_eq := rfl
  kind_eq := rfl
  active := rfl
  trades_all := Position.signedQuantity_exitOrder hp id _
  ends := by
    intro t f hasset hquantity outcome b h
    change f.asset = g.position.asset at hasset
    have hall : f.quantity = -g.position.amount := hquantity.trans (Position.signedQuantity_exitOrder hp id _)
    obtain ⟨hkind, hgone⟩ := ends_of_apply h (hasset ▸ hget) hp hall
    refine ⟨hkind, ?_⟩
    change b.get? g.position.asset = none
    rw [← hasset, hgone]

/-- **The exit orders of an account and what they do.** After any run, whatever it went through, the levels that are set
are those of the positions that are held. They are in the strict order of their assets, and of one position the
stop-loss comes before the take-profit. There are as many exit orders as levels, and the order in each place stands for
the level in that place: it is numbered on from `first` by the place, it waits at the level for all that is held, and a
fill of what it trades, if it is accepted, ends the position, which leaves the book. -/
theorem exitOrders_close (t : Terms α) (ops : List (Operation α)) (first : Nat) :
    let a := empty.run t ops
    (∀ g, g ∈ a.guards ↔
      a.get? g.position.asset = some g.position ∧ g.level ∈ g.position.levels.level? g.reason) ∧
      a.guards.Pairwise Guard.Before ∧
      (a.exitOrders first).length = a.guards.length ∧
      ∀ i g, a.guards[i]? = some g →
        ∃ o, (a.exitOrders first)[i]? = some o ∧ a.StandsFor g (first + i) o := by
  intro a
  have ha : All Position.Held a := All.run (Position.stable_held t) ops all_empty
  have hown : All (fun asset p => p.asset = asset) a := fun _ _ hp => (ha hp).asset_eq
  refine ⟨fun g => mem_guards hown, guards_pairwise hown, ?_, ?_⟩
  · rw [exitOrders_eq ha, Guard.length_orders]
  · intro i g hg
    obtain ⟨hget, -⟩ := (mem_guards hown).mp (List.mem_of_getElem? hg)
    refine ⟨g.order (first + i), ?_, standsFor_order hget (ha hget).not_flat _⟩
    rw [exitOrders_eq ha, Guard.getElem?_orders, hg, Option.map_some]

/-- Ten shares are held with both levels, and five of another are owed with a take-profit alone. -/
def heldAndOwed : List (Operation Float) :=
  [.fill ⟨"TSLA", -5, 80, 0, none, some ⟨none, some 60⟩⟩, .fill ⟨"AAPL", 10, 100, 0, none, some ⟨some 90, some 120⟩⟩]

/-- Numbered from 7, the third of the exit orders is the one of what is owed, and a purchase of what it trades ends
that. -/
theorem exitOrders_close_owed :
    let a := empty.run usualTerms heldAndOwed
    (a.exitOrders 7).map (fun o => (o.id, o.asset, o.kind)) =
        [(7, "AAPL", .stop 90), (8, "AAPL", .limit 120), (9, "TSLA", .limit 60)] ∧
      ∃ o outcome b, (a.exitOrders 7)[2]? = some o ∧
        a.apply usualTerms ⟨"TSLA", o.signedQuantity, 70, 1, none, none⟩ = .ok (outcome, b) ∧
        outcome.kind = .closed ∧ b.get? "TSLA" = none := by
  intro a
  obtain ⟨-, -, -, hstands⟩ := exitOrders_close usualTerms heldAndOwed 7
  have hlevel : (a.guards[2]?.map fun g => g.position.asset) = some "TSLA" := by decide +kernel
  obtain ⟨g, hg, hasset⟩ := Option.map_eq_some_iff.mp hlevel
  obtain ⟨o, ho, hstandsFor⟩ := hstands 2 g hg
  have hquantity : (a.exitOrders 7)[2]?.map Order.signedQuantity = some 5 := by decide +kernel
  have hfive : o.signedQuantity = 5 := by
    rw [ho] at hquantity
    exact Option.some.inj hquantity
  have hok : (a.apply usualTerms ⟨"TSLA", 5, 70, 1, none, none⟩).toOption.isSome = true := by decide +kernel
  obtain ⟨⟨outcome, b⟩, hb⟩ := Option.isSome_iff_exists.mp hok
  rw [toOption_eq_some_iff, ← hfive] at hb
  have hown : o.asset = "TSLA" := hstandsFor.asset_eq.trans hasset
  obtain ⟨hkind, hgone⟩ := hstandsFor.ends usualTerms _ hown.symm rfl outcome b hb
  exact ⟨by decide +kernel, o, outcome, b, ho, hb, hkind, hown ▸ hgone⟩

end Account

end Holdings
