import Mathlib
import Holdings.Proofs.Account.Reconciliation
import Holdings.Proofs.Session.Course

/-!
# Cash and profit of a session agree

In exact arithmetic, and without splits, the report of a session balances: the profit, realised or not, is the
cash that all fills brought together with the worth of what is still held. The one thing that can set the two
sides apart is a remainder that was dropped when a fill ended a position.

The balance is the value of the run of operations that the session performs (`Account.run_value`), read off the
report.
-/

namespace Holdings

namespace Session

variable {policy : Policy Rat}

/-- An event that is no split performs trading operations only. -/
theorem operations_trading (s : Session Rat) {e : Event Rat} (he : e.isSplit = false) :
    ∀ op ∈ s.operations policy e, op.isTrading = true := by
  intro op hop
  rcases mem_operations hop with ⟨-, htrading⟩ | ⟨x, exit, -, -, rfl⟩
  · rw [htrading, he, Bool.not_false]
  · rfl

theorem operationsOf_trading (policy : Policy Rat) : ∀ {events : List (Event Rat)} {s : Session Rat},
    (∀ e ∈ events, e.isSplit = false) →
    ∀ op ∈ s.operationsOf policy events, op.isTrading = true
  | [], _, _, op, hop => by cases hop
  | e :: rest, s, h, op, hop => by
    rw [operationsOf] at hop
    rcases List.mem_append.mp hop with hfirst | hrest
    · exact operations_trading s.taken (h e (List.mem_cons_self ..)) op hfirst
    · exact operationsOf_trading policy (fun e' he' => h e' (List.mem_cons_of_mem _ he')) op hrest

/-- The cash of a run is the cash of the fills it applied. -/
theorem netCash_run (policy : Policy Rat) (events : List (Event Rat)) :
    (start.run policy false events).1.tally.netCash =
      ((start.journal policy events).map fun x => x.fill.netCash).sum := by
  -- the tally adds in the order of the fills, so the induction is for any cash to begin with
  have hfold : ∀ (fills : List (Applied Rat)) (cash : Rat),
      fills.foldl (fun cash x => cash + x.fill.netCash) cash =
        cash + (fills.map fun x => x.fill.netCash).sum := by
    intro fills
    induction fills with
    | nil => intro cash; simp
    | cons x rest ih =>
      intro cash
      rw [List.foldl_cons, ih, List.map_cons, List.sum_cons, add_assoc]
  rw [(run_performs start events).netCash, hfold]
  exact zero_add _

/-- The profit less the outlay after a run is the value of the fills it applied. -/
theorem outlay_run (policy : Policy Rat) {events : List (Event Rat)} (h : ∀ e ∈ events, e.isSplit = false) :
    (start.run policy false events).1.account.realized -
        (start.run policy false events).1.account.outlay =
      Applied.value policy.settlement (start.journal policy events) := by
  rw [(run_performs start events).account,
    Account.run_value (operationsOf_trading policy h)]
  have hstart : (start : Session Rat).account.realized - (start : Session Rat).account.outlay = 0 := by
    simp [start, Account.empty, Account.outlay]
  rw [hstart, zero_add]
  rfl

/-- A fill that ended a position left nothing. -/
theorem amount_of_closing {events : List (Event Rat)} {x : Applied Rat}
    (hx : x ∈ start.journal policy events) (hkind : x.outcome.kind = .closed) :
    x.outcome.amount = 0 :=
  Account.amount_of_closed hx hkind

/-- **Cash and profit agree.** However fills, exits and resting orders came about, and whatever events were refused
among them: without splits, profit and cash with worth differ by the residues of the fills that ended a position,
and not at all where no remainder was dropped. -/
theorem report_balances (policy : Policy Rat) (events : List (Event Rat))
    (h : ∀ e ∈ events, e.isSplit = false) :
    let report := (start.run policy false events).1.report
    let fills := start.journal policy events
    (report.realized + report.unrealized) - (report.tally.netCash + report.marketValue) =
        ((Applied.closings fills).map (Applied.residue policy.settlement)).sum ∧
      ((∀ x ∈ fills, ¬x.Snapped) →
        report.realized + report.unrealized = report.tally.netCash + report.marketValue) := by
  intro report fills
  have hbalance : (report.realized + report.unrealized) -
      (report.tally.netCash + report.marketValue) =
        ((Applied.closings fills).map (Applied.residue policy.settlement)).sum := by
    have houtlay := outlay_run policy h
    rw [Applied.value, ← netCash_run] at houtlay
    simp only [report, Session.report, Account.unrealized_eq]
    linear_combination houtlay
  refine ⟨hbalance, fun hsnap => ?_⟩
  have hnone : ((Applied.closings fills).map (Applied.residue policy.settlement)).sum = 0 := by
    refine List.sum_eq_zero fun r hr => ?_
    obtain ⟨x, hx, rfl⟩ := List.mem_map.mp hr
    obtain ⟨hmem, hkind⟩ := List.mem_filter.mp hx
    have hzero := amount_of_closing hmem (by simpa using hkind)
    have hsum : x.held.amount + x.fill.quantity = 0 := by
      by_contra hne
      exact hsnap x hmem ⟨hzero, hne⟩
    rw [Applied.residue, hsum, zero_mul]
  rw [hnone] at hbalance
  linear_combination hbalance

/-- With a smallest fill of one share, selling nine and a half shares of ten drops half a share: at 110 the profit
is ahead of the cash by 55. -/
theorem report_balances_dropped :
    let policy : Policy Rat := { Policy.usual with minimum := 1 }
    let events : List (Event Rat) :=
      [.fill "SPY" 10 100 none none .unset, .fill "SPY" (-19 / 2) 110 none none .unset]
    let report := (start.run policy false events).1.report
    (∀ e ∈ events, e.isSplit = false) ∧
      (report.realized + report.unrealized) - (report.tally.netCash + report.marketValue) = 55 := by
  intro policy events report
  have hsplit : ∀ e ∈ events, e.isSplit = false := by simp [events, Event.isSplit]
  have hresidue : ((Applied.closings (start.journal policy events)).map
      (Applied.residue policy.settlement)).sum = 55 := by decide +kernel
  exact ⟨hsplit, (report_balances policy events hsplit).1.trans hresidue⟩

end Session

end Holdings
