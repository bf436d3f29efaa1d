import Holdings.Session

/-!
# Gaps filled at the opening and at the worse price

A stop that a bar opened at or beyond fills at the opening price under `GapRule.atOpen`, and at the worse of the
opening price and the stop under `GapRule.atWorst`. Beyond a stop the opening price is the worse of the two, so nothing
tells the rules apart: not the decision of any order on any bar (`Order.decide_gap_congr`), and not a session.

What carries the second from the first is that a session reads its gap rule nowhere but where it decides orders
(`Session.handle_gap_congr`).
-/

namespace Holdings

variable {α : Type} [Quantity α]

/-! ## Decisions -/

namespace GapRule

/-- Two gap rules that fill a stop at the same price wherever a bar opens at or beyond it. -/
def Concur (α : Type) [Quantity α] (g g' : GapRule) : Prop :=
  ∀ (b : Bar α) (side : Side) (stop : α), b.gaps side stop = true →
    g.price b.opening stop side = g'.price b.opening stop side

/-- **Beyond a stop the opening price is the worse one**, for a seller as for a buyer. -/
theorem concur_atWorst_atOpen : Concur α .atWorst .atOpen := by
  intro b side stop hgaps
  cases side with
  | sell =>
    have hbelow : b.opening ≤ stop := of_decide_eq_true hgaps
    exact if_pos hbelow
  | buy =>
    have habove : stop ≤ b.opening := of_decide_eq_true hgaps
    exact if_pos habove

end GapRule

namespace Order

variable {g g' : GapRule} (h : g.Concur α g') (activation : Activation) (o : Order α) (b : Bar α)
include h

theorem decideStop_gap_congr (stop : α) :
    o.decideStop ⟨g, activation⟩ stop b = o.decideStop ⟨g', activation⟩ stop b := by
  rw [decideStop, decideStop]
  split
  · split
    · next hgaps => rw [h b o.side stop hgaps]
    · rfl
  · rfl

theorem decideOpen_gap_congr : o.decideOpen ⟨g, activation⟩ b = o.decideOpen ⟨g', activation⟩ b := by
  rw [decideOpen, decideOpen]
  rcases o.kind with stop | ⟨stop, limit⟩ | limit
  · exact decideStop_gap_congr h activation o b stop
  · -- a stop-limit fills at its limit alone, however the bar opens
    cases o.status <;> rfl
  · rfl

/-- **Rules that concur decide alike**: every order on every bar, down to the reason why it cannot be decided and to
the order as it stands afterwards. -/
theorem decide_gap_congr : o.decide ⟨g, activation⟩ b = o.decide ⟨g', activation⟩ b := by
  rw [Order.decide, Order.decide, decideOpen_gap_congr h]

end Order

/-! ## Sessions -/

namespace Session

variable {g g' : GapRule} (h : g.Concur α g') (policy : Policy α)
include h

theorem decideOrders_gap_congr (activation : Activation) (b : Bar α) (orders : List (Order α)) :
    decideOrders ⟨g, activation⟩ b orders = decideOrders ⟨g', activation⟩ b orders := by
  induction orders with
  | nil => rfl
  | cons o rest ih => rw [decideOrders, decideOrders, Order.decide_gap_congr h, ih]

omit h in
/-- Fills that are due are applied without a look at the gap rule. -/
theorem fillDue_withGap (b : Bar α) (due : List (DueFill α)) :
    ∀ s : Session α, fillDue { policy with gap := g } b s due = fillDue policy b s due := by
  induction due with
  | nil => intro s; rfl
  | cons d rest ih =>
    intro s
    have hfill : s.fill { policy with gap := g } (d.fill { policy with gap := g } b) =
        s.fill policy (d.fill policy b) := rfl
    rw [fillDue, fillDue, hfill]
    rcases s.fill policy (d.fill policy b) with cause | next
    · rfl
    · exact ih _

theorem playOrders_gap_congr (s : Session α) (b : Bar α) :
    s.playOrders { policy with gap := g } b = s.playOrders { policy with gap := g' } b := by
  have hdecided := decideOrders_gap_congr h policy.activation b s.orders
  rw [playOrders, playOrders]
  simp only [Policy.fillRule, hdecided, fillDue_withGap]

/-- Exits are carried out without a look at the gap rule, so prices are played alike. -/
theorem playPrices_gap_congr (s : Session α) (path : List α) (b : Bar α) :
    s.playPrices { policy with gap := g } path b = s.playPrices { policy with gap := g' } path b := by
  rw [playPrices, playPrices, playOrders_gap_congr h]
  rfl

/-- **Every event is played alike under rules that concur.** -/
theorem handle_gap_congr (s : Session α) (e : Event α) :
    s.handle { policy with gap := g } e = s.handle { policy with gap := g' } e := by
  cases e with
  | mark asset price time =>
    rw [handle, handle, playMark, playMark]
    simp only [playPrices_gap_congr h policy]
  | bar b =>
    rw [handle, handle, playBar, playBar]
    simp only [playPrices_gap_congr h policy]
  | _ => rfl

theorem step_gap_congr (s : Session α) (e : Event α) :
    s.step { policy with gap := g } e = s.step { policy with gap := g' } e := by
  rw [step, step, handle_gap_congr h]

theorem runFrom_gap_congr (strict : Bool) (events : List (Event α)) : ∀ (index : Nat) (s : Session α),
    s.runFrom { policy with gap := g } strict index events =
      s.runFrom { policy with gap := g' } strict index events := by
  induction events with
  | nil => intro index s; rfl
  | cons e rest ih =>
    intro index s
    rw [runFrom, runFrom, step_gap_congr h]
    rcases s.step { policy with gap := g' } e with ⟨next, cause | ⟨⟩⟩
    · dsimp only
      rw [ih]
    · exact ih _ _

omit h in
/-- **Filling a gap at the worse price is filling it at the opening.** Under two policies that differ in nothing else,
every order is decided alike on every bar; every event takes every session to the same session, accepted or refused for
the same reason; and every run, strict or not, ends alike and reports the same. -/
theorem atWorst_eq_atOpen (policy : Policy α) :
    let worst : Policy α := { policy with gap := .atWorst }
    let opening : Policy α := { policy with gap := .atOpen }
    (∀ (o : Order α) (b : Bar α), o.decide worst.fillRule b = o.decide opening.fillRule b) ∧
      (∀ (s : Session α) (e : Event α), s.step worst e = s.step opening e) ∧
      ∀ (s : Session α) (strict : Bool) (events : List (Event α)),
        s.run worst strict events = s.run opening strict events ∧
          (s.run worst strict events).1.report = (s.run opening strict events).1.report := by
  intro worst opening
  have hconcur : GapRule.Concur α .atWorst .atOpen := GapRule.concur_atWorst_atOpen
  refine ⟨Order.decide_gap_congr hconcur policy.activation, step_gap_congr hconcur policy, ?_⟩
  intro s strict events
  have hrun : s.run worst strict events = s.run opening strict events :=
    runFrom_gap_congr hconcur policy strict events 0 s
  exact ⟨hrun, by rw [hrun]⟩

end Session

end Holdings
