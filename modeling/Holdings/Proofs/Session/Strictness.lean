import Mathlib
import Holdings.Proofs.Session.Course

/-!
# Runs that stop at a refused event

There are three ways to play a list of events: a run that stops at the first event that is refused, one that passes
over refused events, and no run at all, with `Session.handle` called for one event after another. They go through the
same sessions.

* `Session.handle_recount` — nothing that is played looks at the counts of events and of refused events, so calling
  `handle` alone differs from a run in these two counts and in nothing else;
* `Session.RefusedAt` — the event at a place is refused by the run that passes over refused events;
* `Session.strict_run_cases` — a strict run ends where that run first refuses an event, or else with it.
-/

namespace Holdings

variable {α : Type} [Quantity α]

namespace Session

variable {policy : Policy α}

/-! ## The counts of events -/

section Recount

omit [Quantity α] in
/-- A session with other counts of events and of refused events. -/
def recount (events rejected : Nat) (s : Session α) : Session α :=
  s.count fun t => { t with events := events, rejected := rejected }

variable (events rejected : Nat) (s : Session α)

omit [Quantity α] in
theorem recount_recount (events' rejected' : Nat) :
    (s.recount events rejected).recount events' rejected' = s.recount events' rejected' := rfl

theorem fill_recount (f : Fill α) :
    (s.recount events rejected).fill policy f = (s.fill policy f).map (recount events rejected) := by
  rw [fill, fill]
  have haccount : (s.recount events rejected).account = s.account := rfl
  rw [haccount]
  rcases s.account.apply (terms policy) f with fault | ⟨o, account⟩ <;> rfl

theorem playExit_recount (asset : Asset) (e : FiredExit α) :
    (s.recount events rejected).playExit policy asset e =
      (s.playExit policy asset e).map (recount events rejected) id := by
  have hfired : ({ s.recount events rejected with account := e.account } : Session α).count
        (fun t => { t with exits := t.exits + 1 }) =
      (({ s with account := e.account } : Session α).count
        fun t => { t with exits := t.exits + 1 }).recount events rejected := rfl
  rw [playExit, playExit, hfired, fill_recount]
  rcases (({ s with account := e.account } : Session α).count
    fun t => { t with exits := t.exits + 1 }).fill policy (e.fill policy) with cause | closed <;> rfl

theorem fillDue_recount (b : Bar α) : ∀ (due : List (DueFill α)) (s : Session α),
    fillDue policy b (s.recount events rejected) due =
      (fillDue policy b s due).map (recount events rejected) id
  | [], s => rfl
  | d :: rest, s => by
    rw [fillDue, fillDue, fill_recount]
    rcases s.fill policy (d.fill policy b) with cause | next
    · rfl
    · exact fillDue_recount b rest (next.count fun t => { t with ordersFilled := t.ordersFilled + 1 })

theorem playOrders_recount (b : Bar α) : (s.recount events rejected).playOrders policy b =
    (s.playOrders policy b).map (recount events rejected) id := by
  have horders : (s.recount events rejected).orders = s.orders := rfl
  rw [playOrders, playOrders, horders]
  rcases decideOrders policy.fillRule b s.orders with ⟨orders, fault | due⟩
  · rfl
  · exact fillDue_recount events rejected b due { s with orders := orders.filter Order.isOpen }

theorem playPrices_recount (path : List α) (b : Bar α) :
    (s.recount events rejected).playPrices policy path b =
      (s.playPrices policy path b).map (recount events rejected) id := by
  have haccount : (s.recount events rejected).account = s.account := rfl
  rw [playPrices, playPrices, haccount]
  rcases firstExit? s.account b.asset b.time path with - | e
  · dsimp only
    split
    · exact playOrders_recount events rejected s b
    · rfl
  · exact playExit_recount events rejected s b.asset e

/-- **No event looks at the counts of events**: with other counts it is played alike, and leaves the counts. -/
theorem handle_recount (e : Event α) : (s.recount events rejected).handle policy e =
    (s.handle policy e).map (recount events rejected) id := by
  have haccount : (s.recount events rejected).account = s.account := rfl
  cases e with
  | fill asset quantity price cost time levels =>
    rw [handle, handle, fill_recount]
    rcases s.fill policy (recordedFill policy asset quantity price cost time levels) with
      cause | next <;> rfl
  | mark asset price time =>
    rw [handle, handle, playMark, playMark, haccount]
    rcases s.account.mark asset price time with fault | ⟨held, account⟩
    · rfl
    · exact playPrices_recount events rejected { s with account := account } _ _
  | bar b =>
    rw [handle, handle, playBar, playBar, haccount]
    split
    · rfl
    · split
      · rfl
      · rcases s.account.mark b.asset b.closing b.time with fault | ⟨held, account⟩
        · rfl
        · exact playPrices_recount events rejected { s with account := account } _ _
  | levels asset l =>
    rw [handle, handle, haccount]
    rcases s.account.setLevels (terms policy) asset l with fault | account <;> rfl
  | order o =>
    rw [handle, handle]
    rcases o.check with fault | ⟨⟩ <;> rfl
  | split asset ratio =>
    rw [handle, handle, haccount]
    rcases s.account.split (terms policy) asset ratio with fault | ⟨cash, account⟩ <;> rfl
  | dividend asset perShare =>
    rw [handle, handle, playDividend, playDividend, haccount]
    split
    · rfl
    · rcases s.account.dividend? asset perShare with - | d <;> rfl

/-- A run of calls keeps other counts apart too. -/
theorem foldl_handle_recount (list : List (Event α)) : ∀ s : Session α,
    list.foldl (fun s e => (s.handle policy e).1) (s.recount events rejected) =
      (list.foldl (fun s e => (s.handle policy e).1) s).recount events rejected := by
  induction list with
  | nil => intro s; rfl
  | cons e rest ih =>
    intro s
    rw [List.foldl_cons, List.foldl_cons, handle_recount]
    exact ih (s.handle policy e).1

variable (policy) in
/-- **A step counts its event**, and counts it once more if it is refused. In all else it is the call alone. -/
theorem step_eq_recount (e : Event α) :
    ((s.handle policy e).2 = .ok () ∧ s.step policy e =
        ((s.handle policy e).1.recount (s.tally.events + 1) s.tally.rejected, .ok ())) ∨
      ∃ cause, (s.handle policy e).2 = .error cause ∧ s.step policy e =
        ((s.handle policy e).1.recount (s.tally.events + 1) (s.tally.rejected + 1), .error cause) := by
  have htaken : s.taken.handle policy e =
      (s.handle policy e).map (recount (s.tally.events + 1) s.tally.rejected) id :=
    handle_recount (s.tally.events + 1) s.tally.rejected s e
  rcases step_cases policy s e with ⟨hok, hstep⟩ | ⟨cause, herror, hstep⟩
  · rw [htaken] at hok hstep
    exact .inl ⟨hok, hstep.trans (Prod.ext rfl hok)⟩
  · rw [htaken] at herror hstep
    exact .inr ⟨cause, herror, hstep⟩

/-- A call leaves the counts that the session has. -/
theorem handle_eq_step_recount (e : Event α) :
    (s.handle policy e).1 = (s.step policy e).1.recount s.tally.events s.tally.rejected := by
  have hsame : (s.handle policy e).1 =
      (s.handle policy e).1.recount s.tally.events s.tally.rejected :=
    congrArg Prod.fst (handle_recount s.tally.events s.tally.rejected s e)
  rcases step_eq_recount policy s e with ⟨-, hstep⟩ | ⟨cause, -, hstep⟩ <;> rw [hstep] <;> exact hsame

end Recount

/-! ## Refused events -/

/-- The event at a place of a list is refused, by a run that has passed over the refused ones before it. -/
def RefusedAt (policy : Policy α) (s : Session α) (events : List (Event α)) (k : Nat) (e : Event α)
    (cause : Rejection α) : Prop :=
  events[k]? = some e ∧ ((s.run policy false (events.take k)).1.step policy e).2 = .error cause

/-- The first event of a list that is refused. -/
structure FirstRefusedAt (policy : Policy α) (s : Session α) (events : List (Event α)) (k : Nat)
    (e : Event α) (cause : Rejection α) : Prop where
  /-- it is refused -/
  refused : s.RefusedAt policy events k e cause
  /-- and none before it -/
  first : ∀ j < k, ∀ e' cause', ¬s.RefusedAt policy events j e' cause'

section Refused

variable {s : Session α} {e e' : Event α} {rest : List (Event α)} {k : Nat} {cause : Rejection α}

theorem run_cons (s : Session α) (e : Event α) (rest : List (Event α)) :
    (s.run policy false (e :: rest)).1 = ((s.step policy e).1.run policy false rest).1 := by
  simp only [run, runFrom_eq_foldl, List.foldl_cons]

theorem refusedAt_zero_iff :
    s.RefusedAt policy (e :: rest) 0 e' cause ↔ e = e' ∧ (s.step policy e').2 = .error cause := by
  rw [RefusedAt, List.getElem?_cons_zero, Option.some_inj]
  rfl

theorem refusedAt_succ_iff : s.RefusedAt policy (e :: rest) (k + 1) e' cause ↔
    (s.step policy e).1.RefusedAt policy rest k e' cause := by
  rw [RefusedAt, RefusedAt, List.getElem?_cons_succ, List.take_succ_cons, run_cons]

/-- Behind an event that is accepted the first refused one is the first one of the rest. -/
theorem FirstRefusedAt.cons (hok : (s.step policy e).2 = .ok ())
    (h : (s.step policy e).1.FirstRefusedAt policy rest k e' cause) :
    s.FirstRefusedAt policy (e :: rest) (k + 1) e' cause where
  refused := refusedAt_succ_iff.mpr h.refused
  first := by
    intro j hj e'' cause' hrefused
    cases j with
    | zero =>
      obtain ⟨rfl, herror⟩ := refusedAt_zero_iff.mp hrefused
      rw [hok] at herror
      cases herror
    | succ j => exact h.first j (Nat.lt_of_succ_lt_succ hj) e'' cause' (refusedAt_succ_iff.mp hrefused)

end Refused

/-! ## Strict runs -/

/-- **A strict run up to its end**, from any place of a list on: either no event is refused and it ends with the run
that passes over refused events, or it ends where that run first refuses one. -/
theorem runFrom_strict_cases (policy : Policy α) (events : List (Event α)) : ∀ (index : Nat) (s : Session α),
    ((∀ k e cause, ¬s.RefusedAt policy events k e cause) ∧
        s.runFrom policy true index events = ((s.run policy false events).1, .ok ())) ∨
      ∃ k e cause, s.FirstRefusedAt policy events k e cause ∧
        s.runFrom policy true index events =
          ((s.run policy false (events.take (k + 1))).1, .error ⟨index + k, e.asset, cause⟩) ∧
        (s.runFrom policy true index events).1.tally.events = s.tally.events + (k + 1) ∧
        (s.runFrom policy true index events).1.tally.rejected = s.tally.rejected + 1 := by
  induction events with
  | nil =>
    intro index s
    exact .inl ⟨fun k e cause h => (by cases h.1), rfl⟩
  | cons e rest ih =>
    intro index s
    rcases step_eq_recount policy s e with ⟨-, hstep⟩ | ⟨cause, -, hstep⟩
    · -- the event is accepted, so what comes behind it decides
      have hok : (s.step policy e).2 = .ok () := by rw [hstep]
      have hrun : s.runFrom policy true index (e :: rest) =
          (s.step policy e).1.runFrom policy true (index + 1) rest := by rw [runFrom, hstep]
      have hcounts : (s.step policy e).1.tally.events = s.tally.events + 1 ∧
          (s.step policy e).1.tally.rejected = s.tally.rejected := by
        rw [hstep]
        exact ⟨rfl, rfl⟩
      rcases ih (index + 1) (s.step policy e).1 with
        ⟨hnone, hend⟩ | ⟨k, e', cause, hfirst, hend, hevents, hrejected⟩
      · refine .inl ⟨fun k e' cause h => ?_, by rw [hrun, hend, run_cons]⟩
        cases k with
        | zero =>
          obtain ⟨rfl, herror⟩ := refusedAt_zero_iff.mp h
          rw [hok] at herror
          cases herror
        | succ k => exact hnone k e' cause (refusedAt_succ_iff.mp h)
      · refine .inr ⟨k + 1, e', cause, .cons hok hfirst, ?_, ?_, ?_⟩
        · rw [hrun, hend, List.take_succ_cons, run_cons, Nat.add_assoc, Nat.add_comm 1 k]
        · rw [hrun, hevents, hcounts.1]
          omega
        · rw [hrun, hrejected, hcounts.2]
    · -- the event is refused, and the run ends with it
      have hrun : s.runFrom policy true index (e :: rest) =
          ((s.step policy e).1, .error ⟨index, e.asset, cause⟩) := by rw [runFrom, hstep]; rfl
      refine .inr ⟨0, e, cause, ⟨refusedAt_zero_iff.mpr ⟨rfl, by rw [hstep]⟩, ?_⟩, ?_, ?_, ?_⟩
      · intro j hj
        cases hj
      · rw [hrun, List.take_succ_cons, List.take_zero, run_cons]
        rfl
      · rw [hrun, hstep]
        rfl
      · rw [hrun, hstep]
        rfl

/-- A run that passes over refused events does not fail. -/
theorem runFrom_lenient (policy : Policy α) (events : List (Event α)) : ∀ (index : Nat) (s : Session α),
    (s.runFrom policy false index events).2 = .ok () := by
  induction events with
  | nil => intro index s; rfl
  | cons e rest ih =>
    intro index s
    rw [runFrom]
    rcases s.step policy e with ⟨next, cause | ⟨⟩⟩ <;> exact ih (index + 1) next

/-- **A run fails only if it is strict** and an event is refused. -/
theorem run_eq_ok_iff {strict : Bool} {s : Session α} {events : List (Event α)} :
    (s.run policy strict events).2 = .ok () ↔
      strict = false ∨ ∀ k e cause, ¬s.RefusedAt policy events k e cause := by
  cases strict with
  | false => exact iff_of_true (runFrom_lenient policy events 0 s) (.inl rfl)
  | true =>
    rcases runFrom_strict_cases policy events 0 s with ⟨hnone, hend⟩ | ⟨k, e, cause, hfirst, hend, -⟩
    · exact iff_of_true (by rw [run, hend]) (.inr hnone)
    · rw [run, hend]
      constructor
      · intro hok
        cases hok
      · rintro (hlenient | hnone)
        · cases hlenient
        · exact absurd hfirst.refused (hnone k e cause)

/-- Calls one after another lead where a run leads, but for the counts of events, which they leave. -/
theorem foldl_handle_eq_run (events : List (Event α)) : ∀ s : Session α,
    events.foldl (fun s e => (s.handle policy e).1) s =
      (s.run policy false events).1.recount s.tally.events s.tally.rejected := by
  induction events with
  | nil => intro s; rfl
  | cons e rest ih =>
    intro s
    rw [List.foldl_cons, handle_eq_step_recount, foldl_handle_recount, ih, recount_recount, run_cons]

/-- **Three ways to play a list of events.** Either the run that passes over refused events refuses none, and then the
strict run succeeds and ends in the same session; or there is a first event that it refuses, and then the strict run
fails with the place and the asset of that event, and ends in the session of the other run over the events up to and
with it, having counted these events and one refusal. In both cases calls one after another lead to the session of the
run over all events, but for the two counts of events, which stay as they were. -/
theorem strict_run_cases (policy : Policy α) (s : Session α) (events : List (Event α)) :
    ((∀ k e cause, ¬s.RefusedAt policy events k e cause) ∧
        s.run policy true events = ((s.run policy false events).1, .ok ()) ∨
      ∃ k e cause, s.FirstRefusedAt policy events k e cause ∧
        s.run policy true events =
          ((s.run policy false (events.take (k + 1))).1, .error ⟨k, e.asset, cause⟩) ∧
        (s.run policy true events).1.report.tally.events = s.tally.events + (k + 1) ∧
        (s.run policy true events).1.report.tally.rejected = s.tally.rejected + 1) ∧
    events.foldl (fun s e => (s.handle policy e).1) s =
      (s.run policy false events).1.recount s.tally.events s.tally.rejected := by
  refine ⟨?_, foldl_handle_eq_run events s⟩
  rcases runFrom_strict_cases policy events 0 s with
    hnone | ⟨k, e, cause, hfirst, hend, hevents, hrejected⟩
  · exact .inl hnone
  · rw [Nat.zero_add] at hend
    exact .inr ⟨k, e, cause, hfirst, hend, hevents, hrejected⟩

end Session

end Holdings
