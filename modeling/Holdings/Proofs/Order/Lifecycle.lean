import Mathlib
import Holdings.Proofs.Call
import Holdings.Proofs.Session.Orders

/-!
# The life of an order

An order that rests is put to bars, under one rule or another, and may be withdrawn at any time. Deciding it writes to
it: that its stop was reached while the limit is still to be looked at, and that it was filled at the end.

* `Order.decideInPlace_on` — write by write, this comes to what `Order.decide` says at once;
* `Order.turn_regular` — what one request does to an order;
* `Order.life_cycle` — what any sequence of requests does: only the status changes, there is one fill at most, and what
  is done stays done.
-/

namespace Holdings

variable {α : Type} [Quantity α]

namespace Order

/-! ## Deciding in place -/

/-- The decision on an open order. That the stop of a stop-limit was reached is written before its limit is looked
at. -/
def decideOpenInPlace (rule : FillRule) (b : Bar α) : Call (Order α) (OrderFault α) (Decision α) := do
  let o ← get
  match o.kind, o.status with
  | .stop stop, _ => return o.decideStop rule stop b
  | .limit limit, _ => return o.decideLimit limit b
  | .stopLimit stop limit, .active =>
    if b.reachesStop o.side stop then do
      modify fun o => { o with status := .triggered }
      match rule.activation with
      | .nextBar => return .stopTriggered
      | .sameBar =>
        match o.decideLimit limit b with
        | .filled execution => return .filled execution
        | _ => return .stopTriggered
    else return .noFill
  | .stopLimit _ limit, _ => return o.decideLimit limit b

/-- Writes that an order was filled, if it was decided so. -/
def recordFill : Decision α → Call (Order α) (OrderFault α) Unit
  | .filled _ => modify fun o => { o with status := .filled }
  | _ => return ()

/-- Decides an order against a bar. -/
def decideInPlace (rule : FillRule) (b : Bar α) : Call (Order α) (OrderFault α) (Decision α) := do
  let o ← get
  match o.check with
  | .error fault => throw fault
  | .ok _ =>
    if o.asset ≠ b.asset then throw ⟨o.id, .asset o.asset b.asset⟩
    else if !o.isOpen || b.isVoid then return .noFill
    else do
      let decision ← decideOpenInPlace rule b
      recordFill decision
      return decision

/-- Withdraws an order that is still waiting. -/
def cancelInPlace : Call (Order α) (OrderFault α) Unit := do
  if (← get).isOpen then modify fun o => { o with status := .cancelled }
  else return ()

theorem recordFill_decideLimit_on (b : Bar α) (o : Order α) (limit : α) :
    (recordFill (o.decideLimit limit b)).on o = (.ok (), o.after (o.decideLimit limit b)) := by
  rw [decideLimit]
  split_ifs <;> rfl

theorem recordFill_decideStop_on (rule : FillRule) (b : Bar α) (o : Order α) (stop : α) :
    (recordFill (o.decideStop rule stop b)).on o = (.ok (), o.after (o.decideStop rule stop b)) := by
  rw [decideStop]
  split_ifs <;> rfl

/-- **What is written in the midst of a decision agrees with it in the end**: the order is left as it is after the
decision. -/
theorem decideOpenInPlace_on (rule : FillRule) (b : Bar α) (o : Order α) :
    (decideOpenInPlace rule b >>= fun d => recordFill d >>= fun _ => pure d).on o =
      (.ok (o.decideOpen rule b), o.after (o.decideOpen rule b)) := by
  simp only [decideOpenInPlace, Call.on_bind, Call.on_get]
  rw [decideOpen]
  rcases hkind : o.kind with stop | ⟨stop, limit⟩ | limit
  · simp only [Call.on_pure, recordFill_decideStop_on]
  · rcases hstatus : o.status with - | - | - | -
    · -- the stop of a stop-limit that is active
      dsimp only
      split_ifs
      · simp only [Call.on_bind, Call.on_modify]
        rcases rule.activation with - | -
        · rfl
        · dsimp only
          rcases o.decideLimit limit b with - | - | execution <;> rfl
      · rfl
    all_goals simp only [Call.on_pure, recordFill_decideLimit_on]
  · simp only [Call.on_pure, recordFill_decideLimit_on]

theorem decideInPlace_on (rule : FillRule) (b : Bar α) (o : Order α) :
    (decideInPlace rule b).on o = Call.atOnce o (o.decide rule b) := by
  have hguard : (!o.isOpen || b.isVoid) = !(o.isOpen && !b.isVoid) := by
    cases o.isOpen <;> simp
  simp only [decideInPlace, Call.on_bind, Call.on_get, hguard]
  rw [Order.decide]
  rcases o.check with fault | u
  · rfl
  dsimp only
  rcases o.isOpen && !b.isVoid with - | -
  · simp only [Bool.not_false, if_true, Bool.false_eq_true, if_false]
    split_ifs <;> rfl
  · simp only [Bool.not_true, if_true, Bool.false_eq_true, if_false]
    split_ifs
    · rfl
    · exact decideOpenInPlace_on rule b o

omit [Quantity α] in
theorem cancelInPlace_on (o : Order α) : cancelInPlace.on o = (.ok (), o.cancel) := by
  simp only [cancelInPlace, Call.on_bind, Call.on_get, cancel]
  split_ifs <;> rfl

/-! ## Decisions -/

section Decisions

variable {rule : FillRule} {b : Bar α} {o : Order α}

/-- An order that is decided has no flaw, and the bar is one of its asset. -/
theorem decide_eq_ok {d : Decision α} {next : Order α} (h : o.decide rule b = .ok (d, next)) :
    o.check = .ok () ∧ o.asset = b.asset ∧ d = o.decisionOn rule b ∧ next = o.advance rule b := by
  rcases hcheck : o.check with fault | ⟨⟨⟩⟩
  · rw [Order.decide, hcheck] at h
    cases h
  · by_cases hasset : o.asset = b.asset
    · rw [decide_eq hcheck hasset] at h
      obtain ⟨rfl, rfl⟩ := Prod.mk.inj (Except.ok.inj h)
      exact ⟨rfl, hasset, rfl, rfl⟩
    · rw [Order.decide, hcheck] at h
      simp only [bind, Except.bind, ne_eq, hasset, not_false_eq_true, if_true] at h
      cases h

/-- **An order is decided unless it is flawed or the bar is one of another asset.** -/
theorem decide_isError_iff :
    (∃ fault, o.decide rule b = .error fault) ↔ o.check ≠ .ok () ∨ o.asset ≠ b.asset := by
  constructor
  · rintro ⟨fault, h⟩
    by_contra hsound
    simp only [not_or, not_not] at hsound
    rw [decide_eq hsound.1 hsound.2] at h
    cases h
  · intro hflawed
    rcases hd : o.decide rule b with fault | ⟨d, next⟩
    · exact ⟨fault, rfl⟩
    · obtain ⟨hcheck, hasset, -, -⟩ := decide_eq_ok hd
      exact absurd hflawed (by simp [hcheck, hasset])

/-- A stop is reached and filled, or nothing is done. -/
theorem decideStop_cases (rule : FillRule) (o : Order α) (stop : α) (b : Bar α) :
    o.decideStop rule stop b = .noFill ∨
      ∃ x : Execution α, x.quantity = o.quantity ∧ o.decideStop rule stop b = .filled x := by
  rw [decideStop]
  split_ifs
  · exact .inr ⟨_, rfl, rfl⟩
  · exact .inr ⟨_, rfl, rfl⟩
  · exact .inl rfl

/-- A limit is reached and filled, or nothing is done. -/
theorem decideLimit_cases (o : Order α) (limit : α) (b : Bar α) :
    o.decideLimit limit b = .noFill ∨
      ∃ x : Execution α, x.quantity = o.quantity ∧ o.decideLimit limit b = .filled x := by
  rw [decideLimit]
  split_ifs
  · exact .inr ⟨_, rfl, rfl⟩
  · exact .inl rfl

/-- **What is decided of an open order**: nothing; or that its stop is reached, if it is a stop-limit that has not come
so far; or a fill of its whole quantity. -/
theorem decideOpen_cases (rule : FillRule) (o : Order α) (b : Bar α) :
    o.decideOpen rule b = .noFill ∨
      (o.decideOpen rule b = .stopTriggered ∧ o.status = .active ∧
        ∃ stop limit, o.kind = .stopLimit stop limit) ∨
      ∃ x : Execution α, x.quantity = o.quantity ∧ o.decideOpen rule b = .filled x := by
  rw [decideOpen]
  rcases hkind : o.kind with stop | ⟨stop, limit⟩ | limit
  · exact (decideStop_cases rule o stop b).imp_right .inr
  · rcases hstatus : o.status with - | - | - | -
    · dsimp only
      split_ifs
      · rcases rule.activation with - | -
        · exact .inr (.inl ⟨rfl, rfl, stop, limit, rfl⟩)
        · rcases decideLimit_cases o limit b with hnone | ⟨x, hx, hfilled⟩
          · rw [hnone]
            exact .inr (.inl ⟨rfl, rfl, stop, limit, rfl⟩)
          · rw [hfilled]
            exact .inr (.inr ⟨x, hx, rfl⟩)
      · exact .inl rfl
    all_goals exact (decideLimit_cases o limit b).imp_right .inr
  · exact (decideLimit_cases o limit b).imp_right .inr

/-- What a bar decides of an order, and that it waits if anything is decided. -/
theorem decisionOn_cases (rule : FillRule) (b : Bar α) (o : Order α) :
    o.decisionOn rule b = .noFill ∨
      (o.decisionOn rule b = .stopTriggered ∧ o.status = .active ∧
        ∃ stop limit, o.kind = .stopLimit stop limit) ∨
      ∃ x : Execution α, x.quantity = o.quantity ∧ o.decisionOn rule b = .filled x ∧ o.isOpen = true := by
  rw [decisionOn]
  split_ifs with hguard
  · have hopen : o.isOpen = true := by
      simp only [Bool.and_eq_true] at hguard
      exact hguard.2.1
    rcases decideOpen_cases rule o b with hnone | htriggered | ⟨x, hx, hfilled⟩
    · exact .inl hnone
    · exact .inr (.inl htriggered)
    · exact .inr (.inr ⟨x, hx, hfilled, hopen⟩)
  · exact .inl rfl

end Decisions

/-! ## Requests -/

/-- What can be asked of an order that rests. -/
inductive Action (α : Type) where
  /-- to be decided against a bar -/
  | decide (rule : FillRule) (bar : Bar α)
  /-- to be withdrawn -/
  | cancel

namespace Action

/-- What an action does in place; a withdrawal answers nothing. -/
def inPlace : Action α → Call (Order α) (OrderFault α) (Option (Decision α))
  | .decide rule b => do return some (← decideInPlace rule b)
  | .cancel => do
    cancelInPlace
    return none

/-- What an action does at once. -/
def function : Action α → Order α → Except (OrderFault α) (Option (Decision α) × Order α)
  | .decide rule b, o => (o.decide rule b).map fun x => (some x.1, x.2)
  | .cancel, o => .ok (none, o.cancel)

theorem inPlace_on (x : Action α) (o : Order α) : x.inPlace.on o = Call.atOnce o (x.function o) := by
  cases x with
  | decide rule b =>
    simp only [inPlace, function, Call.on_bind, decideInPlace_on]
    rcases o.decide rule b with fault | ⟨d, next⟩ <;> rfl
  | cancel =>
    simp only [inPlace, function, Call.on_bind, cancelInPlace_on]
    rfl

end Action

/-- An action that was asked of an order, with what came of it. -/
structure Turn (α : Type) where
  /-- the order that was asked -/
  before : Order α
  /-- what was asked -/
  action : Action α
  /-- what was answered -/
  answer : Except (OrderFault α) (Option (Decision α))
  /-- the order that was left -/
  after : Order α

/-- Asks an action of an order, in place. -/
def turn (o : Order α) (x : Action α) : Turn α := ⟨o, x, (x.inPlace.on o).1, (x.inPlace.on o).2⟩

/-- Asks one action after another. -/
def course : Order α → List (Action α) → List (Turn α)
  | _, [] => []
  | o, x :: rest => o.turn x :: (o.turn x).after.course rest

/-- The order that is left by one action after another. -/
def left (o : Order α) (actions : List (Action α)) : Order α :=
  actions.foldl (fun next x => (next.turn x).after) o

omit [Quantity α] in
/-- Filled or withdrawn. -/
def IsDone (o : Order α) : Prop := o.status = .filled ∨ o.status = .cancelled

omit [Quantity α] in
theorem isOpen_eq_false_iff {o : Order α} : o.isOpen = false ↔ o.IsDone := by
  rw [isOpen, IsDone]
  cases o.status <;> simp

namespace Turn

omit [Quantity α] in
/-- The order was filled. -/
def fills (x : Turn α) : Bool :=
  match x.answer with
  | .ok (some (.filled _)) => true
  | _ => false

omit [Quantity α] in
theorem fills_iff {x : Turn α} : x.fills = true ↔ ∃ e, x.answer = .ok (some (.filled e)) := by
  rw [fills]
  split
  · next e he => exact ⟨fun _ => ⟨e, he⟩, fun _ => rfl⟩
  · next hother => exact ⟨fun h => absurd h Bool.false_ne_true, fun ⟨e, he⟩ => absurd he (hother e)⟩

/-- **A turn in the life of an order**, which is the order `o` at some status. -/
structure Regular (o : Order α) (x : Turn α) : Prop where
  /-- what was done in place is what is done at once -/
  at_once : (x.answer, x.after) = Call.atOnce x.before (x.action.function x.before)
  /-- only the status changes -/
  kept : x.after = { o with status := x.after.status }
  /-- a fill is one of an order that waits, and for its whole quantity -/
  filled : ∀ e, x.answer = .ok (some (.filled e)) →
    e.quantity = o.quantity ∧ x.before.isOpen = true ∧ x.after.status = .filled
  /-- what is done stays done -/
  done : x.before.IsDone → x.after = x.before
  /-- only of a stop-limit that is active, and only as it is answered, the stop is reached -/
  triggered : x.after.status = .triggered → x.before.status ≠ .triggered →
    x.before.status = .active ∧ (∃ stop limit, o.kind = .stopLimit stop limit) ∧
      x.answer = .ok (some .stopTriggered)
  /-- nothing is written where nothing is decided -/
  unchanged : x.answer = .ok (some .noFill) ∨ (∃ fault, x.answer = .error fault) → x.after = x.before
  /-- a decision is refused if the order is flawed or the bar is one of another asset; nothing else is refused -/
  refused : (∃ fault, x.answer = .error fault) ↔
    ∃ rule b, x.action = .decide rule b ∧ (o.check ≠ .ok () ∨ o.asset ≠ b.asset)

/-- The status that an order has at the time does not matter. -/
theorem Regular.of_eq {o o' : Order α} {x : Turn α} {status : OrderStatus} (h : x.Regular o')
    (ho : o' = { o with status := status }) : x.Regular o := by
  subst ho
  exact ⟨h.at_once, h.kept, h.filled, h.done, h.triggered, h.unchanged, h.refused⟩

end Turn

/-! ## What a request does -/

/-- What a withdrawal does. -/
theorem turn_cancel (o : Order α) : o.turn .cancel = ⟨o, .cancel, .ok none, o.cancel⟩ := by
  simp only [turn, Action.inPlace_on]
  rfl

/-- What a decision does. -/
theorem turn_decide (o : Order α) (rule : FillRule) (b : Bar α) :
    (∃ fault, o.decide rule b = .error fault ∧ o.turn (.decide rule b) = ⟨o, .decide rule b, .error fault, o⟩) ∨
      o.decide rule b = .ok (o.decisionOn rule b, o.advance rule b) ∧
        o.turn (.decide rule b) =
          ⟨o, .decide rule b, .ok (some (o.decisionOn rule b)), o.advance rule b⟩ := by
  simp only [turn, Action.inPlace_on, Action.function]
  rcases hd : o.decide rule b with fault | ⟨d, next⟩
  · exact .inl ⟨fault, rfl, rfl⟩
  · obtain ⟨-, -, rfl, rfl⟩ := decide_eq_ok hd
    exact .inr ⟨rfl, rfl⟩

theorem regular_cancel (o : Order α) : (o.turn .cancel).Regular o := by
  rw [turn_cancel]
  refine ⟨rfl, ?_, ?_, ?_, ?_, ?_, ?_⟩
  · rw [cancel]
    split <;> rfl
  · rintro e ⟨⟩
  · intro hdone
    exact if_neg (by rw [isOpen_eq_false_iff.mpr hdone]; exact Bool.false_ne_true)
  · intro hafter hbefore
    dsimp only at hafter hbefore
    rw [cancel] at hafter
    split at hafter
    · cases hafter
    · exact absurd hafter hbefore
  · rintro (⟨⟨⟩⟩ | ⟨fault, ⟨⟩⟩)
  · constructor
    · rintro ⟨fault, ⟨⟩⟩
    · rintro ⟨rule, b, ⟨⟩, -⟩

theorem regular_decide (o : Order α) (rule : FillRule) (b : Bar α) :
    (o.turn (.decide rule b)).Regular o := by
  have hat : ((o.turn (.decide rule b)).answer, (o.turn (.decide rule b)).after) =
      Call.atOnce o ((Action.decide rule b).function o) := Action.inPlace_on (.decide rule b) o
  rcases turn_decide o rule b with ⟨fault, herror, hturn⟩ | ⟨hok, hturn⟩ <;> rw [hturn] at hat ⊢
  · -- refused, it stays as it was
    refine ⟨hat, rfl, ?_, fun _ => rfl, fun hafter hbefore => absurd hafter hbefore, fun _ => rfl, ?_⟩
    · rintro e ⟨⟩
    · exact ⟨fun _ => ⟨rule, b, rfl, decide_isError_iff.mp ⟨fault, herror⟩⟩, fun _ => ⟨fault, rfl⟩⟩
  have hsound : ∀ d : Decision α, (∃ fault, (Except.ok (some d) : Except (OrderFault α) _) = .error fault) ↔
      ∃ rule' b', Action.decide rule b = .decide rule' b' ∧ (o.check ≠ .ok () ∨ o.asset ≠ b'.asset) := by
    intro d
    constructor
    · rintro ⟨fault, ⟨⟩⟩
    · rintro ⟨rule', b', ⟨⟩, hflawed⟩
      obtain ⟨fault, herror⟩ := decide_isError_iff.mpr hflawed
      rw [hok] at herror
      cases herror
  rw [advance] at hat ⊢
  rcases decisionOn_cases rule b o with hnone | ⟨hstop, hactive, hkind⟩ | ⟨x, hx, hfilled, hopen⟩
  · rw [hnone] at hat ⊢
    refine ⟨hat, rfl, ?_, fun _ => rfl, fun hafter hbefore => absurd hafter hbefore, fun _ => rfl, hsound _⟩
    rintro e ⟨⟩
  · rw [hstop] at hat ⊢
    refine ⟨hat, rfl, ?_, fun hdone => ?_, fun _ _ => ⟨hactive, hkind, rfl⟩, ?_, hsound _⟩
    · rintro e ⟨⟩
    · rcases hdone with h | h <;> rw [hactive] at h <;> cases h
    · rintro (⟨⟨⟩⟩ | ⟨fault, ⟨⟩⟩)
  · rw [hfilled] at hat ⊢
    refine ⟨hat, rfl, ?_, fun hdone => ?_, ?_, ?_, hsound _⟩
    · rintro e ⟨⟩
      exact ⟨hx, hopen, rfl⟩
    · rw [isOpen_eq_false_iff.mpr hdone] at hopen
      cases hopen
    · rintro ⟨⟩
    · rintro (⟨⟨⟩⟩ | ⟨fault, ⟨⟩⟩)

/-- **One action** is a turn in the life of the order. -/
theorem turn_regular (o : Order α) (x : Action α) : (o.turn x).Regular o := by
  cases x with
  | decide rule b => exact regular_decide o rule b
  | cancel => exact regular_cancel o

/-! ## Any number of actions -/

/-- Each action is a turn in the life of the order that was there first. -/
theorem course_regular (actions : List (Action α)) : ∀ o : Order α, ∀ x ∈ o.course actions, x.Regular o := by
  induction actions with
  | nil =>
    rintro o x ⟨⟩
  | cons a rest ih =>
    intro o x hx
    have hfirst := turn_regular o a
    rcases List.mem_cons.mp hx with rfl | hlater
    · exact hfirst
    · exact (ih _ x hlater).of_eq hfirst.kept

/-- **What is done stays done**, and is not filled any more. -/
theorem course_of_isDone (actions : List (Action α)) : ∀ {o : Order α}, o.IsDone →
    o.left actions = o ∧ ∀ x ∈ o.course actions, x.fills = false := by
  induction actions with
  | nil =>
    intro o _
    exact ⟨rfl, by rintro x ⟨⟩⟩
  | cons a rest ih =>
    intro o hdone
    have hfirst := turn_regular o a
    have hsame : (o.turn a).after = o := hfirst.done hdone
    obtain ⟨hleft, hfills⟩ := ih hdone
    refine ⟨?_, fun x hx => ?_⟩
    · rw [left, List.foldl_cons, hsame]
      exact hleft
    · rw [course, hsame] at hx
      rcases List.mem_cons.mp hx with rfl | hlater
      · by_contra hfilled
        obtain ⟨e, he⟩ := Turn.fills_iff.mp (Bool.of_not_eq_false hfilled)
        have hopen : o.isOpen = true := (hfirst.filled e he).2.1
        rw [isOpen_eq_false_iff.mpr hdone] at hopen
        cases hopen
      · exact hfills x hlater

/-- An order is filled once at most. -/
theorem countP_fills_le_one (actions : List (Action α)) :
    ∀ o : Order α, (o.course actions).countP Turn.fills ≤ 1 := by
  induction actions with
  | nil =>
    intro o
    exact Nat.zero_le 1
  | cons a rest ih =>
    intro o
    rw [course, List.countP_cons]
    split
    · next hfills =>
      obtain ⟨e, he⟩ := Turn.fills_iff.mp hfills
      have hdone : (o.turn a).after.IsDone := .inl ((turn_regular o a).filled e he).2.2
      rw [List.countP_eq_zero.mpr fun x hx => by simp [(course_of_isDone rest hdone).2 x hx]]
    · exact ih _

/-- **The life of an order.** Whatever its status is at first, and however it is put to bars and withdrawn: number,
asset, side, kind and quantity stay; of the decisions one at most is a fill, which is for the whole quantity; what is
filled or withdrawn stays so; that its stop was reached is written of a stop-limit that is active, and as this is
answered; where nothing is decided nothing is written; and a decision is refused if the order is flawed or the bar is
one of another asset, and only then. -/
theorem life_cycle (o : Order α) (actions : List (Action α)) :
    (∀ x ∈ o.course actions, x.Regular o) ∧
    (o.course actions).countP Turn.fills ≤ 1 ∧
    ∀ n, (o.left (actions.take n)).IsDone → o.left actions = o.left (actions.take n) := by
  refine ⟨course_regular actions o, countP_fills_le_one actions o, fun n hdone => ?_⟩
  have hsplit : o.left actions = (o.left (actions.take n)).left (actions.drop n) := by
    rw [left, left, left, ← List.foldl_append, List.take_append_drop]
  rw [hsplit]
  exact (course_of_isDone _ hdone).1

/-- A seller's stop-limit: one bar reaches the stop, the next one the limit, and then there is nothing to withdraw. -/
example :
    let o : Order Rat := ⟨1, "SPY", .sell, .stopLimit 95 96, 10, .active⟩
    let bar : Rat → Action Rat := fun price => .decide ⟨.atOpen, .nextBar⟩ (.tick "SPY" ⟨0, 0, 0⟩ price)
    (o.course [bar 94, bar 97, .cancel]).map (fun x => (x.answer.toOption, x.after.status)) =
      [(some (some .stopTriggered), .triggered), (some (some (.filled ⟨96, 10, false⟩)), .filled),
        (some none, .filled)] := by
  decide +kernel

end Order

end Holdings
