import Mathlib
import Holdings.Command.Files
import Holdings.Decimal.Shortest
import Holdings.Proofs.Form.Report
import Holdings.Proofs.Session.Strictness

/-!
# What a replay leaves behind

A replay reads a policy and a list of events, plays the events, writes a snapshot if it is to, and prints a report.
Every step but the last can fail. A replay that fails at any of them has printed nothing and written nothing. What one
that succeeds has printed and written can be read back.

* `Store` — anything that texts are read from and written to, if only a write that fails leaves it as it was. The
  files in memory are one (`Files.store`);
* `Store.Succeeds` — what has to hold for a replay to succeed, and what store it leaves then;
* `Store.replay_cases` — a replay succeeds exactly then, and otherwise leaves no trace;
* `Store.replay_all_or_nothing` — so it is for every command line that asks for a replay.
-/

namespace Holdings

/-- Something to read texts from and write texts to, by their paths. A write that fails gives no new state, and so
leaves the one there was. -/
structure Store (σ : Type) where
  /-- the text at a path, if it can be read -/
  read? : σ → String → Option String
  /-- the state with a text at a path, if it can be written -/
  write? : σ → String → String → Option σ
  /-- a path where a text is taken and not kept -/
  isSink : String → Bool
  /-- what was written is read -/
  read?_write? : ∀ {s s' : σ} {path text : String}, write? s path text = some s' → isSink path = false →
    read? s' path = some text

/-- The files in memory. -/
def Files.store : Store Files where
  read? := read?
  write? := write?
  isSink path := path = sink
  read?_write? := by
    intro files files' path text h hsink
    have hsink : path ≠ sink := by simpa using hsink
    rw [write?, if_neg hsink] at h
    obtain ⟨steps, hsteps, hwritten⟩ := Option.bind_eq_some_iff.mp h
    split at hwritten
    · obtain rfl := Option.some.inj hwritten
      rw [read?, if_neg hsink, hsteps]
      simp
    · cases hwritten

namespace Store

variable {σ : Type} (store : Store σ)

/-- Access to a store. -/
def access : Access (StateM σ) where
  read path := do return store.read? (← get) path
  write path text := do
    match store.write? (← get) path text with
    | none => return false
    | some s =>
      set s
      return true

/-- Reading changes nothing. -/
theorem run_read_bind {β : Type} (files : σ) (path : String) (next : Option String → StateM σ β) :
    (store.access.read path >>= next).run files = (next (store.read? files path)).run files := rfl

/-- What comes after a call finds what the call left. -/
theorem run_bind_of_run {β γ : Type} {c : StateM σ β} {next : β → StateM σ γ} {x : β} {files after : σ}
    (h : c.run files = (x, after)) : (c >>= next).run files = (next x).run after := by
  rw [StateT.run_bind, h]
  rfl

/-- A write that fails leaves what there was. -/
theorem run_write (files : σ) (path text : String) : (store.access.write path text).run files =
    ((store.write? files path text).isSome, (store.write? files path text).getD files) := by
  change StateT.run (match store.write? files path text with
    | none => (return false : StateM σ Bool)
    | some s => do set s; return true) files = _
  cases store.write? files path text <;> rfl

/-- The access to the files in memory is that to their store. -/
theorem access_files : Files.store.access = Files.access := by
  have hwrite : Files.store.access.write = Files.access.write := by
    funext path text files
    refine (run_write Files.store files path text).trans ?_
    change _ = (Files.access.write path text).run files
    have hsame : Files.store.write? files path text = files.write? path text := rfl
    simp only [Files.access, StateT.run_bind, StateT.run_get, pure_bind, hsame]
    cases files.write? path text <;> rfl
  exact congrArg (Access.mk Files.access.read) hwrite

variable {α : Type} [Numeral α] (files : σ)

/-- The policy that a replay loads: the usual one, or the one that its file describes, which has to pass its check. -/
inductive Loads : Option String → Policy α → Prop where
  /-- no file is named -/
  | usual : Loads none .usual
  /-- a file is named, and read -/
  | file {path text : String} {policy : Policy α} : store.read? files path = some text →
      ((Toml.parse? text).bind fun table => Policy.ofJson? .table table.toJson) = some policy →
      policy.check = .ok () → Loads (some path) policy

/-- The events that a replay reads. -/
def Lists (path : String) (events : List (Event α)) : Prop :=
  ∃ text, store.read? files path = some text ∧ Event.parseList? text = some events

/-- A state that is left when a snapshot is kept, if it has somewhere to go. -/
def Keeps (s : Snapshot α) (snapshotOut : Option String) (after : σ) : Prop :=
  match snapshotOut with
  | none => after = files
  | some out => store.write? files out s.pretty = some after

/-- What a replay that succeeds has found, and the state that it leaves. -/
structure Succeeds (path : String) (config snapshotOut : Option String) (strict : Bool) (policy : Policy α)
    (events : List (Event α)) (after : σ) : Prop where
  /-- its policy is loaded -/
  loads : store.Loads files config policy
  /-- its events are read -/
  lists : store.Lists files path events
  /-- no event is refused, or that does not matter -/
  accepted : strict = false ∨ ∀ k e cause, ¬Session.start.RefusedAt policy events k e cause
  /-- the snapshot of its session is kept -/
  keeps : store.Keeps files (Session.start.run policy strict events).1.account.snapshot snapshotOut after

variable {store files}

theorem Loads.unique {config : Option String} {p q : Policy α} (hp : store.Loads files config p)
    (hq : store.Loads files config q) : p = q := by
  cases hp with
  | usual =>
    cases hq
    rfl
  | file hread hdecode =>
    cases hq with
    | file hread' hdecode' =>
      obtain rfl := Option.some.inj (hread.symm.trans hread')
      exact Option.some.inj (hdecode.symm.trans hdecode')

theorem Lists.unique {path : String} {events events' : List (Event α)} (h : store.Lists files path events)
    (h' : store.Lists files path events') : events = events' := by
  obtain ⟨text, hread, hparse⟩ := h
  obtain ⟨text', hread', hparse'⟩ := h'
  obtain rfl := Option.some.inj (hread.symm.trans hread')
  exact Option.some.inj (hparse.symm.trans hparse')

/-! ## The steps of a replay -/

/-- A text that is read as a policy describes one, which passes its check. -/
theorem parse_eq_ok_iff {text : String} {p : Policy α} : Policy.parse text = .ok p ↔
    ((Toml.parse? text).bind fun table => Policy.ofJson? .table table.toJson) = some p ∧ p.check = .ok () := by
  rw [Policy.parse]
  rcases (Toml.parse? text).bind fun table => (Policy.ofJson? .table table.toJson : Option (Policy α)) with - | q
  · simp
  · dsimp only
    rw [Option.some_inj]
    rcases hcheck : q.check with fault | ⟨⟩
    · refine ⟨nofun, ?_⟩
      rintro ⟨rfl, hok⟩
      rw [hcheck] at hok
      cases hok
    · dsimp only
      rw [Except.ok.injEq]
      constructor
      · rintro rfl
        exact ⟨rfl, hcheck⟩
      · exact And.left

variable (store files) in
/-- Loading a policy reads and writes nothing but the file that is named. -/
theorem policy_cases (config : Option String) :
    (∃ p : Policy α, store.Loads files config p ∧ (store.access.policy config).run files = (.ok p, files)) ∨
      (∀ p : Policy α, ¬store.Loads files config p) ∧
        ∃ cause : Failure α, (store.access.policy config).run files = (.error cause, files) := by
  cases config with
  | none => exact .inl ⟨.usual, .usual, rfl⟩
  | some path =>
    rw [Access.policy, run_read_bind]
    rcases hread : store.read? files path with - | text
    · refine .inr ⟨fun p h => ?_, .config path, rfl⟩
      cases h with
      | file hread' =>
        rw [hread] at hread'
        cases hread'
    · dsimp only
      rcases hparse : (Policy.parse text : Except _ (Policy α)) with fault | p
      · refine .inr ⟨fun p h => ?_, .config path, rfl⟩
        cases h with
        | file hread' hdecode hcheck =>
          obtain rfl := Option.some.inj (hread.symm.trans hread')
          rw [parse_eq_ok_iff.mpr ⟨hdecode, hcheck⟩] at hparse
          cases hparse
      · obtain ⟨hdecode, hcheck⟩ := parse_eq_ok_iff.mp hparse
        exact .inl ⟨p, .file hread hdecode hcheck, rfl⟩

variable (store files) in
/-- Reading the events reads and writes nothing but their file. -/
theorem events_cases (path : String) :
    (∃ events : List (Event α), store.Lists files path events ∧
        (store.access.events path).run files = (.ok events, files)) ∨
      (∀ events : List (Event α), ¬store.Lists files path events) ∧
        ∃ cause : Failure α, (store.access.events path).run files = (.error cause, files) := by
  rw [Access.events, run_read_bind]
  rcases hread : store.read? files path with - | text
  · refine .inr ⟨?_, .eventsFile path, rfl⟩
    rintro events ⟨text, hread', -⟩
    rw [hread] at hread'
    cases hread'
  · dsimp only
    rcases hparse : (Event.parseList? text : Option (List (Event α))) with - | events
    · refine .inr ⟨?_, .eventsText path, rfl⟩
      rintro events ⟨text', hread', hparse'⟩
      obtain rfl := Option.some.inj (hread.symm.trans hread')
      rw [hparse] at hparse'
      cases hparse'
    · exact .inl ⟨events, ⟨text, hread, hparse⟩, rfl⟩

variable (store files) in
/-- A snapshot is kept as a whole or not at all. -/
theorem keep_cases (s : Snapshot α) (snapshotOut : Option String) :
    (∃ after, store.Keeps files s snapshotOut after ∧ (store.access.keep s snapshotOut).run files = (.ok (), after)) ∨
      (∀ after, ¬store.Keeps files s snapshotOut after) ∧
        ∃ cause : Failure α, (store.access.keep s snapshotOut).run files = (.error cause, files) := by
  cases snapshotOut with
  | none => exact .inl ⟨files, rfl, rfl⟩
  | some out =>
    rw [Access.keep, StateT.run_bind, run_write]
    rcases hwrite : store.write? files out s.pretty with - | after
    · refine .inr ⟨fun after h => ?_, .snapshotOut out, rfl⟩
      rw [Keeps, hwrite] at h
      cases h
    · exact .inl ⟨after, hwrite, rfl⟩

/-! ## Replays -/

variable (store files) in
/-- **A replay succeeds exactly if each of its steps does**, and then prints its report. Otherwise it leaves what there
was. -/
theorem replay_cases (path : String) (config snapshotOut : Option String) (strict : Bool) :
    (∃ (policy : Policy α) (events : List (Event α)) (after : σ),
        store.Succeeds files path config snapshotOut strict policy events after ∧
        (store.access.replay path config snapshotOut strict : StateM σ (Ending α)).run files =
          (.done ((Session.start.run policy strict events).1.report.pretty ++ "\n"), after)) ∨
      (∀ (policy : Policy α) (events : List (Event α)) (after : σ),
          ¬store.Succeeds files path config snapshotOut strict policy events after) ∧
        ∃ cause : Failure α,
          (store.access.replay path config snapshotOut strict : StateM σ (Ending α)).run files =
            (.failed cause, files) := by
  rcases store.policy_cases (α := α) files config with ⟨policy, hloads, hpolicy⟩ | ⟨hnone, cause, hpolicy⟩
  case inr =>
    refine .inr ⟨fun policy events after h => hnone policy h.loads, cause, ?_⟩
    simp only [Access.replay, run_bind_of_run hpolicy]
    rfl
  rcases store.events_cases (α := α) files path with ⟨events, hlists, hevents⟩ | ⟨hnone, cause, hevents⟩
  case inr =>
    refine .inr ⟨fun policy events after h => hnone events h.lists, cause, ?_⟩
    simp only [Access.replay, run_bind_of_run hpolicy, run_bind_of_run hevents]
    rfl
  -- no other policy and no other events could be found, so the rest is about their session
  rcases hplayed : Session.start.run policy strict events with ⟨session, abort | ⟨⟩⟩
  · refine .inr ⟨fun policy' events' after h => ?_, .aborted abort, ?_⟩
    · obtain rfl := h.loads.unique hloads
      obtain rfl := h.lists.unique hlists
      have hok := Session.run_eq_ok_iff.mpr h.accepted
      rw [hplayed] at hok
      cases hok
    · simp only [Access.replay, run_bind_of_run hpolicy, run_bind_of_run hevents, hplayed]
      rfl
  · have haccepted := Session.run_eq_ok_iff.mp (congrArg Prod.snd hplayed)
    rcases store.keep_cases files session.account.snapshot snapshotOut with
      ⟨after, hkeeps, hkeep⟩ | ⟨hnone, cause, hkeep⟩
    · refine .inl ⟨policy, events, after, ⟨hloads, hlists, haccepted, by rwa [hplayed]⟩, ?_⟩
      simp only [Access.replay, run_bind_of_run hpolicy, run_bind_of_run hevents, hplayed, run_bind_of_run hkeep]
      rfl
    · refine .inr ⟨fun policy' events' after h => ?_, cause, ?_⟩
      · obtain rfl := h.loads.unique hloads
        obtain rfl := h.lists.unique hlists
        have hkeeps := h.keeps
        rw [hplayed] at hkeeps
        exact hnone after hkeeps
      · simp only [Access.replay, run_bind_of_run hpolicy, run_bind_of_run hevents, hplayed, run_bind_of_run hkeep]
        rfl

theorem run_of_parse {words : List String} {path : String} {config snapshotOut : Option String} {strict : Bool}
    (h : Request.parse words = .ok (.replay path config snapshotOut strict)) :
    (store.access.run words : StateM σ (Ending α)) = store.access.replay path config snapshotOut strict := by
  rw [Access.run, h]

/-- What is kept is the book that the report lists, and can be read back. -/
theorem Keeps.written {session : Session α} {snapshotOut : Option String} {after : σ}
    (h : store.Keeps files session.account.snapshot snapshotOut after) :
    (snapshotOut = none → after = files) ∧
      ∀ out, snapshotOut = some out → ∃ s : Snapshot α,
        s.records = session.report.records ∧ s.realized = session.report.realized ∧
        s.pretty = Layout.lines.text s.toJson ∧ (s.Legible → Snapshot.parse? s.pretty = some s) ∧
        store.write? files out s.pretty = some after ∧
        (store.isSink out = false → store.read? after out = some s.pretty) := by
  cases snapshotOut with
  | none => exact ⟨fun _ => h, nofun⟩
  | some out =>
    refine ⟨nofun, ?_⟩
    rintro out' hout
    obtain rfl := Option.some.inj hout
    exact ⟨session.account.snapshot, rfl, rfl, Json.pretty_eq_text _, Snapshot.parse?_pretty, h, store.read?_write? h⟩

/-- **A replay is all or nothing**, for any command line that asks for one, over any store that a failing write leaves
as it was. If it ends with another code than zero, it has printed nothing and left the store as it was. If it ends with
zero, it has printed the report of the run over the events of its file under the policy that was loaded, one item or
member on a line, and the text is read back as that report, in which a number that is not finite is missing. The store
is the one there was, or, where a snapshot was to be written, has at its path the text of a snapshot with the positions
and the profit of the report; that too stands in lines and is read back. A replay ends with zero exactly if a policy is
loaded that passes its check, the events are read, none of them is refused or the run is not strict, and the snapshot
can be written. -/
theorem replay_all_or_nothing (store : Store σ) (files : σ) {words : List String} {path : String}
    {config snapshotOut : Option String} {strict : Bool}
    (h : Request.parse words = .ok (.replay path config snapshotOut strict)) :
    let result := (store.access.run words : StateM σ (Ending α)).run files
    (result.1.code ≠ 0 → result.1.output = "" ∧ result.2 = files) ∧
    (result.1.code = 0 → ∃ (policy : Policy α) (events : List (Event α)),
      store.Loads files config policy ∧ store.Lists files path events ∧
      let report := (Session.start.run policy strict events).1.report
      result.1.output = report.pretty ++ "\n" ∧
      result.1.output = Layout.lines.text report.toJson ++ "\n" ∧
      (report.Legible → Report.parse? result.1.output = some report.shown) ∧
      (snapshotOut = none → result.2 = files) ∧
      ∀ out, snapshotOut = some out → ∃ s : Snapshot α,
        s.records = report.records ∧ s.realized = report.realized ∧
        s.pretty = Layout.lines.text s.toJson ∧ (s.Legible → Snapshot.parse? s.pretty = some s) ∧
        store.write? files out s.pretty = some result.2 ∧
        (store.isSink out = false → store.read? result.2 out = some s.pretty)) ∧
    (result.1.code = 0 ↔ ∃ (policy : Policy α) (events : List (Event α)),
      store.Loads files config policy ∧ store.Lists files path events ∧
      (strict = false ∨ ∀ k e cause, ¬Session.start.RefusedAt policy events k e cause) ∧
      ∃ after, store.Keeps files (Session.start.run policy strict events).1.account.snapshot snapshotOut after) := by
  intro result
  have hresult : result = (store.access.replay path config snapshotOut strict : StateM σ (Ending α)).run files := by
    rw [← run_of_parse h]
  rcases store.replay_cases (α := α) files path config snapshotOut strict with
    ⟨policy, events, after, hsucceeds, hrun⟩ | ⟨hnone, cause, hrun⟩ <;> rw [hresult, hrun]
  · refine ⟨fun hcode => absurd rfl hcode, fun _ => ?_, iff_of_true rfl ?_⟩
    · have hline : ∀ c ∈ "\n".toList, Json.isSpace c = true := by simp [Json.isSpace]
      exact ⟨policy, events, hsucceeds.loads, hsucceeds.lists, rfl, congrArg (· ++ "\n") (Json.pretty_eq_text _),
        fun hlegible => Report.parse?_pretty hlegible _ hline, hsucceeds.keeps.written⟩
    · exact ⟨policy, events, hsucceeds.loads, hsucceeds.lists, hsucceeds.accepted, after, hsucceeds.keeps⟩
  · have hcode : (Ending.failed cause).code ≠ 0 := Nat.one_ne_zero
    refine ⟨fun _ => ⟨rfl, rfl⟩, fun hzero => absurd hzero hcode, iff_of_false hcode ?_⟩
    rintro ⟨policy, events, hloads, hlists, haccepted, after, hkeeps⟩
    exact hnone policy events after ⟨hloads, hlists, haccepted, hkeeps⟩

/-- A purchase, and a purchase of nothing, which is refused. -/
def purchases : Files := .ofList [("events.json",
  "[\x7b\"type\": \"fill\", \"asset\": \"SPY\", \"quantity\": 10, \"price\": 100\x7d, " ++
    "\x7b\"type\": \"fill\", \"asset\": \"SPY\", \"quantity\": 0, \"price\": 100\x7d]")]

/-- A replay of them that is to leave its book. -/
def bookPurchases : List String := ["replay", "--events", "events.json", "--snapshot-out=book.json"]

/-- What a command line comes to over them. -/
def purchased (words : List String) : Ending Float × Files :=
  (Files.access.run words : StateM Files (Ending Float)).run purchases

/-- What a replay of them reports that is not strict: ten shares at 100, and a refusal. -/
def purchaseReport : Report Float :=
  ⟨⟨2, 1, 1, 0, 0, 0, -1000, 0, 0⟩, 0, -1000, 0, 0, [⟨"SPY", 10, 100, 0, none, 0, 0, .disarmed⟩]⟩

/-- Of a strict replay nothing is left, though the first purchase was made; one that is not strict prints its report
and leaves a book, and both are read back. -/
theorem replay_all_or_nothing_purchases :
    ((purchased (bookPurchases ++ ["--strict"])).1.code ≠ 0 ∧
      (purchased (bookPurchases ++ ["--strict"])).1.output = "" ∧
      (purchased (bookPurchases ++ ["--strict"])).2 = purchases) ∧
    (purchased bookPurchases).1.code = 0 ∧
      Report.parse? (purchased bookPurchases).1.output = some (purchaseReport.map some) ∧
      (Files.store.read? (purchased bookPurchases).2 "book.json").bind Snapshot.parse? =
        some ⟨purchaseReport.records, purchaseReport.realized⟩ := by
  have hstrict : Request.parse (bookPurchases ++ ["--strict"]) =
      .ok (.replay "events.json" none (some "book.json") true) := by decide +kernel
  have hlenient : Request.parse bookPurchases =
      .ok (.replay "events.json" none (some "book.json") false) := by decide +kernel
  have hfailed : (purchased (bookPurchases ++ ["--strict"])).1.code ≠ 0 := by decide +kernel
  have hdone : (purchased bookPurchases).1.code = 0 := by decide +kernel
  have hnothing := (replay_all_or_nothing (α := Float) Files.store purchases hstrict).1
  have hall := (replay_all_or_nothing (α := Float) Files.store purchases hlenient).2.1
  -- named, so that nothing below is compared by running it
  rw [access_files, ← purchased] at hnothing hall
  obtain ⟨policy, events, hloads, ⟨text, htext, hevents⟩, -, -, hprinted, -, hwritten⟩ := hall hdone
  obtain rfl := hloads.unique .usual
  have hplayed : ((Files.store.read? purchases "events.json").bind Event.parseList?).map
      (fun events => (Session.start.run .usual false events).1.report) = some purchaseReport := by decide +kernel
  rw [htext, Option.bind_some, hevents, Option.map_some, Option.some_inj] at hplayed
  rw [hplayed] at hprinted hwritten
  have hlegible : purchaseReport.Legible := by decide +kernel
  have hshown : purchaseReport.shown = purchaseReport.map some := by decide +kernel
  obtain ⟨s, hrecords, hrealized, -, hback, -, hkept⟩ := hwritten "book.json" rfl
  obtain rfl : s = ⟨purchaseReport.records, purchaseReport.realized⟩ := by
    rw [← hrecords, ← hrealized]
  have hbook : (⟨purchaseReport.records, purchaseReport.realized⟩ : Snapshot Float).Legible := by decide +kernel
  refine ⟨⟨hfailed, hnothing hfailed⟩, hdone, (hprinted hlegible).trans (congrArg some hshown), ?_⟩
  rw [hkept (by decide), Option.bind_some, hback hbook]

end Store

end Holdings
