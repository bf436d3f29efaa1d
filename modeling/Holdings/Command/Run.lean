import Holdings.Command.Request
import Holdings.Form.Text
import Holdings.Message

/-!
# Running a request

A request is run over an `Access` to files, in any monad: over the real ones, or over `Files` in memory. The
`Ending` is what is printed and how it ended.

`replay` reads its configuration before its events, and writes the snapshot before it prints the report.
A strict run that was aborted writes and prints nothing. `show` prints only a snapshot that could be
restored.
-/

namespace Holdings

/-- Reading and writing files by name. -/
structure Access (m : Type → Type) where
  /-- the text of a file, if it can be read -/
  read : String → m (Option String)
  /-- writes a file; says whether that was possible -/
  write : String → String → m Bool

/-- Why a request failed. -/
inductive Failure (α : Type) where
  /-- the policy could not be read from its file, or was refused -/
  | config (path : String)
  /-- the file of the events could not be read -/
  | eventsFile (path : String)
  /-- the text of the events could not be read -/
  | eventsText (path : String)
  /-- a strict run was aborted -/
  | aborted (abort : Abort α)
  /-- the snapshot could not be written -/
  | snapshotOut (path : String)
  /-- the snapshot could not be read from its file -/
  | snapshot (path : String)
  /-- the snapshot has a record that no book can hold -/
  | record (fault : RecordFault α)
deriving DecidableEq

/-- How a request ends. -/
inductive Ending (α : Type) where
  /-- as asked; the text is printed -/
  | done (text : String)
  /-- with a failure -/
  | failed (cause : Failure α)
  /-- before it began -/
  | noRequest (cause : NoRequest)
deriving DecidableEq

namespace Ending

variable {α : Type}

/-- The exit code. -/
def code : Ending α → Nat
  | .done _ => 0
  | .failed _ => 1
  | .noRequest .help => 0
  | .noRequest .misuse => 2

/-- What goes to the standard output. -/
def output : Ending α → String
  | .done text => text
  | .failed _ => ""
  | .noRequest .help => usage
  | .noRequest .misuse => ""

end Ending

/-- Why a request failed, in words. -/
def Failure.message {α : Type} [Numeral α] : Failure α → String
  | .config path => "loading config " ++ path
  | .eventsFile path => "failed to read events file " ++ path
  | .eventsText path => "failed to parse events file " ++ path
  | .aborted abort => abort.message
  | .snapshotOut path => "writing snapshot " ++ path
  | .snapshot path => "reading snapshot " ++ path
  | .record fault => fault.message

namespace Access

variable {α : Type} [Numeral α] {m : Type → Type} [Monad m]

/-- The policy of a run: the usual one, or that of a file. -/
def policy (files : Access m) : Option String → m (Except (Failure α) (Policy α))
  | none => return .ok .usual
  | some path => do
    match ← files.read path with
    | none => return .error (.config path)
    | some text =>
      match Policy.parse text with
      | .ok p => return .ok p
      | .error _ => return .error (.config path)

/-- The events of a run. -/
def events (files : Access m) (path : String) : m (Except (Failure α) (List (Event α))) := do
  match ← files.read path with
  | none => return .error (.eventsFile path)
  | some text =>
    match Event.parseList? text with
    | some events => return .ok events
    | none => return .error (.eventsText path)

/-- Writes a snapshot, if it has somewhere to go. -/
def keep (files : Access m) (s : Snapshot α) : Option String → m (Except (Failure α) Unit)
  | none => return .ok ()
  | some path => do
    if ← files.write path s.pretty then return .ok () else return .error (.snapshotOut path)

/-- Plays events and reports. -/
def replay (files : Access m) (path : String) (config snapshotOut : Option String)
    (strict : Bool) : m (Ending α) := do
  match ← files.policy config with
  | .error cause => return .failed cause
  | .ok policy =>
    match ← files.events path with
    | .error cause => return .failed cause
    | .ok events =>
      match Session.start.run policy strict events with
      | (_, .error abort) => return .failed (.aborted abort)
      | (session, .ok ()) =>
        match ← files.keep session.account.snapshot snapshotOut with
        | .error cause => return .failed cause
        | .ok () => return .done (session.report.pretty ++ "\n")

/-- Shows a snapshot with its fingerprint. -/
def display (files : Access m) (path : String) : m (Ending α) := do
  match ← files.read path with
  | none => return .failed (.snapshot path)
  | some text =>
    match (Snapshot.parse? text : Option (Snapshot α)) with
    | none => return .failed (.snapshot path)
    | some s =>
      match s.toPositions with
      | .error fault => return .failed (.record fault)
      | .ok _ => return .done (s.pretty ++ "\nfingerprint: " ++ s.fingerprint ++ "\n")

/-- Runs a command line. -/
def run (files : Access m) (words : List String) : m (Ending α) :=
  match Request.parse words with
  | .error cause => return .noRequest cause
  | .ok (.replay events config snapshotOut strict) =>
    files.replay events config snapshotOut strict
  | .ok (.display snapshot) => files.display snapshot

end Access

end Holdings
