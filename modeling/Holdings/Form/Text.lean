import Holdings.Blake3
import Holdings.Form.Policy
import Holdings.Form.Session
import Holdings.Json.Printer
import Holdings.Json.Reader
import Holdings.Toml.Reader

/-!
# Snapshots, events, reports and policies as texts

Snapshots, events and reports stand in JSON texts, policies in TOML texts. A policy that is read from a text
is checked; nothing else is.

A snapshot has a *fingerprint*: the hash of its compact text. Two snapshots with the same text have the same
fingerprint, and nothing else is known to have it.
-/

namespace Holdings

variable {α : Type} [Numeral α]

namespace Snapshot

/-- Reads a snapshot. -/
def parse? (text : String) : Option (Snapshot α) :=
  (Json.parse? text).bind (ofJson? (.text 0))

/-- The text of a snapshot, over several lines. -/
def pretty (s : Snapshot α) : String := s.toJson.pretty

/-- The fingerprint of a snapshot. -/
def fingerprint (s : Snapshot α) : String := Blake3.ofText s.toJson.compact

end Snapshot

namespace Event

/-- Reads a list of events. -/
def parseList? (text : String) : Option (List (Event α)) :=
  (Json.parse? text).bind listOfJson?

end Event

namespace Report

/-- The text of a report, over several lines. -/
def pretty (r : Report α) : String := r.toJson.pretty

end Report

/-- Why the text of a policy is refused. -/
inductive PolicyTextFault (α : Type) where
  /-- it is no TOML, or does not say what a policy says -/
  | unreadable
  /-- the policy does not pass its check -/
  | refused (fault : PolicyFault α)
deriving DecidableEq

namespace Policy

/-- Reads a policy and checks it. -/
def parse (text : String) : Except (PolicyTextFault α) (Policy α) :=
  match (Toml.parse? text).bind fun table => ofJson? .table table.toJson with
  | none => .error .unreadable
  | some p =>
    match p.check with
    | .error fault => .error (.refused fault)
    | .ok () => .ok p

end Policy

end Holdings
