import Holdings.Json.Basic

/-!
# Reading choices out of JSON

Two kinds of choice stand in the texts:

* a plain name, `"buy"`. `Named` gives the names of a type. A name may also stand as the only member of
  an object, beside a value that says nothing: `null` in a text, an empty table or array in a configuration;
* a tagged record, `"type"` and the fields of what was chosen. `Json.choose?` reads those. The tag may
  stand anywhere in an object, and has to come first in an array.

To find its tag, a tagged record is read as a whole before its fields are. So every part of it has to name
a value, the passed-over ones included, and arrays and objects lie at most 127 deep in it, counted from the
start of the text. What was read as a whole is looser in the small: an inner tag may be the place of its
choice, and an empty object too says nothing beside a plain name. `Origin` says which of these hold.
-/

namespace Holdings

/-- What a choice is read from. -/
inductive Origin where
  /-- a text, inside so many arrays and objects -/
  | text (enclosing : Nat)
  /-- a part of a value that was read as a whole -/
  | held
  /-- a table of a configuration -/
  | table
deriving DecidableEq

namespace Origin

variable {α : Type}

/-- How deep arrays and objects may lie in a text. -/
def deepest : Nat := 127

/-- One level further inside. -/
def inside : Origin → Origin
  | .text enclosing => .text (enclosing + 1)
  | origin => origin

/-- The value can be read as a whole. -/
def takes (o : Origin) (j : Json α) : Bool :=
  match o with
  | .text enclosing => j.isSound && enclosing + j.depth ≤ deepest
  | _ => true

/-- The value beside a plain name says nothing. -/
def isSilent (o : Origin) (j : Json α) : Bool :=
  match o, j with
  | .text _, .null => true
  | .held, .null => true
  | .held, .object [] => true
  | .table, .object [] => true
  | .table, .array [] => true
  | _, _ => false

/-- The choice that a tag names. -/
def choice? {β : Type} (o : Origin) (choices : List (String × β)) : Json α → Option β
  | .text s => choices.lookup s
  | .integer (.ofNat n) => if o = .held then (choices[n]?).map Prod.snd else none
  | _ => none

end Origin

/-- A type whose values have names. -/
class Named (β : Type) where
  /-- the values -/
  values : List β
  /-- their names -/
  name : β → String

namespace Named

variable {α β : Type} [Named β]

/-- The value of a name. -/
def ofName? (s : String) : Option β := (values : List β).find? fun b => name b = s

/-- Reads a name. -/
def ofJson? (o : Origin) : Json α → Option β
  | .text s => ofName? s
  | .object [(s, beside)] => if o.isSilent beside then ofName? s else none
  | _ => none

/-- Writes a name. -/
def toJson (b : β) : Json α := .text (name b)

end Named

namespace Json

variable {α β : Type}

/-- The field that holds the tag. -/
def tagName : String := "type"

/-- Takes the tag off a tagged record. -/
def tagged? : Json α → Option (Json α × Json α)
  | .object members =>
    match members.filter fun m => m.1 = tagName with
    | [(_, tag)] => some (tag, .object (members.filter fun m => m.1 ≠ tagName))
    | _ => none
  | .array (tag :: rest) => some (tag, .array rest)
  | _ => none

/-- Reads a tagged record, by the readers of its choices. -/
def choose? (o : Origin) (choices : List (String × (Json α → Option β))) (j : Json α) : Option β :=
  if o.takes j then
    (tagged? j).bind fun (tag, body) => (o.choice? choices tag).bind fun read => read body
  else none

/-- Reads the fields of a choice that has none. -/
def noFields? (chosen : β) : Json α → Option β
  | .object _ => some chosen
  | .array [] => some chosen
  | _ => none

/-- Writes a tagged record. -/
def tagged (tag : String) (fields : List (String × Json α)) : Json α :=
  .object ((tagName, .text tag) :: fields)

end Json

end Holdings
