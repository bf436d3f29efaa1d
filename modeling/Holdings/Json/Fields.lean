import Holdings.Instant.Printer
import Holdings.Instant.Reader
import Holdings.Json.Basic

/-!
# Reading records out of JSON

A record is written as an object, by the names of its fields, or as an array, by their places. `Fields.of?`
takes either apart into the values that were given: in an object a name that is not a field is passed
over and a field given twice is refused; in an array an item too many is refused. `Fields.required`,
`Fields.withDefault` and `Fields.optional` then read one field each.

Beside it stand the readers and writers of single values: quantities, whole numbers, strings, instants.
-/

namespace Holdings

namespace Json

variable {α : Type}

/-! ## Single values -/

/-- A string. -/
def text? : Json α → Option String
  | .text s => some s
  | _ => none

/-- A whole number of 64 bits without sign. -/
def natural? : Json α → Option Nat
  | .integer (.ofNat n) => some n
  | _ => none

/-- An instant, written as a string. -/
def instant? : Json α → Option Instant
  | .text s => Instant.parse? s
  | _ => none

/-- A quantity; a whole number is one too. -/
def number? [Quantity α] : Json α → Option α
  | .integer (.ofNat n) => some (Quantity.ofCount n)
  | .integer (.negSucc n) => some (-Quantity.ofCount (n + 1))
  | .real x => some x
  | _ => none

/-- Values in a row, each read in the same way. -/
def list? {β : Type} (read : Json α → Option β) : Json α → Option (List β)
  | .array items => items.mapM read
  | _ => none

/-- A value that may be missing, which is written `null`. -/
def maybe? {β : Type} (read : Json α → Option β) : Json α → Option (Option β)
  | .null => some none
  | j => (read j).map some

/-- A count. -/
def count (n : Nat) : Json α := .integer n

/-- An instant as a string. -/
def stamp (i : Instant) : Json α := .text i.stamp

/-- A value that may be missing. -/
def maybe {β : Type} (write : β → Json α) : Option β → Json α
  | some b => write b
  | none => .null

end Json

/-- The fields of a record that were given. -/
structure Fields (α : Type) where
  /-- their names and values, each name once -/
  given : List (String × Json α)
  /-- they were given by name and not by place -/
  byName : Bool

namespace Fields

variable {α β : Type}

/-- Takes a record with such fields apart. -/
def of? (names : List String) : Json α → Option (Fields α)
  | .object members =>
    let known := members.filter fun m => m.1 ∈ names
    if (known.map Prod.fst).Nodup then some ⟨known, true⟩ else none
  | .array items => if items.length ≤ names.length then some ⟨names.zip items, false⟩ else none
  | _ => none

/-- The value of a field, where it was given. -/
def find? (f : Fields α) (name : String) : Option (Json α) := f.given.lookup name

/-- A field that has to be given. -/
def required (f : Fields α) (name : String) (read : Json α → Option β) : Option β :=
  (f.find? name).bind read

/-- A field with a value that stands where it is not given. -/
def withDefault (f : Fields α) (name : String) (default : β) (read : Json α → Option β) :
    Option β :=
  match f.find? name with
  | none => some default
  | some j => read j

/-- A field that may be `null`, and need not be given. -/
def optional (f : Fields α) (name : String) (read : Json α → Option β) : Option (Option β) :=
  f.withDefault name none (Json.maybe? read)

/-- A field that may be `null`. Among fields given by name it may be missing too, but it keeps its
place. -/
def nullable (f : Fields α) (name : String) (read : Json α → Option β) : Option (Option β) :=
  if f.byName then f.optional name read else f.required name (Json.maybe? read)

end Fields

end Holdings
