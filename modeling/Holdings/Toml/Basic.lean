import Holdings.Json.Basic

/-!
# TOML: tables and where entries go in them

A TOML text builds a table by steps: a header opens a table at a path, and an entry puts a value at a path
below the open table. What a path may go through depends on how the tables on it came to be, which
`TableKind` remembers. `Entries.within` goes along a path and makes the tables that are missing;
`Entries.put`, `Entries.openTable` and `Entries.openNext` are the three steps.
-/

namespace Holdings.Toml

/-- How a table came to be. -/
inductive TableKind where
  /-- written as a value; it is complete -/
  | inline
  /-- opened by a header -/
  | headed
  /-- on the way of a header -/
  | implied
  /-- on the way of a dotted key -/
  | dotted
deriving DecidableEq

/-- A TOML value. -/
inductive Value (α : Type) where
  /-- a string -/
  | text (s : String)
  /-- a whole number of 64 bits -/
  | integer (n : Int)
  /-- any other number, infinite ones included -/
  | real (x : α)
  /-- a truth value -/
  | bool (b : Bool)
  /-- a date, a time, or both, as it is written -/
  | moment (written : String)
  /-- values in a row -/
  | array (items : List (Value α))
  /-- a table -/
  | table (kind : TableKind) (entries : List (String × Value α))
  /-- tables in a row, each opened by a header -/
  | tables (rows : List (List (String × Value α)))

/-- The entries of a table, each key once. -/
abbrev Entries (α : Type) : Type := List (String × Value α)

variable {α : Type}

namespace Entries

/-- Puts another value in the place of one that is there. -/
def replace (es : Entries α) (key : String) (v : Value α) : Entries α :=
  es.map fun e => if e.1 = key then (key, v) else e

/-- What is done at the end of a path, given the kind and the entries of the table there. -/
abbrev Change (α : Type) : Type := TableKind → Entries α → Option (Entries α)

/-- Goes along a path and changes the table at its end. A table that is missing is made, by a dotted key
or by a header. A dotted key does not go through a table that has a header of its own, nothing goes
through an inline table or another value, and of tables in a row it is the last that is meant. -/
def within (byKey : Bool) : List String → Change α → Change α
  | [], change, kind, es => change kind es
  | key :: path, change, _, es =>
    match es.lookup key with
    | none =>
      let kind := if byKey then .dotted else .implied
      (within byKey path change kind []).map fun sub => es ++ [(key, .table kind sub)]
    | some (.table kind sub) =>
      if kind = .inline || (byKey && kind = .headed) then none
      else (within byKey path change kind sub).map fun sub => replace es key (.table kind sub)
    | some (.tables rows) =>
      match rows.getLast? with
      | some last =>
        (within byKey path change .headed last).map fun sub =>
          replace es key (.tables (rows.dropLast ++ [sub]))
      | none => none
    | some _ => none

/-- Puts a value under a dotted key. Its table is the open one itself, or one that dotted keys made; and
the key is new. -/
def put (path : List String) (key : String) (v : Value α) : Change α :=
  within true path fun kind es =>
    if (kind == .dotted) == path.isEmpty || (es.lookup key).isSome then none
    else some (es ++ [(key, v)])

/-- Opens a table by a header, once. A table that was only on the way of other headers may be opened. -/
def openTable (path : List String) (key : String) : Change α :=
  within false path fun _ es =>
    match es.lookup key with
    | none => some (es ++ [(key, .table .headed [])])
    | some (.table .implied sub) => some (replace es key (.table .headed sub))
    | some _ => none

/-- Opens the next of some tables in a row by a header. -/
def openNext (path : List String) (key : String) : Change α :=
  within false path fun _ es =>
    match es.lookup key with
    | none => some (es ++ [(key, .tables [[]])])
    | some (.tables rows) => some (replace es key (.tables (rows ++ [[]])))
    | some _ => none

end Entries

mutual

/-- A value without what only TOML tells apart. -/
def Value.toJson : Value α → Json α
  | .text s => .text s
  | .integer n => .integer n
  | .real x => .real x
  | .bool b => .bool b
  | .moment written => .text written
  | .array items => .array (itemsToJson items)
  | .table _ es => .object (entriesToJson es)
  | .tables rows => .array (rowsToJson rows)

/-- Values in a row. -/
def itemsToJson : List (Value α) → List (Json α)
  | [] => []
  | v :: rest => v.toJson :: itemsToJson rest

/-- The entries of a table. -/
def entriesToJson : List (String × Value α) → List (String × Json α)
  | [] => []
  | (key, v) :: rest => (key, v.toJson) :: entriesToJson rest

/-- Tables in a row. -/
def rowsToJson : List (List (String × Value α)) → List (Json α)
  | [] => []
  | es :: rest => .object (entriesToJson es) :: rowsToJson rest

end

end Holdings.Toml
