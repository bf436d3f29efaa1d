import Holdings.Toml.Lexeme

/-!
# Reading TOML

`Toml.parse?` reads a whole text into one table. Arrays and inline tables lie at most 79 deep in each other.
An inline table stands on one line, without a comma at its end; an array may go over several lines, with
comments.
-/

namespace Holdings.Toml

variable {α : Type} [Numeral α]

/-! ## Values -/

/-- How deep arrays and inline tables may lie in each other. -/
def deepest : Nat := 79

/-- The rest after blanks, line breaks and comments; `fuel` bounds the lines. Nothing where a comment or a
line break is not as it should be. -/
def skipLines? : Nat → List Char → Option (List Char)
  | 0, _ => none
  | fuel + 1, cs =>
    match skipSpace cs with
    | '#' :: rest => (lineBreak? (rest.dropWhile isPlain)).bind (skipLines? fuel)
    | '\n' :: rest => skipLines? fuel rest
    | '\r' :: rest => (lineBreak? ('\r' :: rest)).bind (skipLines? fuel)
    | rest => some rest

/-- A value that is no array and no table. -/
def scalar? : Scan (Value α) := fun cs =>
  match cs with
  | '"' :: _ => (string? cs).map fun (s, rest) => (.text s, rest)
  | '\'' :: _ => (string? cs).map fun (s, rest) => (.text s, rest)
  | 't' :: 'r' :: 'u' :: 'e' :: rest => some (.bool true, rest)
  | 'f' :: 'a' :: 'l' :: 's' :: 'e' :: rest => some (.bool false, rest)
  | _ =>
    ((moment? cs).map fun (written, rest) => (.moment written, rest))
      <|> ((real? cs).map fun (x, rest) => (.real x, rest))
      <|> ((integer? cs).map fun (n, rest) => (.integer n, rest))

/-- The table of the entries of an inline table. -/
def inlineTable? (entries : List ((List String × String) × Value α)) : Option (Value α) :=
  (entries.foldlM (fun es e => Entries.put e.1.1 e.1.2 e.2 .inline es) []).map (.table .inline)

mutual

/-- A value, inside which so many levels may lie. -/
def value? : Nat → Nat → Scan (Value α)
  | 0, _, _ => none
  | fuel + 1, depth, cs =>
    match cs with
    | '[' :: rest =>
      match depth with
      | 0 => none
      | depth + 1 => (items? fuel depth rest).map fun (items, rest) => (.array items, rest)
    | '{' :: rest =>
      match depth with
      | 0 => none
      | depth + 1 =>
        match skipSpace rest with
        | '}' :: rest => some (.table .inline [], rest)
        | rest =>
          match entries? fuel depth rest with
          | some (entries, rest) => (inlineTable? entries).map fun v => (v, rest)
          | none => none
    | _ => scalar? cs

/-- The items of an array, up to its bracket. -/
def items? : Nat → Nat → Scan (List (Value α))
  | 0, _, _ => none
  | fuel + 1, depth, cs =>
    match skipLines? (cs.length + 1) cs with
    | none => none
    | some (']' :: rest) => some ([], rest)
    | some cs =>
      match value? fuel depth cs with
      | none => none
      | some (v, rest) =>
        match skipLines? (rest.length + 1) rest with
        | some (',' :: rest) => (items? fuel depth rest).map fun (vs, rest) => (v :: vs, rest)
        | some (']' :: rest) => some ([v], rest)
        | _ => none

/-- The entries of an inline table, at least one, up to its brace. -/
def entries? : Nat → Nat → Scan (List ((List String × String) × Value α))
  | 0, _, _ => none
  | fuel + 1, depth, cs =>
    match key? cs with
    | some (key, '=' :: rest) =>
      match value? fuel depth (skipSpace rest) with
      | none => none
      | some (v, rest) =>
        match skipSpace rest with
        | ',' :: rest =>
          (entries? fuel depth rest).map fun (entries, rest) => ((key, v) :: entries, rest)
        | '}' :: rest => some ([(key, v)], rest)
        | _ => none
    | _ => none

end

/-! ## Texts -/

/-- A line of a text that says something. -/
inductive Line (α : Type) where
  /-- a value under a key -/
  | entry (path : List String) (key : String) (v : Value α)
  /-- the header of a table -/
  | header (path : List String) (key : String)
  /-- the header of the next of some tables in a row -/
  | nextHeader (path : List String) (key : String)

/-- A header, after its brackets. -/
def header? : Scan (Line α) := fun cs =>
  match cs with
  | '[' :: rest =>
    match key? rest with
    | some ((path, key), ']' :: ']' :: rest) => some (.nextHeader path key, rest)
    | _ => none
  | _ =>
    match key? cs with
    | some ((path, key), ']' :: rest) => some (.header path key, rest)
    | _ => none

/-- An entry. -/
def entry? : Scan (Line α) := fun cs =>
  match key? cs with
  | some ((path, key), '=' :: rest) =>
    (value? (2 * rest.length + 2) deepest (skipSpace rest)).map fun (v, rest) =>
      (.entry path key v, rest)
  | _ => none

/-- The lines of a text that say something; `fuel` bounds the lines. -/
def lines? : Nat → List Char → Option (List (Line α))
  | 0, _ => none
  | fuel + 1, cs =>
    match skipSpace cs with
    | [] => some []
    | '#' :: rest => (lineEnd? ('#' :: rest)).bind (lines? fuel)
    | '\n' :: rest => lines? fuel rest
    | '\r' :: rest => (lineBreak? ('\r' :: rest)).bind (lines? fuel)
    | cs =>
      let line := match cs with
        | '[' :: rest => header? rest
        | _ => entry? cs
      match line with
      | none => none
      | some (l, rest) => ((lineEnd? rest).bind (lines? fuel)).map (l :: ·)

/-- A table that is being built, and the path to the part that is open. -/
structure Draft (α : Type) where
  /-- the whole table -/
  root : Entries α
  /-- the path to the open part -/
  openPath : List String

omit [Numeral α] in
/-- Takes one line into a draft. -/
def Draft.take? (d : Draft α) : Line α → Option (Draft α)
  | .entry path key v =>
    (Entries.within false d.openPath (Entries.put path key v) .headed d.root).map fun root =>
      { d with root := root }
  | .header path key =>
    (Entries.openTable path key .headed d.root).map fun root => ⟨root, path ++ [key]⟩
  | .nextHeader path key =>
    (Entries.openNext path key .headed d.root).map fun root => ⟨root, path ++ [key]⟩

/-- The text without a byte order mark in front. -/
def skipMark : List Char → List Char
  | '\uFEFF' :: rest => rest
  | cs => cs

/-- Reads the whole of a text. -/
def parse? (text : String) : Option (Value α) := do
  let cs := skipMark text.toList
  let lines ← lines? (cs.length + 1) cs
  let draft ← lines.foldlM Draft.take? ⟨[], []⟩
  return .table .headed draft.root

end Holdings.Toml
