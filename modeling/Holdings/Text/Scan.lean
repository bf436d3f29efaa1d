/-!
# Scans: reading from the front of a text
-/

namespace Holdings

/-- Reads something from the front of a text: what was read, and what is left. -/
abbrev Scan (β : Type) : Type := List Char → Option (β × List Char)

/-- What is left after a character that has to be there. -/
def afterMark (c : Char) : List Char → Option (List Char)
  | [] => none
  | d :: rest => if c = d then some rest else none

end Holdings
