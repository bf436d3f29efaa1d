import Holdings.Command.Run

/-!
# Files in memory

`Files` is a directory with everything in it, as texts by path. A path names its steps with slashes
between; empty steps and single points do not count. A file can be written where its directory is there:
the top one always is, and another one if a file lies in it. Outside the directory there is only the sink,
which is empty and stays so, whatever is written to it.
-/

namespace Holdings

/-- The files of a directory: the steps of their paths, and their texts. -/
abbrev Files : Type := List (List String × String)

namespace Files

/-- The parts of a text between slashes. -/
def split : List Char → List (List Char)
  | [] => [[]]
  | c :: rest =>
    match c == '/', split rest with
    | true, parts => [] :: parts
    | false, part :: parts => (c :: part) :: parts
    | false, [] => [[c]]

/-- A step that leads nowhere else. -/
def isIdle (step : String) : Bool := step = "" || step = "."

/-- How many bytes a step of a path may have. -/
def longestStep : Nat := 255

/-- How many bytes a path may have. -/
def longestPath : Nat := 4095

/-- The steps of the path of a file. A path that is too long or has too long a step, begins with a slash, ends
with a step that leads nowhere, or goes up, is not one of a file in the directory. -/
def steps? (path : String) : Option (List String) :=
  let steps := (split path.toList).map String.ofList
  if path.toList.head? = some '/' || steps.getLast?.any isIdle || steps.contains ".."
      || longestPath < path.utf8ByteSize || steps.any (fun step => longestStep < step.utf8ByteSize) then none
  else some (steps.filter fun step => !isIdle step)

/-- The path of the sink. -/
def sink : String := "/dev/null"

/-- The text of a file. -/
def read? (files : Files) (path : String) : Option String :=
  if path = sink then some "" else (steps? path).bind fun steps => files.lookup steps

/-- Whether there is a directory at some steps. -/
def hasDirectory (files : Files) (steps : List String) : Bool :=
  steps.isEmpty || files.any fun f => steps.isPrefixOf f.1 && steps.length < f.1.length

/-- The files with another text at a path, if it can be written. -/
def write? (files : Files) (path text : String) : Option Files :=
  if path = sink then some files
  else (steps? path).bind fun steps =>
    if files.hasDirectory steps.dropLast && !files.hasDirectory steps then
      some ((steps, text) :: files.filter fun f => f.1 ≠ steps)
    else none

/-- Files from paths and texts. -/
def ofList (files : List (String × String)) : Files :=
  files.filterMap fun f => (steps? f.1).map fun steps => (steps, f.2)

/-- Access to files in memory. -/
def access : Access (StateM Files) where
  read path := do return (← get).read? path
  write path text := do
    match (← get).write? path text with
    | none => return false
    | some files =>
      set files
      return true

end Files

end Holdings
