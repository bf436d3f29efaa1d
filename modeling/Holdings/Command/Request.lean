/-!
# Requests: what a command line asks for

There are two commands, each with its options:

* `replay --events FILE [--config FILE] [--snapshot-out FILE] [--strict]`
* `show --snapshot FILE`

`--log-format` may stand before or after the command. An option is given at most once; its value follows
it, or is attached by an equals sign. A value that follows does not begin with a minus sign, unless it is
one; so an option with a request for help in the place of its value has no value. `Request.parse` gives the
request, or says why there is none.
-/

namespace Holdings

/-- How the commands are called. -/
def usage : String :=
  "replay --events FILE [--config FILE] [--snapshot-out FILE] [--strict]\nshow --snapshot FILE\n"

/-- What is asked for. -/
inductive Request where
  /-- playing a list of events against a fresh account -/
  | replay (events : String) (config snapshotOut : Option String) (strict : Bool)
  /-- showing a snapshot -/
  | display (snapshot : String)
deriving DecidableEq

/-- Why a command line is no request. -/
inductive NoRequest where
  /-- it asks for help -/
  | help
  /-- it breaks the rules -/
  | misuse
deriving DecidableEq

namespace Request

/-- What an option takes. -/
inductive Takes where
  /-- nothing -/
  | nothing
  /-- the name of a file -/
  | file
  /-- one of some words -/
  | oneOf (words : List String)

/-- Whether an option takes a value. -/
def Takes.value (t : Takes) (v : String) : Bool :=
  match t with
  | .nothing => false
  | .file => !v.isEmpty
  | .oneOf words => words.contains v

/-- Options by name. -/
abbrev Options : Type := List (String × Takes)

/-- The options that may stand anywhere. -/
def everywhere : Options := [("log-format", .oneOf ["pretty", "json", "compact"])]

/-- The options of `replay`. -/
def ofReplay : Options :=
  [("events", .file), ("config", .file), ("snapshot-out", .file), ("strict", .nothing)] ++ everywhere

/-- The options of `show`. -/
def ofDisplay : Options := ("snapshot", .file) :: everywhere

/-- One word of a command line. -/
inductive Word where
  /-- two minus signs alone: no options after it -/
  | endOfOptions
  /-- two minus signs, a name, and the value attached to it, if any -/
  | long (name : String) (attached : Option String)
  /-- one minus sign and letters -/
  | letters (text : List Char)
  /-- any other word -/
  | plain (text : String)
deriving DecidableEq

/-- Splits at the first equals sign. -/
def splitEquals (cs : List Char) : String × Option String :=
  let name := cs.takeWhile (· ≠ '=')
  match cs.drop name.length with
  | [] => (String.ofList name, none)
  | _ :: value => (String.ofList name, some (String.ofList value))

/-- What a word of a command line is. -/
def Word.of (s : String) : Word :=
  match s.toList with
  | ['-', '-'] => .endOfOptions
  | '-' :: '-' :: cs => .long (splitEquals cs).1 (splitEquals cs).2
  | '-' :: c :: cs => .letters (c :: cs)
  | _ => .plain s

/-- Options that were given, with their values; those that take nothing have an empty one. -/
abbrev Given : Type := List (String × String)

/-- Reads options up to the first word that is none: what was given, and the words from there on. -/
def options (known : Options) (given : Given) :
    List String → Except NoRequest (Given × List String)
  | [] => .ok (given, [])
  | word :: rest =>
    match Word.of word with
    | .endOfOptions => if rest.isEmpty then .ok (given, []) else .error .misuse
    | .letters cs => .error (if cs.head? = some 'h' then .help else .misuse)
    | .plain _ => .ok (given, word :: rest)
    | .long name attached =>
      if name = "help" && attached.isNone then .error .help
      else match known.lookup name, attached with
        | none, _ => .error .misuse
        | some .nothing, none =>
          if (given.lookup name).isSome then .error .misuse
          else options known ((name, "") :: given) rest
        | some takes, some v =>
          if takes.value v && (given.lookup name).isNone then
            options known ((name, v) :: given) rest
          else .error .misuse
        | some takes, none =>
          match rest with
          | [] => .error .misuse
          | v :: rest =>
            match Word.of v with
            | .plain v =>
              if takes.value v && (given.lookup name).isNone then
                options known ((name, v) :: given) rest
              else .error .misuse
            | _ => .error .misuse

/-- The options of a command, after which nothing may follow. -/
def optionsOnly (known : Options) (words : List String) : Except NoRequest Given :=
  match options known [] words with
  | .error e => .error e
  | .ok (given, []) => .ok given
  | .ok (_, _ :: _) => .error .misuse

/-- The request of a command line. -/
def parse (words : List String) : Except NoRequest Request :=
  match options everywhere [] words with
  | .error e => .error e
  | .ok (_, "replay" :: words) =>
    match optionsOnly ofReplay words with
    | .error e => .error e
    | .ok given =>
      match given.lookup "events" with
      | none => .error .misuse
      | some events =>
        .ok (.replay events (given.lookup "config") (given.lookup "snapshot-out")
          (given.lookup "strict").isSome)
  | .ok (_, "show" :: words) =>
    match optionsOnly ofDisplay words with
    | .error e => .error e
    | .ok given =>
      match given.lookup "snapshot" with
      | none => .error .misuse
      | some snapshot => .ok (.display snapshot)
  | .ok (_, ["help"]) => .error .help
  | .ok (_, ["help", command]) =>
    .error (if ["replay", "show", "help"].contains command then .help else .misuse)
  | .ok _ => .error .misuse

end Request

end Holdings
