import ManifestSpacing.Files.Path

/-!
# Command line arguments

Arguments are first split into items: flags, options with their values and
positional texts. The items are then applied in order, so that the first
mistake counts and a request for help before it is granted. A value may be
attached to its option; otherwise it is the next argument, which must not look
like an option itself.
-/

namespace ManifestSpacing

namespace Command

/-- How problems are printed. -/
inductive Format where
  | text
  | json
  deriving DecidableEq, Repr

/-- The format with a given word. -/
def Format.ofWord? : String → Option Format
  | "text" => some .text
  | "json" => some .json
  | _ => none

/-- What a check run is asked for. -/
structure CheckOptions where
  /-- Files and directories to check. -/
  paths : List Path := []
  /-- Whether problems are repaired. -/
  fix : Bool := false
  /-- Whether the changes of repaired files are printed. -/
  diff : Bool := false
  /-- The configuration file, if one is asked for. -/
  config : Option Path := none
  /-- The format, if one is asked for. -/
  format : Option Format := none
  /-- Names of the only checks to run; none means all that are enabled. -/
  only : List String := []
  deriving DecidableEq, Repr

/-- What the program is asked for. -/
inductive Request where
  | check (options : CheckOptions)
  | list (config : Option Path)
  | version
  | help
  deriving DecidableEq, Repr

/-- Why arguments are refused. -/
inductive UsageError where
  | missingCommand
  | unexpected (argument : String)
  | missingValue (option : String)
  | invalidValue (option value : String)
  | repeated (option : String)
  /-- A diff is only made of repairs. -/
  | diffWithoutFix
  deriving DecidableEq, Repr

/-- The description of a usage error. -/
def UsageError.message : UsageError → String
  | missingCommand => "a command is required: check or list"
  | unexpected argument => "unexpected argument '" ++ argument ++ "'"
  | missingValue option => "a value is required for '--" ++ option ++ "'"
  | invalidValue option value => "invalid value '" ++ value ++ "' for '--" ++ option ++ "'"
  | repeated option => "'--" ++ option ++ "' cannot be used multiple times"
  | diffWithoutFix => "'--diff' needs '--fix'"

/-- An option of the program. -/
inductive Switch where
  | fix
  | diff
  | config
  | format
  | only
  | version
  | help
  deriving DecidableEq, Repr

namespace Switch

/-- The word after two dashes. -/
def long : Switch → String
  | fix => "fix"
  | diff => "diff"
  | config => "config"
  | format => "format"
  | only => "only"
  | version => "version"
  | help => "help"

/-- The letter after one dash. -/
def short? : Switch → Option Char
  | diff => some 'd'
  | config => some 'c'
  | version => some 'V'
  | help => some 'h'
  | fix | format | only => none

/-- Whether a value follows. -/
def takesValue : Switch → Bool
  | config | format | only => true
  | fix | diff | version | help => false

/-- The switches of the program itself. -/
def forProgram : List Switch := [version, help]

/-- The switches of a check run. -/
def forCheck : List Switch := [fix, diff, config, format, only, help]

/-- The switches of a listing. -/
def forList : List Switch := [config, help]

end Switch

/-- What an argument stands for. -/
inductive Item where
  | flag (switch : Switch)
  | value (switch : Switch) (text : String)
  | positional (text : String)
  | mistake (e : UsageError)
  deriving DecidableEq, Repr

/-- Whether an argument looks like an option. A single dash does not. -/
def looksLikeOption (argument : String) : Bool :=
  match argument.toList with
  | '-' :: _ :: _ => true
  | _ => false

/-- A value with the equals sign before it taken away. -/
def dropEquals : List Char → List Char
  | '=' :: value => value
  | value => value

/-- The items of one argument, with the switch whose value must follow. -/
abbrev Reading := List Item × Option Switch

/-- The items of a group of letters. A switch that takes a value takes the rest of the group. -/
def readLetters (allowed : List Switch) (argument : String) : List Char → Reading
  | [] => ([], none)
  | letter :: rest =>
    match allowed.find? fun switch => switch.short? == some letter with
    | none => ([.mistake (.unexpected argument)], none)
    | some switch =>
      if switch.takesValue then
        if rest.isEmpty then ([], some switch)
        else ([.value switch (String.ofList (dropEquals rest))], none)
      else
        let (items, waiting) := readLetters allowed argument rest
        (.flag switch :: items, waiting)

/-- The items of a word after two dashes. -/
def readWord (allowed : List Switch) (argument : String) (body : List Char) : Reading :=
  let name := body.takeWhile fun c => c ≠ '='
  let attached := body.dropWhile fun c => c ≠ '='
  match allowed.find? fun switch => switch.long == String.ofList name with
  | none => ([.mistake (.unexpected argument)], none)
  | some switch =>
    if switch.takesValue then
      if attached.isEmpty then ([], some switch)
      else ([.value switch (String.ofList (dropEquals attached))], none)
    else if attached.isEmpty then ([.flag switch], none)
    else ([.mistake (.unexpected argument)], none)

/-- The items of one argument other than the double dash. -/
def readArgument (allowed : List Switch) (argument : String) : Reading :=
  match argument.toList with
  | '-' :: '-' :: body => readWord allowed argument body
  | '-' :: letter :: letters => readLetters allowed argument (letter :: letters)
  | _ => ([.positional argument], none)

/-- The items of all arguments; `waiting` is the switch whose value comes next. After a double
dash everything is positional. -/
def readArguments (allowed : List Switch) (waiting : Option Switch) : List String → List Item
  | [] => (waiting.map fun switch => Item.mistake (.missingValue switch.long)).toList
  | argument :: rest =>
    match waiting with
    | some switch =>
      if looksLikeOption argument then [.mistake (.missingValue switch.long)]
      else .value switch argument :: readArguments allowed none rest
    | none =>
      if argument = "--" then rest.map .positional
      else
        let (items, waiting) := readArgument allowed argument
        items ++ readArguments allowed waiting rest

/-- A path, which must not be empty. -/
def pathValue (option text : String) : Except UsageError Path :=
  if text = "" then .error (.invalidValue option text) else .ok ⟨text⟩

namespace CheckOptions

/-- Applies one item. -/
def apply (options : CheckOptions) : Item → Except UsageError CheckOptions
  | .flag .fix =>
    if options.fix then .error (.repeated "fix") else .ok { options with fix := true }
  | .flag .diff =>
    if options.diff then .error (.repeated "diff") else .ok { options with diff := true }
  | .value .config text =>
    if options.config.isSome then .error (.repeated "config")
    else (pathValue "config" text).map fun path => { options with config := some path }
  | .value .format text =>
    if options.format.isSome then .error (.repeated "format")
    else
      match Format.ofWord? text with
      | some format => .ok { options with format := some format }
      | none => .error (.invalidValue "format" text)
  | .value .only text => .ok { options with only := options.only ++ [text] }
  | .positional text =>
    (pathValue "paths" text).map fun path => { options with paths := options.paths ++ [path] }
  | .mistake e => .error e
  | .flag switch | .value switch _ => .error (.unexpected switch.long)

end CheckOptions

/-- The request for a check run. -/
def readCheck (options : CheckOptions) : List Item → Except UsageError Request
  | [] => if options.diff && !options.fix then .error .diffWithoutFix else .ok (.check options)
  | .flag .help :: _ => .ok .help
  | item :: items =>
    match options.apply item with
    | .ok options => readCheck options items
    | .error e => .error e

/-- The request for a listing. -/
def readList (config : Option Path) : List Item → Except UsageError Request
  | [] => .ok (.list config)
  | .flag .help :: _ => .ok .help
  | .value .config text :: items =>
    if config.isSome then .error (.repeated "config")
    else
      match pathValue "config" text with
      | .ok path => readList (some path) items
      | .error e => .error e
  | .mistake e :: _ => .error e
  | .positional text :: _ => .error (.unexpected text)
  | .flag switch :: _ | .value switch _ :: _ => .error (.unexpected switch.long)

/-- The request that arguments make. -/
def Request.ofArguments : List String → Except UsageError Request
  | [] => .error .missingCommand
  | "check" :: rest => readCheck {} (readArguments Switch.forCheck none rest)
  | "list" :: rest => readList none (readArguments Switch.forList none rest)
  | ["help"] | ["help", "check"] | ["help", "list"] | ["help", "help"] => .ok .help
  | argument :: _ =>
    match (readArgument Switch.forProgram argument).1 with
    | .flag .version :: _ => .ok .version
    | .flag .help :: _ => .ok .help
    | _ => .error (.unexpected argument)

end Command

end ManifestSpacing
