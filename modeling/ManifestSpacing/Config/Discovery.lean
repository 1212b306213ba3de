import ManifestSpacing.Config.Issue
import ManifestSpacing.Files.Snapshot

/-!
# Finding and loading a configuration

A configuration file that is asked for by path is used. Otherwise the nearest
one in the working directory or above it counts, then the one in the home
directory, and without any file the standard configuration.
-/

namespace ManifestSpacing

namespace Config

/-- The name of a configuration file. -/
def fileName : String := ".manifest-whitespace.toml"

/-- Where a configuration comes from. -/
inductive Source where
  /-- Asked for by path. -/
  | explicit (path : Path)
  /-- Found in the working directory or above it. -/
  | project (path : Path)
  /-- Found in the home directory. -/
  | home (path : Path)
  /-- Given as text. -/
  | inline
  /-- No file at all. -/
  | defaults
  deriving DecidableEq, Repr

namespace Source

/-- The path of the file, if there is one. -/
def path? : Source → Option Path
  | explicit path | project path | home path => some path
  | inline | defaults => none

/-- The description of a source. -/
def display : Source → String
  | explicit path => "config " ++ path.text
  | project path => "project config " ++ path.text
  | home path => "home config " ++ path.text
  | inline => "inline config"
  | defaults => "built-in defaults"

end Source

/-- Why a configuration cannot be used. -/
inductive LoadError where
  | unreadable (origin : Source) (cause : TextError)
  /-- The text is no TOML, or has other settings than a configuration. -/
  | malformed (origin : Source) (cause : String)
  | invalid (origin : Source) (issues : List Issue)
  deriving DecidableEq, Repr

namespace LoadError

/-- The source of the configuration that cannot be used. -/
def origin : LoadError → Source
  | unreadable origin _ | malformed origin _ | invalid origin _ => origin

/-- What lies behind the error. -/
def cause : LoadError → String
  | unreadable _ cause => cause.message
  | malformed _ cause => cause
  | invalid _ issues => Issue.messages issues

/-- The description of the error. -/
def message (e : LoadError) : String :=
  let action := match e with
    | unreadable .. => "failed to read "
    | malformed .. => "failed to parse "
    | invalid .. => "invalid "
  action ++ e.origin.display ++ ": " ++ e.cause

end LoadError

section Decode

/-! A text is decoded by a library, which either finds a configuration in it or tells why not. -/

variable (decode : String → Except String Config)

/-- The valid configuration that a text describes. -/
def parse (origin : Source) (text : String) : Except LoadError Config :=
  match decode text with
  | .error cause => .error (.malformed origin cause)
  | .ok config =>
    if config.issues = [] then .ok config else .error (.invalid origin config.issues)

/-- Loads the configuration of a source. -/
def load (tree : FileTree) (directory : Location) (origin : Source) : Except LoadError Config :=
  match origin.path? with
  | none => .ok standard
  | some path =>
    match tree.readText directory path with
    | .error cause => .error (.unreadable origin cause)
    | .ok text => parse decode origin text

end Decode

/-- The configuration file for the directory that a path leads to. The path may be relative to
the working directory. -/
def find? (tree : FileTree) (directory : Location) (searched : Path) (home : Option Path) :
    Option Source :=
  let candidates := searched.ancestors.map fun ancestor => ancestor.join fileName
  match candidates.find? (tree.isFile directory) with
  | some path => some (.project path)
  | none =>
    ((home.map fun path => path.join fileName).filter (tree.isFile directory)).map .home

/-- The source that is used. -/
def choose (tree : FileTree) (directory : Location) (asked : Option Path) (searched : Path)
    (home : Option Path) : Source :=
  match asked with
  | some path => .explicit path
  | none => (find? tree directory searched home).getD .defaults

end Config

end ManifestSpacing
