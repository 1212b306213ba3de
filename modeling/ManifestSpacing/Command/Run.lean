import ManifestSpacing.Command.Arguments
import ManifestSpacing.Command.Rendering

/-!
# Running the program

A run turns a file tree and arguments into an exit status, what is printed and
the file tree afterwards. It fails as a whole, before any file is touched, when
the configuration cannot be used, a check is unknown, a path leads nowhere or a
directory below it cannot be listed.
-/

namespace ManifestSpacing

namespace Command

/-- What a run finds besides the files. -/
structure Environment where
  /-- The working directory. -/
  directory : Location
  /-- The home directory. -/
  home : Option Path
  /-- Whether the output is coloured. -/
  color : Bool
  deriving DecidableEq, Repr

/-- The path of the working directory from the root. -/
def Environment.directoryPath (env : Environment) : Path := .ofNames env.directory

/-- The result of a run. -/
structure Outcome where
  /-- The exit status. -/
  status : Nat
  /-- What is printed to the standard output. -/
  output : String
  /-- What is printed to the standard error. -/
  errors : String
  /-- The files afterwards. -/
  tree : FileTree

/-- Why a run fails as a whole. -/
inductive Failure where
  | config (cause : Config.LoadError)
  | unknownCheck (name : String)
  | pathNotFound (path : Path)
  | walk (cause : WalkError)
  deriving DecidableEq, Repr

namespace Failure

/-- The description of a failure. -/
def message : Failure → String
  | config cause => cause.message
  | unknownCheck name => "Unknown check '" ++ name ++ "'" ++ Config.offer (Check.suggest? name)
  | pathNotFound path => "Path not found: " ++ path.text
  | walk cause => cause.message

/-- The description of what lies behind a failure. -/
def cause? : Failure → Option String
  | config cause => some cause.cause
  | walk cause => some cause.cause.message
  | unknownCheck _ | pathNotFound _ => none

/-- A text with four blanks before each line. -/
def indented (text : String) : String :=
  String.ofList (' ' :: ' ' :: ' ' :: ' ' :: text.toList.flatMap fun c =>
    if c = '\n' then ['\n', ' ', ' ', ' ', ' '] else [c])

/-- What is printed about a failure. -/
def render (failure : Failure) : String :=
  line ("Error: " ++ failure.message) ++
    match failure.cause? with
    | some cause => "\nCaused by:\n" ++ line (indented cause)
    | none => ""

end Failure

/-- The failure to collect the files of a run. -/
def Failure.ofCollect : CollectError → Failure
  | .missing path => .pathNotFound path
  | .walk cause => .walk cause

/-- The configuration of a run. -/
def loadConfig (libraries : Libraries) (env : Environment) (tree : FileTree)
    (asked : Option Path) : Except Failure Config :=
  let origin := Config.choose tree env.directory asked env.directoryPath env.home
  match Config.load libraries.decode tree env.directory origin with
  | .ok config => .ok config
  | .error cause => .error (.config cause)

/-- The checks with the given names, or the first name that no check has. -/
def namedChecks : List String → Except Failure (List Check)
  | [] => .ok []
  | name :: names =>
    match Check.ofName? name with
    | none => .error (.unknownCheck name)
    | some check => (namedChecks names).map fun checks => check :: checks

/-- The linter of a configuration, with the checks replaced by those that are asked for. -/
def chooseLinter (config : Config) (only : List String) : Except Failure Linter :=
  match only with
  | [] => .ok config.linter
  | _ :: _ =>
    (namedChecks only).map fun checks => { config.linter with checks := CheckSet.only checks }

/-- The paths of a check run, the working directory if none are given. -/
def CheckOptions.targets (options : CheckOptions) : List Path :=
  match options.paths with
  | [] => [⟨"."⟩]
  | paths => paths

/-- The mode of a check run. -/
def CheckOptions.mode (options : CheckOptions) : Mode := if options.fix then .fix else .report

/-- The linter and the files of a check run. -/
def prepare (libraries : Libraries) (env : Environment) (tree : FileTree)
    (options : CheckOptions) : Except Failure (Linter × List Path) :=
  match loadConfig libraries env tree options.config with
  | .error failure => .error failure
  | .ok config =>
    match chooseLinter config options.only with
    | .error failure => .error failure
    | .ok linter =>
      match collect libraries tree env.directory config options.targets with
      | .error cause => .error (.ofCollect cause)
      | .ok files => .ok (linter, files)

/-- The results of a check run and the files afterwards. -/
def check (libraries : Libraries) (env : Environment) (tree : FileTree) (options : CheckOptions) :
    Except Failure (FileTree × List FileResult) :=
  (prepare libraries env tree options).map fun (linter, files) =>
    checkFiles linter options.mode libraries.device env.directory tree files

/-- The standard output of a check run. -/
def renderResults (env : Environment) (options : CheckOptions) (results : List FileResult) :
    String :=
  let diffOf := shownDiff env.color options.diff
  match options.format.getD .text with
  | .text =>
    String.join (results.map fun r => diffOf r ++ renderProblems env.color r)
      ++ renderTotals env.color options.fix (.ofResults results)
  | .json =>
    String.join (results.map diffOf) ++ line (JsonText.array (results.map resultJson)).pretty

/-- The standard error of a check run. -/
def renderFailures (env : Environment) (options : CheckOptions) (results : List FileResult) :
    String :=
  match options.format.getD .text with
  | .text => String.join (results.map (renderFailure env.color))
  | .json => ""

/-- A listing of the checks. -/
def renderList (color : Bool) (config : Config) : String :=
  String.join (Check.all.map fun check =>
    line (check.name ++ " " ++
      if config.checkSet.contains check then Style.green.paint color "enabled"
      else Style.dimmed.paint color "disabled"))

/-- The name and version of the program. -/
def versionText : String := "manifest-whitespace 0.1.0"

/-- How the program is used. -/
def usage : String :=
  "Usage: manifest-whitespace check [--fix] [-d|--diff] [-c|--config FILE] " ++
    "[--format text|json] [--only CHECK]... [PATHS]...\n" ++
    "       manifest-whitespace list [-c|--config FILE]\n"

/-- The outcome of a run that fails as a whole. -/
def failed (tree : FileTree) (failure : Failure) : Outcome := ⟨1, "", failure.render, tree⟩

/-- Answers a request. -/
def answer (libraries : Libraries) (env : Environment) (tree : FileTree) : Request → Outcome
  | .version => ⟨0, line versionText, "", tree⟩
  | .help => ⟨0, usage, "", tree⟩
  | .list asked =>
    match loadConfig libraries env tree asked with
    | .error failure => failed tree failure
    | .ok config => ⟨0, renderList env.color config, "", tree⟩
  | .check options =>
    match check libraries env tree options with
    | .error failure => failed tree failure
    | .ok (after, results) =>
      ⟨if (Totals.ofResults results).isSuccess then 0 else 1, renderResults env options results,
        renderFailures env options results, after⟩

/-- Runs the program. -/
def run (libraries : Libraries) (env : Environment) (tree : FileTree) (arguments : List String) :
    Outcome :=
  match Request.ofArguments arguments with
  | .error e => ⟨2, "", line ("error: " ++ e.message) ++ "\n" ++ usage, tree⟩
  | .ok request => answer libraries env tree request

end Command

end ManifestSpacing
