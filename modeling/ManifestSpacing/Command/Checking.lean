import ManifestSpacing.Command.Libraries
import ManifestSpacing.Config.Discovery

/-!
# Checking files

Files that are named are always checked; of a directory those files are checked
that have an extension of manifests, in the order of their names. In fix mode a
file is replaced if its text changes, and a file that cannot be replaced keeps
its problems.
-/

namespace ManifestSpacing

namespace Command

/-- Why the files of a path are not known. -/
inductive CollectError where
  | missing (path : Path)
  | walk (cause : WalkError)
  deriving DecidableEq, Repr

/-- Whether names lead to a file with an extension of manifests. -/
def isManifest (config : Config) (names : List String) : Bool :=
  ((names.getLast?.bind Path.extension?).map config.isManifestExtension).getD false

section Collect

variable (libraries : Libraries) (tree : FileTree) (directory : Location) (config : Config)

/-- The files of a path. -/
def manifestsOf (path : Path) : Except CollectError (List Path) :=
  match tree.resolve directory path with
  | .error _ => .error (.missing path)
  | .ok (_, .file ..) => .ok [path]
  | .ok (_, .directory _) =>
    match libraries.walk tree directory path with
    | .error cause => .error (.walk cause)
    | .ok found =>
      let manifests := found.filter fun item => item.isFile && isManifest config item.names
      .ok ((stableSort FileTree.comesBefore (manifests.map Found.names)).map path.through)

/-- The files of all paths in turn. -/
def collect : List Path → Except CollectError (List Path)
  | [] => .ok []
  | path :: paths =>
    match manifestsOf libraries tree directory config path with
    | .error cause => .error cause
    | .ok files => (collect paths).map fun more => files ++ more

end Collect

/-- Why a file is not checked. -/
inductive CheckFailure where
  | unreadable (cause : FileError)
  | unlexable (cause : LexError)
  deriving DecidableEq, Repr

/-- The description of a failure. -/
def CheckFailure.message : CheckFailure → String
  | unreadable cause => cause.message
  | unlexable cause => cause.message

/-- What became of the text after the run. -/
inductive Replacement where
  /-- There was nothing to write. -/
  | unneeded
  | done
  | failed (cause : FileError)
  deriving DecidableEq, Repr

/-- The result for a file that was checked. -/
structure Checked where
  /-- The text that was read. -/
  source : String
  /-- The report of the run. -/
  report : Report
  /-- What became of the text after the run. -/
  replacement : Replacement
  deriving DecidableEq, Repr

/-- The result for a file. -/
structure FileResult where
  /-- The path of the file. -/
  path : Path
  /-- What was found. -/
  outcome : Except CheckFailure Checked

namespace FileResult

/-- The problems of the file. -/
def problems (result : FileResult) : List Problem :=
  match result.outcome with
  | .ok checked => checked.report.problems
  | .error _ => []

/-- The errors that are left in the file. -/
def remainingErrors (result : FileResult) : List Problem :=
  match result.outcome with
  | .ok checked => checked.report.remainingErrors
  | .error _ => []

/-- Whether the file could not be checked or not be replaced. -/
def isFailed (result : FileResult) : Bool :=
  match result.outcome with
  | .error _ => true
  | .ok checked =>
    match checked.replacement with
    | .failed _ => true
    | .unneeded | .done => false

end FileResult

/-- Lints a file and, in fix mode, replaces it. -/
def checkFile (linter : Linter) (mode : Mode) (device : Device) (directory : Location)
    (tree : FileTree) (path : Path) : FileTree × FileResult :=
  match Snapshot.read tree directory path with
  | .error cause => (tree, ⟨path, .error (.unreadable cause)⟩)
  | .ok snapshot =>
    match linter.run snapshot.content mode with
    | .error cause => (tree, ⟨path, .error (.unlexable cause)⟩)
    | .ok report =>
      if mode = .fix ∧ report.changed snapshot.content then
        match snapshot.writeBack device tree directory report.output with
        | (.ok (), after) => (after, ⟨path, .ok ⟨snapshot.content, report, .done⟩⟩)
        | (.error cause, after) =>
          (after, ⟨path, .ok ⟨snapshot.content, report.discardFixes snapshot.content,
            .failed cause⟩⟩)
      else (tree, ⟨path, .ok ⟨snapshot.content, report, .unneeded⟩⟩)

/-- Lints files in turn. -/
def checkFiles (linter : Linter) (mode : Mode) (device : Device) (directory : Location)
    (tree : FileTree) : List Path → FileTree × List FileResult
  | [] => (tree, [])
  | path :: paths =>
    let (next, result) := checkFile linter mode device directory tree path
    let (final, results) := checkFiles linter mode device directory next paths
    (final, result :: results)

/-- The totals of a run. -/
structure Totals where
  /-- Files that were checked or failed. -/
  files : Nat
  /-- Problems found. -/
  problems : Nat
  /-- Problems repaired. -/
  fixed : Nat
  /-- Errors left. -/
  remainingErrors : Nat
  /-- Files that failed. -/
  failed : Nat
  deriving DecidableEq, Repr

namespace Totals

/-- The totals of the results. -/
def ofResults (results : List FileResult) : Totals where
  files := results.length
  problems := (results.flatMap FileResult.problems).length
  fixed := ((results.flatMap FileResult.problems).filter Problem.fixed).length
  remainingErrors := (results.flatMap FileResult.remainingErrors).length
  failed := (results.filter FileResult.isFailed).length

/-- Whether nothing is left to do. -/
def isSuccess (totals : Totals) : Bool := totals.remainingErrors == 0 && totals.failed == 0

end Totals

end Command

end ManifestSpacing
