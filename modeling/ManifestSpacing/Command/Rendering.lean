import ManifestSpacing.Command.Checking
import ManifestSpacing.Text.JsonText
import ManifestSpacing.Text.LineDiff
import ManifestSpacing.Text.Style

/-!
# Printing the results of a check run
-/

namespace ManifestSpacing

namespace Command

/-- A line with its end. -/
def line (text : String) : String := text ++ "\n"

/-- A line of a diff, which gets an end if it has none. -/
def diffLine (text : String) : String :=
  match text.toList.getLast? with
  | some '\n' | some '\r' => text
  | _ => text ++ "\n"

/-- One edit of a diff. -/
def renderEdit (color : Bool) : LineDiff.Edit → String
  | .keep text => " " ++ diffLine text
  | .delete text => Style.red.paint color ("-" ++ diffLine text)
  | .insert text => Style.green.paint color ("+" ++ diffLine text)

/-- The changes of a file. -/
def renderDiff (color : Bool) (path : Path) (before after : String) : String :=
  "\n" ++ line (Style.dimmed.paint color ("--- " ++ path.text ++ " (original)"))
    ++ line (Style.dimmed.paint color ("+++ " ++ path.text ++ " (fixed)"))
    ++ String.join ((LineDiff.between before after).map (renderEdit color))

/-- The style of a severity. -/
def severityStyle : Severity → Style
  | .error => .boldRed
  | .warning => .boldYellow

/-- The note behind a problem that was repaired or cannot be. -/
def statusNote (color : Bool) (p : Problem) : String :=
  if p.fixed then " " ++ Style.green.paint color "[fixed]"
  else if p.fixable then ""
  else " " ++ Style.dimmed.paint color "[unfixable]"

/-- A problem of a file. -/
def renderProblem (color : Bool) (path : Path) (p : Problem) : String :=
  line (path.text ++ ":" ++ Nat.repr p.position.line ++ ":" ++ Nat.repr p.position.column ++ ": "
    ++ (severityStyle p.severity).paint color p.severity.word ++ ": " ++ p.message ++ " "
    ++ Style.dimmed.paint color ("(" ++ p.check.name ++ ")") ++ statusNote color p)

/-- The changes that are shown for a file. -/
def shownDiff (color diff : Bool) (result : FileResult) : String :=
  match result.outcome with
  | .ok ⟨source, report, .done⟩ =>
    if diff then renderDiff color result.path source report.output else ""
  | _ => ""

/-- The problems of a file. -/
def renderProblems (color : Bool) (result : FileResult) : String :=
  String.join (result.problems.map (renderProblem color result.path))

/-- The mark of a failure. -/
def failureMark (color : Bool) : String := Style.red.paint color "✗"

/-- What went wrong with a file. -/
def renderFailure (color : Bool) (result : FileResult) : String :=
  match result.outcome with
  | .error cause =>
    line (failureMark color ++ " " ++ result.path.text ++ ": " ++ cause.message)
  | .ok ⟨_, _, .failed cause⟩ => line (failureMark color ++ " " ++ cause.message)
  | .ok _ => ""

/-- The totals of a run. -/
def renderTotals (color fix : Bool) (totals : Totals) : String :=
  let count := fun (style : Style) (n : Nat) (what : String) =>
    line ("  " ++ style.paint color (Nat.repr n) ++ " " ++ what)
  "\n" ++ line (Style.bold.paint color "Summary:")
    ++ line ("  " ++ Nat.repr totals.files ++ " files checked")
    ++ count .yellow totals.problems "problems"
    ++ (if fix then count .green totals.fixed "fixed" else "")
    ++ count .red totals.remainingErrors "errors remaining"
    ++ (if totals.failed > 0 then count .red totals.failed "files failed" else "")

/-- A problem as JSON. -/
def problemJson (p : Problem) : JsonText :=
  .object [("check", .string p.check.name), ("column", .number p.position.column),
    ("fixable", .boolean p.fixable), ("fixed", .boolean p.fixed),
    ("kind", .string p.severity.word), ("line", .number p.position.line),
    ("message", .string p.message)]

/-- The result of a file as JSON. -/
def resultJson (result : FileResult) : JsonText :=
  let path := ("path", JsonText.string result.path.text)
  match result.outcome with
  | .error cause => .object [("error", .string cause.message), path]
  | .ok checked =>
    let problems := ("problems", JsonText.array (checked.report.problems.map problemJson))
    match checked.replacement with
    | .failed cause => .object [("error", .string cause.message), path, problems]
    | .unneeded | .done => .object [path, problems]

end Command

end ManifestSpacing
