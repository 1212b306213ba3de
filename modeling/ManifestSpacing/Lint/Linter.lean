import ManifestSpacing.Check.ClosingBrace
import ManifestSpacing.Check.InheritedName
import ManifestSpacing.Lexical.Lexer
import ManifestSpacing.Lint.Repair
import ManifestSpacing.Order.StableSort

/-!
# Linting one manifest

Every check of a set reads the same outline, and the problems found are sorted
by place and check. A run lexes the source, detects all problems and, in fix
mode, repairs them in report order. Repairs change the number of tokens before
later problems, so a running total of that change moves each later hint.
-/

namespace ManifestSpacing

/-- The problems that one check finds. -/
def Check.problems (check : Check) (outline : Outline) : List Problem :=
  match check with
  | .inheritsNameBefore => InheritedName.problemsBefore outline
  | .inheritsNameAfter => InheritedName.problemsAfter outline
  | .closingBraceBefore => ClosingBrace.problemsBefore outline
  | .closingBraceAfter => ClosingBrace.problemsAfter outline

/-- The problems that a set of checks finds, in report order. -/
def detect (tokens : List Token) (checks : CheckSet) (settings : Settings) : List Problem :=
  let outline := Outline.ofTokens tokens settings
  stableSort Problem.precedes (checks.checks.flatMap fun check => check.problems outline)

/-- Whether a run only reports or also repairs. -/
inductive Mode where
  | report
  | fix
  deriving DecidableEq, Repr

/-- The result of a run. -/
structure Report where
  /-- The problems of the source, located in the source. -/
  problems : List Problem
  /-- The text after the run. -/
  output : String
  /-- Whether every problem has been repaired. -/
  allFixed : Bool
  deriving DecidableEq, Repr

namespace Report

/-- Whether the source has no problem. -/
def isClean (r : Report) : Bool := r.problems.isEmpty

/-- The errors that have not been repaired. -/
def remainingErrors (r : Report) : List Problem :=
  r.problems.filter fun p => p.isError && !p.fixed

/-- Whether the run changed the text. -/
def changed (r : Report) (source : String) : Bool := r.output != source

/-- Takes all repairs back. -/
def discardFixes (r : Report) (source : String) : Report :=
  ⟨r.problems.map fun p => { p with fixed := false }, source, r.problems.isEmpty⟩

end Report

/-- A set of checks with its settings. -/
structure Linter where
  /-- The checks that run. -/
  checks : CheckSet
  /-- What they depend on. -/
  settings : Settings
  deriving DecidableEq, Repr

namespace Linter

/-- All checks under the standard settings. -/
def standard : Linter := ⟨.all, .standard⟩

/-- The problems of a stream. -/
def detect (linter : Linter) (s : TokenStream) : List Problem :=
  ManifestSpacing.detect s.tokens linter.checks linter.settings

/-- How many tokens a repair added, negative when it removed some. -/
def growth : RepairOutcome → Int
  | .fixed removed inserted => (inserted : Int) - removed
  | .alreadyFixed | .refused _ => 0

/-- Repairs the fixable problems in turn. `drift` is the number of tokens that earlier repairs
added. -/
def fixPass (drift : Int) (s : TokenStream) : List Problem → TokenStream × List Problem
  | [] => (s, [])
  | p :: ps =>
    if p.fixable then
      let repair := s.fix { p with anchors := p.anchors.shift drift }
      let (final, rest) := fixPass (drift + growth repair.outcome) repair.stream ps
      (final, repair.problem :: rest)
    else
      let (final, rest) := fixPass drift s ps
      (final, p :: rest)

/-- The stream and the problems after a run on a lexed manifest. -/
def runStream (linter : Linter) (mode : Mode) (s : TokenStream) : TokenStream × List Problem :=
  match mode with
  | .report => (s, linter.detect s)
  | .fix =>
    let (final, problems) := fixPass 0 s (linter.detect s)
    (final.reposition, problems)

/-- Lints a manifest. -/
def run (linter : Linter) (source : String) (mode : Mode) : Except LexError Report :=
  match lex source with
  | .error e => .error e
  | .ok s =>
    let (final, problems) := linter.runStream mode s
    .ok ⟨problems, final.render, problems.all Problem.fixed⟩

end Linter

end ManifestSpacing
