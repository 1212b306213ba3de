import ManifestSpacing.Check.Basic
import ManifestSpacing.Gap.TightSet

/-!
# Settings of a lint run
-/

namespace ManifestSpacing

/-- How serious a problem is. -/
inductive Severity where
  | error
  | warning
  deriving DecidableEq, Repr

namespace Severity

/-- The word for a severity. -/
def word : Severity → String
  | error => "error"
  | warning => "warning"

/-- The severity with a given word. -/
def ofWord? (text : String) : Option Severity :=
  [error, warning].find? fun severity => severity.word == text

end Severity

/-- What the checks depend on besides the tokens. -/
structure Settings where
  /-- Tokens that hug a closing brace. -/
  tight : TightSet
  /-- Whether the braces of conditionals in value position are checked too. -/
  checkExpressionBraces : Bool
  /-- Severities that differ from the default. -/
  severities : List (Check × Severity)
  deriving DecidableEq, Repr

namespace Settings

/-- The standard settings. -/
def standard : Settings := ⟨.standard, false, []⟩

/-- The severity of a check's problems, an error unless set otherwise. -/
def severityOf (settings : Settings) (check : Check) : Severity :=
  (settings.severities.lookup check).getD .error

end Settings

end ManifestSpacing
