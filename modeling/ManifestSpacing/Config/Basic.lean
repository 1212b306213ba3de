import ManifestSpacing.Lint.Linter

/-!
# Configuration

What a configuration file can set. The checks it disables and the severities
it changes are kept as the names that were written; names of no check have no
effect here and are reported by validation.
-/

namespace ManifestSpacing

/-- A configuration. -/
structure Config where
  /-- Names of the checks that do not run. -/
  disabled : List String
  /-- Whether the braces of conditionals in value position are checked too. -/
  checkExpressionBraces : Bool
  /-- Extensions of manifest files, with or without a leading dot. -/
  extensions : List String
  /-- Severities by the name of the check, sorted by name. -/
  severities : List (String × Severity)
  /-- Further token texts that hug a closing brace. -/
  extraTight : List String
  deriving DecidableEq, Repr

namespace Config

/-- The configuration of an empty file. -/
def standard : Config := ⟨[], false, ["pp"], [], []⟩

/-- The checks that are not disabled. -/
def checkSet (config : Config) : CheckSet :=
  (config.disabled.filterMap Check.ofName?).foldl CheckSet.without .all

/-- The settings of the checks. -/
def settings (config : Config) : Settings where
  tight := .withTexts config.extraTight
  checkExpressionBraces := config.checkExpressionBraces
  severities := config.severities.filterMap fun (name, severity) =>
    (Check.ofName? name).map fun check => (check, severity)

/-- The linter that a configuration asks for. -/
def linter (config : Config) : Linter := ⟨config.checkSet, config.settings⟩

/-- An extension without its leading dots. -/
def bareExtension (extension : String) : String :=
  String.ofList (extension.toList.dropWhile fun c => c = '.')

/-- Whether an extension, given without a dot, is that of a manifest. -/
def isManifestExtension (config : Config) (extension : String) : Bool :=
  config.extensions.any fun known => bareExtension known == extension

end Config

end ManifestSpacing
