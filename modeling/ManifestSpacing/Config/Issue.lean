import ManifestSpacing.Check.Suggestion
import ManifestSpacing.Config.Basic

/-!
# Validation of a configuration

All issues are collected: those of the disabled checks first, then those of the
severities, the extensions and the tight texts. A blank is a character with the
Unicode property White_Space.
-/

namespace ManifestSpacing

namespace Blank

/-- The ranges of code points that are blank, in ascending order. -/
def ranges : List (Nat × Nat) :=
  [(0x9, 0xD), (0x20, 0x20), (0x85, 0x85), (0xA0, 0xA0), (0x1680, 0x1680), (0x2000, 0x200A),
    (0x2028, 0x2029), (0x202F, 0x202F), (0x205F, 0x205F), (0x3000, 0x3000)]

/-- Whether a character is blank. -/
def isBlank (c : Char) : Bool :=
  ranges.any fun (low, high) => decide (low ≤ c.toNat) && decide (c.toNat ≤ high)

end Blank

namespace Config

/-- A setting that is validated. -/
inductive Field where
  | disabled
  | severity
  | extensions
  | extraTight
  deriving DecidableEq, Repr

/-- The path of a setting in the file. -/
def Field.path : Field → String
  | disabled => "lint.disabled"
  | severity => "severity"
  | extensions => "lint.extensions"
  | extraTight => "closing_brace_after.extra_tight"

/-- What is wrong with an entry of a list. -/
inductive Fault where
  | emptyExtension
  | emptyEntry
  | blankInEntry
  deriving DecidableEq, Repr

/-- The description of a fault. -/
def Fault.message : Fault → String
  | emptyExtension => "extension is empty"
  | emptyEntry => "entry is empty"
  | blankInEntry => "entry contains whitespace"

/-- A reason to refuse a configuration. -/
inductive Issue where
  /-- A name that no check has, with the check that may have been meant. -/
  | unknownCheck (field : Field) (name : String) (suggestion : Option Check)
  | emptyList (field : Field)
  | invalidEntry (field : Field) (value : String) (fault : Fault)
  deriving DecidableEq, Repr

/-- The part of a message that offers a check for a misspelt name. -/
def offer : Option Check → String
  | some check => " (did you mean '" ++ check.name ++ "'?)"
  | none => ""

/-- The description of an issue. -/
def Issue.message : Issue → String
  | unknownCheck field name suggestion =>
    field.path ++ ": unknown check '" ++ name ++ "'" ++ offer suggestion
  | emptyList field => field.path ++ " must not be empty"
  | invalidEntry field value fault =>
    field.path ++ ": invalid entry '" ++ value ++ "': " ++ fault.message

/-- The description of several issues, one a line. -/
def Issue.messages (issues : List Issue) : String :=
  "\n".intercalate (issues.map message)

/-- An issue for each name that no check has. -/
def unknownChecks (field : Field) (names : List String) : List Issue :=
  (names.filter fun name => (Check.ofName? name).isNone).map fun name =>
    .unknownCheck field name (Check.suggest? name)

/-- What is wrong with an extension. -/
def extensionFault? (extension : String) : Option Fault :=
  if extension.toList.all Blank.isBlank then some .emptyExtension else none

/-- What is wrong with a tight text. -/
def tightFault? (text : String) : Option Fault :=
  if text = "" then some .emptyEntry
  else if text.toList.any Blank.isBlank then some .blankInEntry
  else none

/-- An issue for each faulty entry. -/
def invalidEntries (field : Field) (fault? : String → Option Fault) (values : List String) :
    List Issue :=
  values.filterMap fun value => (fault? value).map fun fault => .invalidEntry field value fault

/-- All reasons to refuse a configuration. -/
def issues (config : Config) : List Issue :=
  unknownChecks .disabled config.disabled
    ++ unknownChecks .severity (config.severities.map Prod.fst)
    ++ (if config.extensions.isEmpty then [.emptyList .extensions] else [])
    ++ invalidEntries .extensions extensionFault? config.extensions
    ++ invalidEntries .extraTight tightFault? config.extraTight

/-- The standard configuration is valid. -/
theorem issues_standard : issues standard = [] := by decide

end Config

end ManifestSpacing
