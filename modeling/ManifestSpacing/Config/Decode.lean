import ManifestSpacing.Config.Basic
import ManifestSpacing.Config.Toml.Document
import ManifestSpacing.Order.StableSort

/-!
# Configurations as TOML

A file has the sections `lint`, `severity` and `closing_brace_after`, all of
them optional, and no other key. A section with fixed settings may also be
written as an array of their values in order.
-/

namespace ManifestSpacing

namespace Config

open Toml

/-- The entries of a section whose settings have the given names. Other names are refused. -/
def sectionEntries? (names : List String) : Value → Option Entries
  | .table _ entries =>
    if entries.all fun entry => names.contains entry.1 then some entries else none
  | .array items => some (names.zip items)
  | _ => none

/-- The value of an optional setting. -/
def setting? {α : Type} (read? : Value → Option α) (default : α) (entries : Entries)
    (name : String) : Option α :=
  match entries.lookup name with
  | none => some default
  | some value => read? value

/-- A truth value. -/
def boolean? : Value → Option Bool
  | .boolean value => some value
  | _ => none

/-- A string. -/
def text? : Value → Option String
  | .string text => some text
  | _ => none

/-- A list of strings. -/
def texts? : Value → Option (List String)
  | .array items => items.mapM text?
  | _ => none

/-- A severity: its word, or a table with the word as its only key and nothing below it. -/
def severity? : Value → Option Severity
  | .string word => Severity.ofWord? word
  | .table _ [(word, .table _ [])] => Severity.ofWord? word
  | .table _ [(word, .array [])] => Severity.ofWord? word
  | _ => none

/-- Severities by name, sorted by name. -/
def severities? : Value → Option (List (String × Severity))
  | .table _ entries =>
    (entries.mapM fun entry => (severity? entry.2).map fun severity => (entry.1, severity)).map
      (stableSort fun a b => decide (a.1 ≤ b.1))
  | _ => none

/-- The configuration that a file describes. -/
def ofEntries? (root : Entries) : Option Config := do
  let root ← sectionEntries? ["lint", "severity", "closing_brace_after"] (.table .header root)
  let lint ← setting? (sectionEntries? ["disabled", "check_expression_braces", "extensions"]) []
    root "lint"
  let severities ← setting? severities? [] root "severity"
  let closing ← setting? (sectionEntries? ["extra_tight"]) [] root "closing_brace_after"
  let disabled ← setting? texts? standard.disabled lint "disabled"
  let braces ← setting? boolean? standard.checkExpressionBraces lint "check_expression_braces"
  let extensions ← setting? texts? standard.extensions lint "extensions"
  let extraTight ← setting? texts? standard.extraTight closing "extra_tight"
  return ⟨disabled, braces, extensions, severities, extraTight⟩

/-- The configuration that a text describes, or nothing when it is no TOML or has other settings. -/
def ofToml? (text : String) : Option Config := (parse? text).bind ofEntries?

/-- The configuration that a text describes, or what is wrong with the text. -/
def ofToml (text : String) : Except String Config :=
  match ofToml? text with
  | some config => .ok config
  | none => .error "not a TOML document with known settings"

end Config

end ManifestSpacing
