import Mathlib.Logic.Basic
import ManifestSpacing.Config.Discovery
import ManifestSpacing.Proofs.Files.Lookup

/-!
# Which configurations can be used

A configuration has no issue exactly if its names are those of checks, its
extensions are there and not blank, and its tight texts hold no blank. A source
then either gives one configuration or cannot be used, because its file cannot
be read, is no text, is refused by the decoder, or holds an invalid
configuration. Which source is chosen depends on names alone.
-/

namespace ManifestSpacing

/-- The check found under a name has that name, and every check is found. -/
theorem Check.ofName?_eq_some_iff {name : String} {check : Check} :
    ofName? name = some check ↔ check.name = name := by
  constructor
  · intro h
    simpa using List.find?_some h
  · rintro rfl
    exact ofName?_name check

theorem Check.ofName?_eq_none_iff {name : String} :
    ofName? name = none ↔ ∀ check : Check, check.name ≠ name := by
  rw [Option.eq_none_iff_forall_ne_some]
  exact forall_congr' fun check => not_congr ofName?_eq_some_iff

namespace Config

/-- What is asked of a configuration. -/
structure Valid (config : Config) : Prop where
  disabled : ∀ name ∈ config.disabled, ∃ check : Check, check.name = name
  severities : ∀ setting ∈ config.severities, ∃ check : Check, check.name = setting.1
  extensions_ne_nil : config.extensions ≠ []
  /-- Every extension holds a character that is not blank. -/
  extensions : ∀ extension ∈ config.extensions, ∃ c ∈ extension.toList, Blank.isBlank c = false
  extraTight : ∀ text ∈ config.extraTight,
    text ≠ "" ∧ ∀ c ∈ text.toList, Blank.isBlank c = false

theorem unknownChecks_eq_nil_iff {field : Field} {names : List String} :
    unknownChecks field names = [] ↔ ∀ name ∈ names, ∃ check : Check, check.name = name := by
  simp only [unknownChecks, List.map_eq_nil_iff, List.filter_eq_nil_iff, Option.isNone_iff_eq_none,
    Check.ofName?_eq_none_iff, not_forall, ne_eq, not_not]

theorem invalidEntries_eq_nil_iff {field : Field} {fault? : String → Option Fault}
    {values : List String} :
    invalidEntries field fault? values = [] ↔ ∀ value ∈ values, fault? value = none := by
  simp only [invalidEntries, List.filterMap_eq_nil_iff, Option.map_eq_none_iff]

theorem extensionFault?_eq_none_iff {extension : String} : extensionFault? extension = none ↔
    ∃ c ∈ extension.toList, Blank.isBlank c = false := by
  simp [extensionFault?]

theorem tightFault?_eq_none_iff {text : String} : tightFault? text = none ↔
    text ≠ "" ∧ ∀ c ∈ text.toList, Blank.isBlank c = false := by
  unfold tightFault?
  split
  · simp [*]
  · simp [*]

/-- Validation finds an issue unless the configuration is valid. -/
theorem issues_eq_nil_iff {config : Config} : config.issues = [] ↔ config.Valid := by
  simp only [issues, List.append_eq_nil_iff, unknownChecks_eq_nil_iff, invalidEntries_eq_nil_iff,
    extensionFault?_eq_none_iff, tightFault?_eq_none_iff, ite_eq_right_iff, List.isEmpty_iff,
    List.forall_mem_map]
  constructor
  · rintro ⟨⟨⟨⟨hdisabled, hseverities⟩, hsome⟩, hextensions⟩, htight⟩
    refine ⟨hdisabled, hseverities, fun hnil => ?_, hextensions, htight⟩
    cases hsome hnil
  · rintro ⟨hdisabled, hseverities, hsome, hextensions, htight⟩
    exact ⟨⟨⟨⟨hdisabled, hseverities⟩, fun hnil => absurd hnil hsome⟩, hextensions⟩, htight⟩

section Sources

variable (decode : String → Except String Config) (tree : FileTree) (directory : Location)

/-- Whether a file holds a valid configuration. -/
def Holds (path : Path) (config : Config) : Prop :=
  ∃ text, tree.read directory path = .ok (Bytes.ofText text) ∧ decode text = .ok config ∧
    config.Valid

/-- Why a file holds no valid configuration. -/
inductive Faulty (path : Path) : Prop
  | unreadable (cause : AccessError) (hread : tree.read directory path = .error cause)
  | notText (bytes : Bytes) (hread : tree.read directory path = .ok bytes)
      (hbytes : ∀ text, bytes ≠ Bytes.ofText text)
  /-- The text is no TOML, or has other settings than a configuration. -/
  | malformed (text cause : String) (hread : tree.read directory path = .ok (Bytes.ofText text))
      (hdecode : decode text = .error cause)
  | invalid (text : String) (config : Config)
      (hread : tree.read directory path = .ok (Bytes.ofText text))
      (hdecode : decode text = .ok config) (hvalid : ¬ config.Valid)

/-- Whether a source gives a configuration: the one that its file holds, and the standard one if it
has no file. -/
def Gives (origin : Source) (config : Config) : Prop :=
  match origin.path? with
  | some path => Holds decode tree directory path config
  | none => config = standard

/-- Whether a source has a file that holds no valid configuration. -/
def Unusable (origin : Source) : Prop :=
  ∃ path, origin.path? = some path ∧ Faulty decode tree directory path

variable {decode tree directory} {origin : Source} {config : Config}

theorem faulty_iff {path : Path} : Faulty decode tree directory path ↔
    ∀ config, ¬ Holds decode tree directory path config := by
  constructor
  · rintro h config ⟨text, hread, hdecode, hvalid⟩
    cases h with
    | unreadable cause hread' =>
      rw [hread] at hread'
      cases hread'
    | notText bytes hread' hbytes =>
      rw [hread] at hread'
      cases hread'
      exact hbytes text rfl
    | malformed text' cause hread' hdecode' =>
      rw [hread, Except.ok.injEq, Bytes.ofText_inj] at hread'
      rw [← hread', hdecode] at hdecode'
      cases hdecode'
    | invalid text' config' hread' hdecode' hvalid' =>
      rw [hread, Except.ok.injEq, Bytes.ofText_inj] at hread'
      rw [← hread', hdecode] at hdecode'
      cases hdecode'
      exact hvalid' hvalid
  · intro h
    cases hread : tree.read directory path with
    | error cause => exact .unreadable cause hread
    | ok bytes =>
      by_cases htext : ∃ text, bytes = Bytes.ofText text
      · obtain ⟨text, rfl⟩ := htext
        cases hdecode : decode text with
        | error cause => exact .malformed text cause hread hdecode
        | ok config =>
          exact .invalid text config hread hdecode fun hvalid =>
            h config ⟨text, hread, hdecode, hvalid⟩
      · exact .notText bytes hread fun text hbytes => htext ⟨text, hbytes⟩

/-- A text gives the valid configuration that it is decoded to. -/
theorem parse_eq_ok_iff {text : String} : parse decode origin text = .ok config ↔
    decode text = .ok config ∧ config.Valid := by
  unfold parse
  cases decode text with
  | error cause => simp
  | ok decoded =>
    by_cases hissues : decoded.issues = []
    · have hvalid := issues_eq_nil_iff.mp hissues
      simp only [if_pos hissues, Except.ok.injEq, iff_self_and]
      rintro rfl
      exact hvalid
    · have hvalid := mt issues_eq_nil_iff.mpr hissues
      simp only [if_neg hissues, reduceCtorEq, Except.ok.injEq, false_iff, not_and]
      rintro rfl
      exact hvalid

/-- Exactly the configuration that a source gives is loaded. -/
theorem load_eq_ok_iff : load decode tree directory origin = .ok config ↔
    Gives decode tree directory origin config := by
  unfold load Gives
  cases origin.path? with
  | none => simp [eq_comm]
  | some path =>
    unfold Holds
    simp only [← FileTree.readText_eq_ok_iff]
    cases tree.readText directory path with
    | error cause => simp
    | ok text => simp [parse_eq_ok_iff]

/-- Nothing is loaded exactly if the source cannot be used. -/
theorem exists_load_eq_error_iff : (∃ cause, load decode tree directory origin = .error cause) ↔
    Unusable decode tree directory origin := by
  have herror : (∃ cause, load decode tree directory origin = .error cause) ↔
      ∀ config, ¬ Gives decode tree directory origin config := by
    simp only [← load_eq_ok_iff]
    cases load decode tree directory origin with
    | error cause => simp
    | ok config => simp
  rw [herror]
  unfold Gives Unusable
  cases origin.path? with
  | none => simp
  | some path => simp [faulty_iff]

end Sources

/-- The source of the configuration does not depend on what is in the files. -/
theorem choose_hollow (tree : FileTree) (directory : Location) (asked : Option Path)
    (searched : Path) (home : Option Path) :
    choose tree.hollow directory asked searched home =
      choose tree directory asked searched home := by
  have hisFile : tree.hollow.isFile directory = tree.isFile directory :=
    funext (tree.isFile_hollow directory)
  simp only [choose, find?, hisFile]

end Config

end ManifestSpacing
