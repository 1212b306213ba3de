import ManifestSpacing.Command.Run
import ManifestSpacing.Proofs.Command.Collecting
import ManifestSpacing.Proofs.Config.Loading

/-!
# What a check run decides before it reads a manifest

A run fails as a whole exactly if its configuration cannot be used, it is asked
for an unknown check, or the files of one of its paths cannot be collected.
Otherwise it has one configuration, one linter and one list of files, which
depend on the content of the configuration file but not on that of any other
file.
-/

namespace ManifestSpacing

namespace Command

/-- Checks are found unless a name is unknown. -/
theorem exists_namedChecks_eq_ok_iff {names : List String} :
    (∃ checks, namedChecks names = .ok checks) ↔
      ∀ name ∈ names, Check.ofName? name ≠ none := by
  induction names with
  | nil => simp [namedChecks]
  | cons name names ih =>
    rw [List.forall_mem_cons, ← ih, namedChecks]
    cases Check.ofName? name with
    | none => simp
    | some check =>
      cases namedChecks names with
      | error failure => simp [Except.map]
      | ok checks => simp [Except.map]

theorem exists_chooseLinter_eq_ok_iff {config : Config} {only : List String} :
    (∃ linter, chooseLinter config only = .ok linter) ↔
      ∀ name ∈ only, ∃ check : Check, check.name = name := by
  have hnames : (∀ name ∈ only, ∃ check : Check, check.name = name) ↔
      ∀ name ∈ only, Check.ofName? name ≠ none := by
    refine forall₂_congr fun name _ => ?_
    simp [Check.ofName?_eq_none_iff]
  rw [hnames, ← exists_namedChecks_eq_ok_iff]
  cases only with
  | nil => simp [chooseLinter, namedChecks]
  | cons name names =>
    rw [chooseLinter]
    cases namedChecks (name :: names) with
    | error failure => simp [Except.map]
    | ok checks => simp [Except.map]

theorem mem_of_namedChecks_eq_ok {names : List String} {checks : List Check}
    (h : namedChecks names = .ok checks) (check : Check) : check ∈ checks ↔ check.name ∈ names := by
  induction names generalizing checks with
  | nil =>
    cases h
    simp
  | cons name names ih =>
    rw [namedChecks] at h
    cases hname : Check.ofName? name with
    | none =>
      rw [hname] at h
      cases h
    | some first =>
      rw [hname] at h
      cases hmore : namedChecks names with
      | error failure =>
        rw [hmore] at h
        cases h
      | ok more =>
        rw [hmore] at h
        cases h
        have hfirst : check = first ↔ check.name = name := by
          rw [← Check.ofName?_eq_some_iff, hname, Option.some.injEq, eq_comm]
        rw [List.mem_cons, List.mem_cons, ih hmore, hfirst]

/-- Exactly the checks that are not disabled are in the check set of a configuration. -/
theorem contains_checkSet_iff {config : Config} {check : Check} :
    config.checkSet.contains check = true ↔ check.name ∉ config.disabled := by
  have hfold (removed : List Check) (set : CheckSet) :
      (removed.foldl CheckSet.without set).contains check = true ↔
        set.contains check = true ∧ check ∉ removed := by
    induction removed generalizing set with
    | nil => simp
    | cons first removed ih =>
      rw [List.foldl_cons, ih, CheckSet.contains_without, List.mem_cons]
      simp [and_assoc]
  rw [Config.checkSet, hfold]
  have hall : CheckSet.all.contains check = true := by
    simp [CheckSet.all, CheckSet.contains, Check.mem_all]
  simp [hall, List.mem_filterMap, Check.ofName?_eq_some_iff]

/-- Whether a linter has the settings of a configuration, and runs the checks that are asked for, or
those that are not disabled if none are. -/
structure Chooses (config : Config) (only : List String) (linter : Linter) : Prop where
  settings : linter.settings = config.settings
  checks : ∀ check : Check, linter.checks.contains check = true ↔
    if only = [] then check.name ∉ config.disabled else check.name ∈ only

theorem chooses_of_chooseLinter_eq_ok {config : Config} {only : List String} {linter : Linter}
    (h : chooseLinter config only = .ok linter) : Chooses config only linter := by
  cases only with
  | nil =>
    cases h
    exact ⟨rfl, fun check => by rw [if_pos rfl, ← contains_checkSet_iff]; rfl⟩
  | cons name names =>
    rw [chooseLinter] at h
    cases hchecks : namedChecks (name :: names) with
    | error failure =>
      rw [hchecks] at h
      cases h
    | ok checks =>
      rw [hchecks] at h
      cases h
      refine ⟨rfl, fun check => ?_⟩
      rw [if_neg (List.cons_ne_nil _ _), ← mem_of_namedChecks_eq_ok hchecks]
      simp

/-- The source of the configuration of a check run. -/
def configSource (env : Environment) (tree : FileTree) (options : CheckOptions) : Config.Source :=
  Config.choose tree env.directory options.config env.directoryPath env.home

/-- What keeps a check run from starting. -/
inductive Blocked (libraries : Libraries) (env : Environment) (tree : FileTree)
    (options : CheckOptions) : Prop
  /-- The configuration file cannot be read, is no text, is not TOML with known settings, or is
  invalid. -/
  | config (h : Config.Unusable libraries.decode tree env.directory
      (configSource env tree options))
  | unknownCheck (name : String) (hname : name ∈ options.only)
      (h : ∀ check : Check, check.name ≠ name)
  /-- A path leads nowhere, or a directory at or below it cannot be listed. -/
  | path (path : Path) (hpath : path ∈ options.targets)
      (h : Uncollectable tree env.directory path)

/-- The configuration, the linter and the files of a check run. -/
structure Prepared (libraries : Libraries) (env : Environment) (tree : FileTree)
    (options : CheckOptions) (config : Config) (linter : Linter) (files : List Path) : Prop where
  gives : Config.Gives libraries.decode tree env.directory (configSource env tree options) config
  linter_eq : chooseLinter config options.only = .ok linter
  chooses : Chooses config options.only linter
  collects : CollectsAll tree env.directory config options.targets files

section Prepare

variable {libraries : Libraries} {env : Environment} {tree : FileTree} {options : CheckOptions}
  {config : Config} {linter : Linter} {files : List Path}

theorem loadConfig_eq_ok_iff : loadConfig libraries env tree options.config = .ok config ↔
    Config.Gives libraries.decode tree env.directory (configSource env tree options) config := by
  rw [← Config.load_eq_ok_iff]
  unfold loadConfig configSource
  dsimp only
  split
  · rename_i h
    simp [h]
  · rename_i h
    simp [h]

variable (hlawful : libraries.Lawful)

include hlawful

theorem Prepared.prepare_eq (h : Prepared libraries env tree options config linter files) :
    prepare libraries env tree options = .ok (linter, files) := by
  simp only [prepare, loadConfig_eq_ok_iff.mpr h.gives, h.linter_eq,
    (collect_eq_ok_iff hlawful).mpr h.collects]

/-- A check run is prepared unless it is blocked. -/
theorem exists_prepared (h : ¬ Blocked libraries env tree options) :
    ∃ config linter files, Prepared libraries env tree options config linter files := by
  cases hconfig : Config.load libraries.decode tree env.directory
      (configSource env tree options) with
  | error cause => exact absurd (.config (Config.exists_load_eq_error_iff.mp ⟨cause, hconfig⟩)) h
  | ok config =>
    obtain ⟨linter, hlinter⟩ : ∃ linter, chooseLinter config options.only = .ok linter :=
      exists_chooseLinter_eq_ok_iff.mpr fun name hname => by
        by_contra hnone
        exact h (.unknownCheck name hname (not_exists.mp hnone))
    cases hfiles : collect libraries tree env.directory config options.targets with
    | error e =>
      obtain ⟨path, hpath, hnot⟩ := (exists_collect_eq_error_iff hlawful).mp ⟨e, hfiles⟩
      exact absurd (.path path hpath hnot) h
    | ok files =>
      exact ⟨config, linter, files, Config.load_eq_ok_iff.mp hconfig, hlinter,
        chooses_of_chooseLinter_eq_ok hlinter, (collect_eq_ok_iff hlawful).mp hfiles⟩

/-- A blocked check run fails. -/
theorem Blocked.prepare_eq (h : Blocked libraries env tree options) :
    ∃ failure, prepare libraries env tree options = .error failure := by
  unfold prepare
  split
  · exact ⟨_, rfl⟩
  · rename_i config hconfig
    split
    · exact ⟨_, rfl⟩
    · rename_i linter hlinter
      split
      · exact ⟨_, rfl⟩
      · rename_i files hfiles
        exfalso
        cases h with
        | config h =>
          obtain ⟨cause, herror⟩ := Config.exists_load_eq_error_iff.mpr h
          rw [Config.load_eq_ok_iff.mpr (loadConfig_eq_ok_iff.mp hconfig)] at herror
          cases herror
        | unknownCheck name hname h =>
          obtain ⟨check, hcheck⟩ := exists_chooseLinter_eq_ok_iff.mp ⟨linter, hlinter⟩ name hname
          exact h check hcheck
        | path path hpath h =>
          obtain ⟨e, herror⟩ := (exists_collect_eq_error_iff hlawful).mpr ⟨path, hpath, h⟩
          rw [hfiles] at herror
          cases herror

end Prepare

/-! ## Asking again -/

/-- Whether two check runs are asked for the same files, checks and configuration. -/
structure CheckOptions.Agrees (options again : CheckOptions) : Prop where
  paths : again.paths = options.paths
  only : again.only = options.only
  config : again.config = options.config

section Agrees

variable {libraries : Libraries} {env : Environment} {tree : FileTree}
  {options again : CheckOptions} (hagrees : options.Agrees again)

include hagrees

theorem CheckOptions.Agrees.targets : again.targets = options.targets := by
  simp only [CheckOptions.targets, hagrees.paths]

theorem CheckOptions.Agrees.configSource {after : FileTree} (hhollow : after.hollow = tree.hollow) :
    Command.configSource env after again = Command.configSource env tree options := by
  rw [Command.configSource, Command.configSource, hagrees.config, ← Config.choose_hollow, hhollow,
    Config.choose_hollow]

theorem Blocked.of_agrees (h : Blocked libraries env tree options) :
    Blocked libraries env tree again := by
  cases h with
  | config h => exact .config (hagrees.configSource rfl ▸ h)
  | unknownCheck name hname h => exact .unknownCheck name (hagrees.only ▸ hname) h
  | path path hpath h => exact .path path (hagrees.targets ▸ hpath) h

/-- A run is prepared as before if only the content of other files than its configuration has
changed. -/
theorem Prepared.of_agrees {config : Config} {linter : Linter} {files : List Path}
    {after : FileTree} (h : Prepared libraries env tree options config linter files)
    (hhollow : after.hollow = tree.hollow)
    (hread : ∀ path, (Command.configSource env tree options).path? = some path →
      after.read env.directory path = tree.read env.directory path) :
    Prepared libraries env after again config linter files where
  gives := by
    have hgives := h.gives
    rw [hagrees.configSource hhollow]
    unfold Config.Gives at hgives ⊢
    cases hpath : (Command.configSource env tree options).path? with
    | none =>
      rw [hpath] at hgives
      exact hgives
    | some path =>
      rw [hpath] at hgives
      dsimp only at hgives ⊢
      rwa [Config.Holds, hread path hpath]
  linter_eq := by rw [hagrees.only, h.linter_eq]
  chooses := by
    rw [hagrees.only]
    exact h.chooses
  collects := by
    rw [hagrees.targets, ← collectsAll_hollow, hhollow, collectsAll_hollow]
    exact h.collects

end Agrees

section Decode

variable {libraries others : Libraries} (hdecode : others.decode = libraries.decode)
  {env : Environment} {tree : FileTree} {options : CheckOptions}

include hdecode

/-- Of the libraries only the decoder has a say in what blocks a run. -/
theorem Blocked.of_decode_eq (h : Blocked libraries env tree options) :
    Blocked others env tree options := by
  cases h with
  | config h => exact .config (hdecode.symm ▸ h)
  | unknownCheck name hname h => exact .unknownCheck name hname h
  | path path hpath h => exact .path path hpath h

theorem Prepared.of_decode_eq {config : Config} {linter : Linter} {files : List Path}
    (h : Prepared libraries env tree options config linter files) :
    Prepared others env tree options config linter files where
  gives := hdecode.symm ▸ h.gives
  linter_eq := h.linter_eq
  chooses := h.chooses
  collects := h.collects

end Decode

end Command

end ManifestSpacing
