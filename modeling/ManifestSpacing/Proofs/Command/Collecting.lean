import Mathlib
import ManifestSpacing.Command.Checking
import ManifestSpacing.Proofs.Files.Replacing

/-!
# Which files are collected

A file is collected by its own path. Of a directory exactly those files at any
depth below it are collected whose names have an extension of manifests, each
once and in the order of their names, provided that all directories at and
below it can be listed. What is known of the walk through a directory is that
it comes across everything or fails at a directory that cannot be listed; the
walk of the program keeps to that.
-/

namespace ManifestSpacing

namespace Command

/-! ## What is known of libraries -/

/-- Whether a directory can be listed, by a path that leads to it. -/
def Listable (tree : FileTree) (directory : Location) (path : Path) : Prop :=
  ∃ names, tree.list directory path = .ok names

/-- What is known of the libraries of a run. -/
structure Libraries.Lawful (libraries : Libraries) : Prop where
  /-- A walk that succeeds lists every directory and comes across every entry once. -/
  walks : ∀ (tree : FileTree) (directory : Location) (path : Path) (location : Location)
    (mode : Nat) (found : List Found),
    tree.resolve directory path = .ok (location, .directory mode) →
    libraries.walk tree directory path = .ok found →
    found.Nodup ∧
    (∀ item, item ∈ found ↔ ∃ entry, tree.find? (location ++ item.names) = some entry ∧
      entry.isFile = item.isFile) ∧
    ∀ item ∈ found, item.isFile = false → Listable tree directory (path.through item.names)
  /-- A walk fails at a directory that cannot be listed. -/
  stops : ∀ (tree : FileTree) (directory : Location) (path : Path) (location : Location)
    (mode : Nat) (e : WalkError),
    tree.resolve directory path = .ok (location, .directory mode) →
    libraries.walk tree directory path = .error e →
    ∃ names, tree.isDirectory (location ++ names) = true ∧ e.path = path.through names ∧
      tree.list directory e.path = .error e.cause
  device : libraries.device.Lawful

theorem mem_below_iff {tree : FileTree} {location : Location} {names : List String}
    {entry : Entry} : (names, entry) ∈ tree.below location ↔
      tree.find? (location ++ names) = some entry := by
  rw [FileTree.find?_eq_some_iff, FileTree.below, List.mem_filterMap]
  constructor
  · rintro ⟨⟨child, found⟩, hmem, h⟩
    rw [Option.ite_none_right_eq_some, List.isPrefixOf_iff_prefix] at h
    obtain ⟨⟨rest, rfl⟩, h⟩ := h
    rw [List.drop_left, Option.some.injEq] at h
    cases h
    exact hmem
  · intro hmem
    refine ⟨_, hmem, ?_⟩
    simp

/-- No names lead to two entries below a location. -/
theorem nodup_below (tree : FileTree) (location : Location) :
    ((tree.below location).map Prod.fst).Nodup := by
  have hbelow : (tree.below location).map Prod.fst =
      (tree.entries.map Prod.fst).filterMap fun child =>
        if location.isPrefixOf child then some (child.drop location.length) else none := by
    rw [FileTree.below, List.map_filterMap, List.filterMap_map]
    refine List.filterMap_congr fun entry _ => ?_
    simp only [Function.comp_apply]
    split
    · rfl
    · rfl
  rw [hbelow]
  refine tree.nodup.filterMap fun child other names hchild hother => ?_
  simp only [Option.mem_def, Option.ite_none_right_eq_some, List.isPrefixOf_iff_prefix,
    Option.some.injEq] at hchild hother
  obtain ⟨⟨rest, rfl⟩, hrest⟩ := hchild
  obtain ⟨⟨rest', rfl⟩, hrest'⟩ := hother
  rw [List.drop_left] at hrest hrest'
  rw [hrest, hrest']

namespace Libraries

theorem obstacle?_eq_none_iff {tree : FileTree} {directory : Location} {path : Path}
    {names : List String} {entry : Entry} : obstacle? tree directory path names entry = none ↔
      (entry.isFile = false → Listable tree directory (path.through names)) := by
  unfold obstacle? Listable
  cases entry.isFile with
  | true => simp
  | false =>
    cases tree.list directory (path.through names) with
    | error cause => simp
    | ok children => simp

theorem obstacle?_eq_some {tree : FileTree} {directory : Location} {path : Path}
    {names : List String} {entry : Entry} {e : WalkError}
    (h : obstacle? tree directory path names entry = some e) : entry.isFile = false ∧
      e.path = path.through names ∧ tree.list directory e.path = .error e.cause := by
  unfold obstacle? at h
  split at h
  · cases h
  · split at h
    · cases h
    · rename_i hfile _ cause hlist
      cases h
      exact ⟨Bool.eq_false_iff.mpr hfile, rfl, hlist⟩

theorem standard_lawful : standard.Lawful where
  walks := by
    intro tree directory path location mode found hresolve hwalk
    change walkInOrder tree directory path = .ok found at hwalk
    simp only [walkInOrder, hresolve] at hwalk
    split at hwalk
    · cases hwalk
    · rename_i hobstacle
      cases hwalk
      rw [List.findSome?_eq_none_iff] at hobstacle
      refine ⟨?_, fun item => ?_, fun item hitem hdirectory => ?_⟩
      · refine List.Nodup.of_map Found.names ?_
        rw [List.map_map]
        exact nodup_below tree location
      · simp only [List.mem_map, Prod.exists, mem_below_iff]
        constructor
        · rintro ⟨names, entry, hfound, rfl⟩
          exact ⟨entry, hfound, rfl⟩
        · rintro ⟨entry, hfound, hfile⟩
          exact ⟨item.names, entry, hfound, by rw [hfile]⟩
      · obtain ⟨⟨names, entry⟩, hmem, rfl⟩ := List.mem_map.mp hitem
        have hnone : obstacle? tree directory path names entry = none := hobstacle _ hmem
        exact obstacle?_eq_none_iff.mp hnone hdirectory
  stops := by
    intro tree directory path location mode e hresolve hwalk
    change walkInOrder tree directory path = .error e at hwalk
    simp only [walkInOrder, hresolve] at hwalk
    split at hwalk
    · rename_i e' hobstacle
      cases hwalk
      obtain ⟨⟨names, entry⟩, hmem, hsome⟩ := List.exists_of_findSome?_eq_some hobstacle
      have hsome : obstacle? tree directory path names entry = some e := hsome
      obtain ⟨hdirectory, hpath, hlist⟩ := obstacle?_eq_some hsome
      have hfound : tree.find? (location ++ names) = some entry := mem_below_iff.mp hmem
      refine ⟨names, FileTree.isDirectory_iff.mpr ?_, hpath, hlist⟩
      cases entry with
      | file content mode => cases hdirectory
      | directory mode => exact ⟨mode, hfound⟩
    · cases hwalk
  device := Device.ready_lawful

end Libraries

/-! ## The files of a path -/

/-- Ways are compared in the order of lists of names. -/
theorem comesBefore_iff {way other : Location} :
    FileTree.comesBefore way other = true ↔ ¬ other < way := by
  induction way generalizing other with
  | nil => simp [FileTree.comesBefore]
  | cons name way ih =>
    cases other with
    | nil => simp [FileTree.comesBefore]
    | cons name' other =>
      rw [FileTree.comesBefore, List.cons_lt_cons_iff]
      split
      · rename_i hname
        simp [hname, ih]
      · rename_i hname
        simp only [decide_eq_true_eq, Ne.symm hname, false_and, or_false, String.not_lt]

/-- Different ways are sorted strictly. -/
theorem pairwise_stableSort_comesBefore {ways : List Location} (hnodup : ways.Nodup) :
    (stableSort FileTree.comesBefore ways).Pairwise fun way other => way < other := by
  have hsorted := @pairwise_stableSort Location FileTree.comesBefore
    (fun a b c hab hbc => comesBefore_iff.mpr (not_lt.mpr
      ((not_lt.mp (comesBefore_iff.mp hab)).trans (not_lt.mp (comesBefore_iff.mp hbc)))))
    (fun a b => (le_total a b).imp (fun h => comesBefore_iff.mpr (not_lt.mpr h))
      fun h => comesBefore_iff.mpr (not_lt.mpr h)) ways
  have hdistinct := (stableSort_perm FileTree.comesBefore ways).nodup_iff.mpr hnodup
  refine (hsorted.and hdistinct).imp fun ⟨hle, hne⟩ => ?_
  exact lt_of_le_of_ne (not_lt.mp (comesBefore_iff.mp hle)) hne

/-- Whether names lead to a file with an extension of manifests. -/
def HasManifestName (config : Config) (names : List String) : Prop :=
  ∃ name extension, names.getLast? = some name ∧ Path.extension? name = some extension ∧
    ∃ known ∈ config.extensions, Config.bareExtension known = extension

theorem isManifest_iff {config : Config} {names : List String} :
    isManifest config names = true ↔ HasManifestName config names := by
  unfold isManifest HasManifestName
  cases names.getLast? with
  | none => simp
  | some name =>
    cases hextension : Path.extension? name with
    | none => simp [hextension]
    | some extension =>
      simp only [Option.bind_some, hextension, Option.map_some, Option.getD_some,
        Config.isManifestExtension, List.any_eq_true, beq_iff_eq, Option.some.injEq]
      constructor
      · exact fun h => ⟨name, extension, rfl, hextension, h⟩
      · rintro ⟨_, _, rfl, hextension', h⟩
        rw [hextension, Option.some.injEq] at hextension'
        rwa [hextension']

/-- Whether files are those of a path. -/
inductive Collects (tree : FileTree) (directory : Location) (config : Config) (path : Path) :
    List Path → Prop
  /-- A file that is named is always one of them. -/
  | file (location : Location) (content : Bytes) (mode : Nat)
      (h : tree.resolve directory path = .ok (location, .file content mode)) :
      Collects tree directory config path [path]
  /-- Below a directory they are exactly the manifests, sorted by name. -/
  | directory (location : Location) (mode : Nat) (ways : List (List String))
      (h : tree.resolve directory path = .ok (location, .directory mode))
      (hlistable : ∀ names, tree.isDirectory (location ++ names) = true →
        Listable tree directory (path.through names))
      (hways : ∀ names, names ∈ ways ↔ HasManifestName config names ∧
        ∃ content mode, tree.find? (location ++ names) = some (.file content mode))
      (hsorted : ways.Pairwise fun way other => way < other) :
      Collects tree directory config path (ways.map path.through)

/-- Why the files of a path cannot be collected. -/
inductive Uncollectable (tree : FileTree) (directory : Location) (path : Path) : Prop
  /-- The path leads nowhere. -/
  | missing (cause : AccessError) (h : tree.resolve directory path = .error cause)
  /-- A directory at or below it cannot be listed. -/
  | unlistable (location : Location) (mode : Nat) (names : List String)
      (h : tree.resolve directory path = .ok (location, .directory mode))
      (hdirectory : tree.isDirectory (location ++ names) = true)
      (hlist : ¬ Listable tree directory (path.through names))

section Manifests

variable {libraries : Libraries} {tree : FileTree} {directory : Location} {config : Config}
  {path : Path} {files : List Path}

/-- A path has one list of files. -/
theorem Collects.unique {other : List Path} (h : Collects tree directory config path files)
    (hother : Collects tree directory config path other) : files = other := by
  cases h with
  | file location content mode h =>
    cases hother with
    | file => rfl
    | directory location' mode' ways h' =>
      rw [h] at h'
      cases h'
  | directory location mode ways h _ hways hsorted =>
    cases hother with
    | file location' content mode' h' =>
      rw [h] at h'
      cases h'
    | directory location' mode' ways' h' _ hways' hsorted' =>
      rw [h] at h'
      cases h'
      have hsame : ways = ways' := hsorted.eq_of_mem_iff hsorted' fun names => by
        rw [hways, hways']
      rw [hsame]

/-- A walk that succeeds comes across the files of a directory. -/
theorem collects_of_walk (hlawful : libraries.Lawful) {location : Location} {mode : Nat}
    {found : List Found} (hresolve : tree.resolve directory path = .ok (location, .directory mode))
    (hwalk : libraries.walk tree directory path = .ok found) :
    Collects tree directory config path ((stableSort FileTree.comesBefore
      ((found.filter fun item => item.isFile && isManifest config item.names).map
        Found.names)).map path.through) := by
  obtain ⟨hnodup, hfound, hlistable⟩ := hlawful.walks _ _ _ _ _ _ hresolve hwalk
  refine .directory location mode _ hresolve (fun names hnames => ?_) (fun names => ?_)
    (pairwise_stableSort_comesBefore ?_)
  · obtain ⟨mode', hentry⟩ := FileTree.isDirectory_iff.mp hnames
    exact hlistable ⟨names, false⟩ ((hfound _).mpr ⟨_, hentry, rfl⟩) rfl
  · simp only [mem_stableSort, List.mem_map, List.mem_filter, Bool.and_eq_true, isManifest_iff]
    constructor
    · rintro ⟨item, ⟨hitem, hfile, hmanifest⟩, rfl⟩
      obtain ⟨entry, hentry, hsame⟩ := (hfound item).mp hitem
      cases entry with
      | file content mode => exact ⟨hmanifest, content, mode, hentry⟩
      | directory mode =>
        rw [hfile] at hsame
        cases hsame
    · rintro ⟨hmanifest, content, mode, hentry⟩
      exact ⟨⟨names, true⟩, ⟨(hfound _).mpr ⟨_, hentry, rfl⟩, rfl, hmanifest⟩, rfl⟩
  · -- the names tell the files apart, since all that is left are files
    refine (hnodup.filter _).map_on fun item hitem other hother hnames => ?_
    have hfile := (List.mem_filter.mp hitem).2
    have hfile' := (List.mem_filter.mp hother).2
    rw [Bool.and_eq_true] at hfile hfile'
    obtain ⟨names, isFile⟩ := item
    obtain ⟨names', isFile'⟩ := other
    simp only [Found.mk.injEq]
    exact ⟨hnames, hfile.1.trans hfile'.1.symm⟩

/-- A walk that fails does so at a directory that cannot be listed. -/
theorem uncollectable_of_walk (hlawful : libraries.Lawful) {location : Location} {mode : Nat}
    {e : WalkError} (hresolve : tree.resolve directory path = .ok (location, .directory mode))
    (hwalk : libraries.walk tree directory path = .error e) :
    Uncollectable tree directory path := by
  obtain ⟨names, hdirectory, hpath, hlist⟩ := hlawful.stops _ _ _ _ _ _ hresolve hwalk
  refine .unlistable location mode names hresolve hdirectory ?_
  rintro ⟨children, hchildren⟩
  rw [hpath, hchildren] at hlist
  cases hlist

/-- The files of a path are collected, or cannot be. -/
theorem manifestsOf_cases (hlawful : libraries.Lawful) (tree : FileTree) (directory : Location)
    (config : Config) (path : Path) :
    (∃ files, manifestsOf libraries tree directory config path = .ok files ∧
      Collects tree directory config path files) ∨
    ∃ e, manifestsOf libraries tree directory config path = .error e ∧
      Uncollectable tree directory path := by
  unfold manifestsOf
  cases hresolve : tree.resolve directory path with
  | error cause => exact Or.inr ⟨_, rfl, .missing cause hresolve⟩
  | ok result =>
    obtain ⟨location, content | mode⟩ := result
    · exact Or.inl ⟨_, rfl, .file location _ _ hresolve⟩
    · dsimp only
      cases hwalk : libraries.walk tree directory path with
      | error e => exact Or.inr ⟨_, rfl, uncollectable_of_walk hlawful hresolve hwalk⟩
      | ok found => exact Or.inl ⟨_, rfl, collects_of_walk hlawful hresolve hwalk⟩

/-- The files of a path cannot be collected where they are known. -/
theorem Collects.not_uncollectable (h : Collects tree directory config path files) :
    ¬ Uncollectable tree directory path := by
  intro hnot
  cases h with
  | file location content mode h =>
    cases hnot with
    | missing cause h' =>
      rw [h] at h'
      cases h'
    | unlistable location' mode' names h' =>
      rw [h] at h'
      cases h'
  | directory location mode ways h hlistable =>
    cases hnot with
    | missing cause h' =>
      rw [h] at h'
      cases h'
    | unlistable location' mode' names h' hdirectory hlist =>
      rw [h] at h'
      cases h'
      exact hlist (hlistable names hdirectory)

theorem manifestsOf_eq_ok_iff (hlawful : libraries.Lawful) :
    manifestsOf libraries tree directory config path = .ok files ↔
      Collects tree directory config path files := by
  obtain ⟨known, hok, hcollects⟩ | ⟨e, herror, hnot⟩ :=
    manifestsOf_cases hlawful tree directory config path
  · rw [hok, Except.ok.injEq]
    exact ⟨fun h => h ▸ hcollects, hcollects.unique⟩
  · rw [herror]
    exact iff_of_false nofun fun h => h.not_uncollectable hnot

/-- What is in the files does not matter for which of them are collected. -/
theorem collects_hollow : Collects tree.hollow directory config path files ↔
    Collects tree directory config path files := by
  have hisDirectory (location : Location) : tree.hollow.isDirectory location = true ↔
      tree.isDirectory location = true := by
    simp only [FileTree.isDirectory_iff, FileTree.find?_hollow_eq_directory_iff]
  have hlistable (names : List String) : Listable tree.hollow directory (path.through names) ↔
      Listable tree directory (path.through names) := by
    rw [Listable, tree.list_hollow, Listable]
  have hfile (location : Location) :
      (∃ content mode, tree.hollow.find? location = some (.file content mode)) ↔
        ∃ content mode, tree.find? location = some (.file content mode) := by
    rw [exists_comm, @exists_comm Bytes]
    exact exists_congr fun mode => FileTree.exists_find?_hollow_eq_file_iff
  constructor
  · intro h
    cases h with
    | file location content mode h =>
      obtain ⟨content', h'⟩ := FileTree.exists_resolve_hollow_eq_file_iff.mp ⟨content, h⟩
      exact .file location content' mode h'
    | directory location mode ways h hlist hways hsorted =>
      simp only [hisDirectory, hlistable, hfile] at hlist hways
      exact .directory location mode ways (FileTree.resolve_hollow_eq_directory_iff.mp h) hlist
        hways hsorted
  · intro h
    cases h with
    | file location content mode h =>
      obtain ⟨content', h'⟩ := FileTree.exists_resolve_hollow_eq_file_iff.mpr ⟨content, h⟩
      exact .file location content' mode h'
    | directory location mode ways h hlist hways hsorted =>
      simp only [← hisDirectory, ← hlistable, ← hfile] at hlist hways
      exact .directory location mode ways (FileTree.resolve_hollow_eq_directory_iff.mpr h) hlist
        hways hsorted

end Manifests

/-! ## The files of all paths -/

/-- Whether files are those of several paths in turn. -/
def CollectsAll (tree : FileTree) (directory : Location) (config : Config)
    (paths files : List Path) : Prop :=
  ∃ groups, List.Forall₂ (Collects tree directory config) paths groups ∧ files = groups.flatten

theorem collectsAll_hollow {tree : FileTree} {directory : Location} {config : Config}
    {paths files : List Path} : CollectsAll tree.hollow directory config paths files ↔
      CollectsAll tree directory config paths files := by
  have hsame : Collects tree.hollow directory config = Collects tree directory config := by
    funext path files
    exact propext collects_hollow
  rw [CollectsAll, hsame, CollectsAll]

section Collect

variable {libraries : Libraries} (hlawful : libraries.Lawful) {tree : FileTree}
  {directory : Location} {config : Config} {paths files : List Path}

include hlawful

theorem collect_eq_ok_iff : collect libraries tree directory config paths = .ok files ↔
    CollectsAll tree directory config paths files := by
  unfold CollectsAll
  induction paths generalizing files with
  | nil => simp [collect, eq_comm]
  | cons path paths ih =>
    rw [collect]
    constructor
    · intro h
      split at h
      · cases h
      · rename_i known hknown
        cases hmore : collect libraries tree directory config paths with
        | error e =>
          rw [hmore] at h
          cases h
        | ok more =>
          rw [hmore] at h
          cases h
          obtain ⟨groups, hgroups, rfl⟩ := ih.mp hmore
          exact ⟨known :: groups, .cons ((manifestsOf_eq_ok_iff hlawful).mp hknown) hgroups, rfl⟩
    · rintro ⟨groups, hgroups, rfl⟩
      cases hgroups with
      | cons hknown hgroups =>
        rw [(manifestsOf_eq_ok_iff hlawful).mpr hknown]
        simp only [ih.mpr ⟨_, hgroups, rfl⟩, Except.map, List.flatten_cons]

theorem exists_collect_eq_error_iff :
    (∃ e, collect libraries tree directory config paths = .error e) ↔
      ∃ path ∈ paths, Uncollectable tree directory path := by
  induction paths with
  | nil => simp [collect]
  | cons path paths ih =>
    rw [List.exists_mem_cons_iff, ← ih, collect]
    obtain ⟨known, hok, hcollects⟩ | ⟨e, herror, hnot⟩ :=
      manifestsOf_cases hlawful tree directory config path
    · rw [hok]
      cases collect libraries tree directory config paths with
      | error e => simp [Except.map]
      | ok more => simp [Except.map, hcollects.not_uncollectable]
    · simp [herror, hnot]

end Collect

end Command

end ManifestSpacing
