import ManifestSpacing.Files.Snapshot

/-!
# What paths lead to

A path names one location whatever the tree holds, so that a tree decides only
whether the path can be followed and what it finds. Whether it can be followed,
listed or read does not depend on what is in the files. Reading a file is then
a look at that location.
-/

namespace ManifestSpacing

/-- Applies a change to the content of a file. -/
def Entry.mapContent (change : Bytes → Bytes) : Entry → Entry
  | file content mode => file (change content) mode
  | directory mode => directory mode

theorem Entry.withContent_eq (content : Bytes) :
    Entry.withContent content = Entry.mapContent fun _ => content := by
  funext entry
  cases entry with
  | file old mode => rfl
  | directory mode => rfl

namespace FileTree

theorem follow_eq_ok {tree : FileTree} {location : Location} {segments : List String}
    {found : Location × Entry} (h : tree.follow location segments = .ok found) :
    found.1 = segments.foldl descend location ∧ tree.find? found.1 = some found.2 := by
  induction segments generalizing location with
  | nil =>
    unfold follow at h
    split at h
    · cases h
    · rename_i entry hentry
      cases h
      exact ⟨rfl, hentry⟩
  | cons segment rest ih =>
    unfold follow at h
    split at h
    · cases h
    · cases h
    · split at h
      · cases h
      · split at h
        · cases h
        · exact ih h

/-- A path that leads somewhere leads to the location it names, and to what is there. -/
theorem resolve_eq_ok {tree : FileTree} {directory : Location} {path : Path}
    {found : Location × Entry} (h : tree.resolve directory path = .ok found) :
    found.1 = locate directory path ∧ tree.find? found.1 = some found.2 := by
  unfold resolve at h
  split at h
  · cases h
  · exact follow_eq_ok h

/-- A file is read at the location that its path names, if it may be read. -/
theorem read_eq_ok_iff {tree : FileTree} {directory : Location} {path : Path} {content : Bytes} :
    tree.read directory path = .ok content ↔
      ∃ mode, tree.resolve directory path = .ok (locate directory path, .file content mode) ∧
        tree.allows .read (.file content mode) = true := by
  unfold read
  constructor
  · intro h
    split at h
    · cases h
    · rename_i location entry hresolve
      have hlocation : location = locate directory path := (resolve_eq_ok hresolve).1
      split at h
      · rename_i hallows
        cases entry with
        | directory mode => cases h
        | file current mode =>
          cases h
          exact ⟨mode, hlocation ▸ hresolve, hallows⟩
      · cases h
  · rintro ⟨mode, hresolve, hallows⟩
    simp only [hresolve, hallows, if_true]

theorem find?_of_read {tree : FileTree} {directory : Location} {path : Path} {content : Bytes}
    (h : tree.read directory path = .ok content) :
    ∃ mode, tree.find? (locate directory path) = some (.file content mode) := by
  obtain ⟨mode, hresolve, -⟩ := read_eq_ok_iff.mp h
  exact ⟨mode, (resolve_eq_ok hresolve).2⟩

/-! ## What does not depend on the content of files -/

/-- A tree with nothing in its files. -/
def hollow (tree : FileTree) : FileTree :=
  tree.mapEntries (fun _ => Entry.withContent []) fun _ => Entry.isFile_withContent []

theorem find?_hollow (tree : FileTree) (location : Location) :
    tree.hollow.find? location = (tree.find? location).map (Entry.withContent []) :=
  tree.find?_mapEntries _ _ location

/-- Emptying files leaves directories where they are. -/
theorem find?_hollow_eq_directory_iff {tree : FileTree} {location : Location} {mode : Nat} :
    tree.hollow.find? location = some (.directory mode) ↔
      tree.find? location = some (.directory mode) := by
  rw [find?_hollow]
  rcases tree.find? location with _ | ⟨content, mode'⟩ | mode'
  · simp
  · simp [Entry.withContent]
  · simp [Entry.withContent]

/-- Emptied files are where the files were. -/
theorem exists_find?_hollow_eq_file_iff {tree : FileTree} {location : Location} {mode : Nat} :
    (∃ content, tree.hollow.find? location = some (.file content mode)) ↔
      ∃ content, tree.find? location = some (.file content mode) := by
  rw [find?_hollow]
  rcases tree.find? location with _ | ⟨content, mode'⟩ | mode'
  · simp
  · simp [Entry.withContent]
  · simp [Entry.withContent]

theorem allows_hollow (tree : FileTree) (right : Right) (entry : Entry) :
    tree.hollow.allows right (entry.withContent []) = tree.allows right entry := by
  simp only [allows, Entry.grants, Entry.mode_withContent]
  rfl

theorem follow_hollow (tree : FileTree) (location : Location) (segments : List String) :
    tree.hollow.follow location segments =
      (tree.follow location segments).map fun found => (found.1, found.2.withContent []) := by
  induction segments generalizing location with
  | nil =>
    unfold follow
    rw [find?_hollow]
    cases tree.find? location with
    | none => rfl
    | some entry => rfl
  | cons segment rest ih =>
    unfold follow
    rw [find?_hollow]
    rcases tree.find? location with _ | ⟨content, mode⟩ | ⟨mode⟩
    · rfl
    · rfl
    · have hallows := tree.allows_hollow .search (.directory mode)
      simp only [Entry.withContent] at hallows
      simp only [Option.map_some, Entry.withContent, ih, hallows]
      split
      · rfl
      · split
        · rfl
        · rfl

/-- What is in the files does not matter for where a path leads. -/
theorem resolve_hollow (tree : FileTree) (directory : Location) (path : Path) :
    tree.hollow.resolve directory path =
      (tree.resolve directory path).map fun found => (found.1, found.2.withContent []) := by
  unfold resolve
  cases refusal? path with
  | none => exact follow_hollow tree _ _
  | some e => rfl

theorem resolve_hollow_eq_directory_iff {tree : FileTree} {directory location : Location}
    {path : Path} {mode : Nat} :
    tree.hollow.resolve directory path = .ok (location, .directory mode) ↔
      tree.resolve directory path = .ok (location, .directory mode) := by
  rw [resolve_hollow]
  rcases tree.resolve directory path with cause | ⟨here, ⟨content, mode'⟩ | mode'⟩
  · simp [Except.map]
  · simp [Except.map, Entry.withContent]
  · simp [Except.map, Entry.withContent]

theorem exists_resolve_hollow_eq_file_iff {tree : FileTree} {directory location : Location}
    {path : Path} {mode : Nat} :
    (∃ content, tree.hollow.resolve directory path = .ok (location, .file content mode)) ↔
      ∃ content, tree.resolve directory path = .ok (location, .file content mode) := by
  rw [resolve_hollow]
  rcases tree.resolve directory path with cause | ⟨here, ⟨content, mode'⟩ | mode'⟩
  · simp [Except.map]
  · simp [Except.map, Entry.withContent]
  · simp [Except.map, Entry.withContent]

@[simp] theorem hollow_overwrite (tree : FileTree) (location : Location) (content : Bytes) :
    (tree.overwrite location content).hollow = tree.hollow := by
  refine FileTree.ext ?_ rfl
  simp only [hollow, overwrite, modify, mapEntries, List.map_map, List.map_inj_left]
  intro entry _
  simp only [Function.comp_apply, Prod.mk.injEq, true_and]
  split
  · cases entry.2 <;> rfl
  · rfl

theorem isFile_hollow (tree : FileTree) (directory : Location) (path : Path) :
    tree.hollow.isFile directory path = tree.isFile directory path := by
  unfold isFile
  rw [resolve_hollow]
  rcases tree.resolve directory path with _ | ⟨_, _ | _⟩
  · rfl
  · rfl
  · rfl

/-- A directory lists the same names, whatever is in its files. -/
theorem list_hollow (tree : FileTree) (directory : Location) (path : Path) :
    tree.hollow.list directory path = tree.list directory path := by
  have hnames (location : Location) : tree.hollow.names location = tree.names location := by
    simp only [names, hollow, mapEntries, List.filterMap_map, Function.comp_def]
  unfold list
  rw [resolve_hollow]
  rcases tree.resolve directory path with cause | ⟨location, content | mode⟩
  · rfl
  · rfl
  · have hallows := tree.allows_hollow .read (.directory mode)
    simp only [Entry.withContent] at hallows
    simp only [Except.map, Entry.withContent, hallows, hnames]

/-- Reading an emptied file gives nothing and fails as before. -/
theorem read_hollow (tree : FileTree) (directory : Location) (path : Path) :
    tree.hollow.read directory path = (tree.read directory path).map fun _ => [] := by
  unfold read
  rw [resolve_hollow]
  rcases tree.resolve directory path with cause | ⟨location, entry⟩
  · rfl
  · simp only [Except.map, allows_hollow]
    split
    · cases entry with
      | file content mode => rfl
      | directory mode => rfl
    · rfl

/-- Whether a path leads to a file that may be read. -/
def Readable (tree : FileTree) (directory : Location) (path : Path) : Prop :=
  ∃ content, tree.read directory path = .ok content

theorem readable_hollow {tree : FileTree} {directory : Location} {path : Path} :
    tree.hollow.Readable directory path ↔ tree.Readable directory path := by
  unfold Readable
  rw [read_hollow]
  cases tree.read directory path with
  | error cause => simp [Except.map]
  | ok content => simp [Except.map]

section SameShape

variable {tree after : FileTree} {directory : Location} {path : Path}
  (hhollow : after.hollow = tree.hollow)

include hhollow

/-- Whether a file can be read does not change with the content of files. -/
theorem readable_iff_of_hollow : after.Readable directory path ↔ tree.Readable directory path := by
  rw [← readable_hollow, hhollow, readable_hollow]

/-- Reading follows a change of the content at the location that the path names. -/
theorem read_eq_map_of_find? (change : Bytes → Bytes)
    (hfind : after.find? (locate directory path) =
      (tree.find? (locate directory path)).map (Entry.mapContent change)) :
    after.read directory path = (tree.read directory path).map change := by
  cases hbefore : tree.read directory path with
  | error cause =>
    have hread := after.read_hollow directory path
    rw [hhollow, read_hollow, hbefore] at hread
    cases hafter : after.read directory path with
    | error cause' =>
      rw [hafter] at hread
      cases hread
      rfl
    | ok content =>
      rw [hafter] at hread
      cases hread
  | ok content =>
    obtain ⟨content', hafter⟩ := (readable_iff_of_hollow hhollow).mpr ⟨content, hbefore⟩
    obtain ⟨mode, hfound⟩ := find?_of_read hbefore
    obtain ⟨mode', hfound'⟩ := find?_of_read hafter
    rw [hfound, hfound'] at hfind
    cases hfind
    exact hafter

theorem read_eq_of_find?_eq
    (hfind : after.find? (locate directory path) = tree.find? (locate directory path)) :
    after.read directory path = tree.read directory path := by
  have hsame : Entry.mapContent id = id := by
    funext entry
    cases entry with
    | file content mode => rfl
    | directory mode => rfl
  rw [read_eq_map_of_find? hhollow id (by rw [hfind, hsame, Option.map_id, id])]
  cases tree.read directory path with
  | error cause => rfl
  | ok content => rfl

end SameShape

/-- A file that is replaced is read with its new content. -/
theorem read_overwrite_locate {tree : FileTree} {directory : Location} {path : Path}
    {old : Bytes} (h : tree.read directory path = .ok old) (content : Bytes) :
    (tree.overwrite (locate directory path) content).read directory path = .ok content := by
  rw [read_eq_map_of_find? (tree.hollow_overwrite _ _) (fun _ => content), h]
  · rfl
  · rw [find?_overwrite, if_pos rfl, Entry.withContent_eq]

/-- A text is read exactly if the file has the bytes of that text. -/
theorem readText_eq_ok_iff {tree : FileTree} {directory : Location} {path : Path} {text : String} :
    tree.readText directory path = .ok text ↔
      tree.read directory path = .ok (Bytes.ofText text) := by
  unfold readText
  cases tree.read directory path with
  | error cause => simp
  | ok bytes =>
    rw [Except.ok.injEq, ← Bytes.text?_eq_some_iff]
    cases htext : Bytes.text? bytes with
    | none => simp [htext]
    | some text' => simp [htext]

end FileTree

namespace Snapshot

/-- A snapshot remembers the path and the bytes that were read. -/
theorem read_eq_ok_iff {tree : FileTree} {directory : Location} {path : Path}
    {snapshot : Snapshot} : Snapshot.read tree directory path = .ok snapshot ↔
      snapshot.path = path ∧ tree.read directory path = .ok (Bytes.ofText snapshot.content) := by
  rw [← FileTree.readText_eq_ok_iff]
  unfold Snapshot.read
  rcases tree.readText directory path with (cause | _) | content
  · simp
  · simp
  · obtain ⟨path', content'⟩ := snapshot
    simp [eq_comm]

end Snapshot

end ManifestSpacing
