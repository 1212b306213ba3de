import ManifestSpacing.Files.Path
import ManifestSpacing.Order.StableSort
import ManifestSpacing.Text.Bytes

/-!
# File trees

A tree maps locations to files and directories. No location has two entries,
and every entry but the root lies in a directory. A path is followed from a
working directory segment by segment, and every segment needs a directory to
start from, also an empty one: a slash after a file leads nowhere. Names and
paths have a greatest length, counted in bytes.

Permission bits are those of the owner. They decide which directories can be
passed through, listed and changed and which files can be read, unless whoever
looks at the tree is the superuser.
-/

namespace ManifestSpacing

/-- The names on the way from the root to a file or directory. -/
abbrev Location := List String

/-- What the owner of a file or directory may be allowed to do with it. -/
inductive Right where
  | read
  | write
  /-- To follow names in a directory. -/
  | search
  deriving DecidableEq, Repr

/-- The permission bit of a right. -/
def Right.bit : Right → Nat
  | read => 0o400
  | write => 0o200
  | search => 0o100

/-- What is found at a location. -/
inductive Entry where
  | file (content : Bytes) (mode : Nat)
  | directory (mode : Nat)
  deriving DecidableEq, Repr

namespace Entry

/-- The permission bits. -/
def mode : Entry → Nat
  | file _ mode => mode
  | directory mode => mode

/-- Changes the permission bits. -/
def withMode (mode : Nat) : Entry → Entry
  | file content _ => file content mode
  | directory _ => directory mode

/-- Changes the content of a file and keeps its permission bits. -/
def withContent (content : Bytes) : Entry → Entry
  | file _ mode => file content mode
  | directory mode => directory mode

/-- Whether the entry is a file. -/
def isFile : Entry → Bool
  | file .. => true
  | directory .. => false

/-- Whether the permission bits grant a right. -/
def grants (entry : Entry) (right : Right) : Bool := entry.mode &&& right.bit != 0

/-- The permission bits of a new file. -/
def newFileMode : Nat := 0o644

/-- The permission bits of a new directory. -/
def newDirectoryMode : Nat := 0o755

@[simp] theorem isFile_withMode (mode : Nat) (entry : Entry) :
    (entry.withMode mode).isFile = entry.isFile := by
  cases entry <;> rfl

@[simp] theorem isFile_withContent (content : Bytes) (entry : Entry) :
    (entry.withContent content).isFile = entry.isFile := by
  cases entry <;> rfl

@[simp] theorem mode_withContent (content : Bytes) (entry : Entry) :
    (entry.withContent content).mode = entry.mode := by
  cases entry <;> rfl

end Entry

/-- Why a file cannot be accessed. -/
inductive AccessError where
  | notFound
  | permissionDenied
  | alreadyExists
  | notDirectory
  | isDirectory
  | nameTooLong
  /-- No file has a name with this character. -/
  | nulInName
  /-- Any other cause, by its description. -/
  | other (description : String)
  deriving DecidableEq, Repr

/-- The description of an access error. -/
def AccessError.message : AccessError → String
  | notFound => "No such file or directory (os error 2)"
  | permissionDenied => "Permission denied (os error 13)"
  | alreadyExists => "File exists (os error 17)"
  | notDirectory => "Not a directory (os error 20)"
  | isDirectory => "Is a directory (os error 21)"
  | nameTooLong => "File name too long (os error 36)"
  | nulInName => "file name contained an unexpected NUL byte"
  | other description => description

/-- The locations of the directories among entries. -/
def directoriesOf (entries : List (Location × Entry)) : List Location :=
  (entries.filter fun entry => !entry.2.isFile).map Prod.fst

theorem mem_directoriesOf_iff {entries : List (Location × Entry)} {location : Location} :
    location ∈ directoriesOf entries ↔ ∃ mode, (location, .directory mode) ∈ entries := by
  simp only [directoriesOf, List.mem_map, List.mem_filter, Prod.exists, Bool.not_eq_true']
  constructor
  · rintro ⟨here, content | mode, ⟨hmem, hfile⟩, rfl⟩
    · cases hfile
    · exact ⟨mode, hmem⟩
  · rintro ⟨mode, hmem⟩
    exact ⟨location, .directory mode, ⟨hmem, rfl⟩, rfl⟩

/-- Where no location has two entries, looking one up finds it. -/
theorem lookup_eq_some_iff_mem {entries : List (Location × Entry)}
    (hnodup : (entries.map Prod.fst).Nodup) {location : Location} {entry : Entry} :
    entries.lookup location = some entry ↔ (location, entry) ∈ entries := by
  induction entries with
  | nil => simp
  | cons head rest ih =>
    obtain ⟨here, found⟩ := head
    obtain ⟨hnew, hrest⟩ := List.nodup_cons.mp hnodup
    have htail := ih hrest
    rw [List.lookup_cons, List.mem_cons, ← htail]
    by_cases hhere : location = here
    · subst hhere
      have hothers : rest.lookup location ≠ some entry := fun hother =>
        hnew (List.mem_map.mpr ⟨(location, entry), htail.mp hother, rfl⟩)
      simp [hothers, eq_comm]
    · simp [beq_eq_false_iff_ne.mpr hhere, hhere]

/-- Files and directories by location. -/
@[ext] structure FileTree where
  /-- The entries, in the order in which they were made. -/
  entries : List (Location × Entry)
  /-- Whether the superuser looks at the tree, for whom permission bits do not count. -/
  privileged : Bool
  /-- No location has two entries. -/
  nodup : (entries.map Prod.fst).Nodup
  /-- Everything but the root lies in a directory. -/
  rooted : ∀ location ∈ entries.map Prod.fst, location ≠ [] →
    location.dropLast ∈ directoriesOf entries
  deriving DecidableEq, Repr

namespace FileTree

/-- The tree of the superuser that holds only the root directory. -/
def empty : FileTree := ⟨[([], .directory Entry.newDirectoryMode)], true, by decide, by decide⟩

/-- What is found at a location. -/
def find? (tree : FileTree) (location : Location) : Option Entry := tree.entries.lookup location

/-- Nothing is found where no entry is. -/
theorem find?_eq_none_iff {tree : FileTree} {location : Location} :
    tree.find? location = none ↔ location ∉ tree.entries.map Prod.fst := by
  simp only [find?, List.lookup_eq_none_iff, bne_iff_ne, List.mem_map, not_exists, not_and]
  exact forall₂_congr fun entry _ => ne_comm

/-- What is found is an entry, and every entry is found. -/
theorem find?_eq_some_iff {tree : FileTree} {location : Location} {entry : Entry} :
    tree.find? location = some entry ↔ (location, entry) ∈ tree.entries :=
  lookup_eq_some_iff_mem tree.nodup

/-- Whether whoever looks at the tree has a right on an entry. -/
def allows (tree : FileTree) (right : Right) (entry : Entry) : Bool :=
  tree.privileged || entry.grants right

/-! ## Following paths -/

/-- The location that a segment leads to. -/
def descend (location : Location) (segment : String) : Location :=
  if segment = "" ∨ segment = "." then location
  else if segment = ".." then location.dropLast
  else location ++ [segment]

/-- How many bytes a name may have. -/
def nameLimit : Nat := 255

/-- How many bytes a path may have. -/
def pathLimit : Nat := 4095

/-- Whether a name is too long. -/
def isTooLong (name : String) : Bool := decide (nameLimit < name.utf8ByteSize)

/-- Follows segments from a location to an entry. -/
def follow (tree : FileTree) (location : Location) :
    List String → Except AccessError (Location × Entry)
  | [] =>
    match tree.find? location with
    | none => .error .notFound
    | some entry => .ok (location, entry)
  | segment :: rest =>
    match tree.find? location with
    | none => .error .notFound
    | some (.file ..) => .error .notDirectory
    | some (.directory mode) =>
      if segment ≠ "" ∧ tree.allows .search (.directory mode) = false then
        .error .permissionDenied
      else if isTooLong segment then .error .nameTooLong
      else tree.follow (descend location segment) rest

/-- The place where a path starts. -/
def startOf (directory : Location) (path : Path) : Location :=
  if path.isAbsolute then [] else directory

/-- Why a path cannot lead to anything, if its text alone tells. -/
def refusal? (path : Path) : Option AccessError :=
  if path.text.toList.contains '\x00' then some .nulInName
  else if path.text = "" then some .notFound
  else if pathLimit < path.text.utf8ByteSize then some .nameTooLong
  else none

/-- The entry that a path leads to from a working directory. -/
def resolve (tree : FileTree) (directory : Location) (path : Path) :
    Except AccessError (Location × Entry) :=
  match refusal? path with
  | some e => .error e
  | none => tree.follow (startOf directory path) path.segments

/-- The location that a path names, whether or not something is there. -/
def locate (directory : Location) (path : Path) : Location :=
  path.segments.foldl descend (startOf directory path)

/-- The bytes of a file. -/
def read (tree : FileTree) (directory : Location) (path : Path) : Except AccessError Bytes :=
  match tree.resolve directory path with
  | .error e => .error e
  | .ok (_, entry) =>
    if tree.allows .read entry then
      match entry with
      | .directory _ => .error .isDirectory
      | .file content _ => .ok content
    else .error .permissionDenied

/-- Whether a path leads to a file. -/
def isFile (tree : FileTree) (directory : Location) (path : Path) : Bool :=
  match tree.resolve directory path with
  | .ok (_, entry) => entry.isFile
  | .error _ => false

/-- Whether there is a directory at a location. -/
def isDirectory (tree : FileTree) (location : Location) : Bool :=
  match tree.find? location with
  | some (.directory _) => true
  | some (.file ..) | none => false

theorem isDirectory_iff {tree : FileTree} {location : Location} :
    tree.isDirectory location = true ↔ ∃ mode, tree.find? location = some (.directory mode) := by
  unfold isDirectory
  rcases tree.find? location with _ | content | mode
  · simp
  · simp
  · simp

/-- The names in a directory, sorted. -/
def names (tree : FileTree) (location : Location) : List String :=
  stableSort (fun a b => decide (a ≤ b)) (tree.entries.filterMap fun (child, _) =>
    if child ≠ [] ∧ child.dropLast = location then child.getLast? else none)

/-- The names in the directory that a path leads to, which must be readable. -/
def list (tree : FileTree) (directory : Location) (path : Path) :
    Except AccessError (List String) :=
  match tree.resolve directory path with
  | .error e => .error e
  | .ok (_, .file ..) => .error .notDirectory
  | .ok (location, .directory mode) =>
    if tree.allows .read (.directory mode) then .ok (tree.names location)
    else .error .permissionDenied

/-- The entries at a location and below it, by the names that lead to them from there. -/
def below (tree : FileTree) (location : Location) : List (List String × Entry) :=
  tree.entries.filterMap fun (child, entry) =>
    if location.isPrefixOf child then some (child.drop location.length, entry) else none

/-- Compares the names on two ways, the first difference counting. -/
def comesBefore : Location → Location → Bool
  | [], _ => true
  | _ :: _, [] => false
  | a :: as, b :: bs => if a = b then comesBefore as bs else decide (a ≤ b)

/-! ## Changing entries -/

/-- Changes the entries where they are. Files stay files, and directories stay directories. -/
def mapEntries (tree : FileTree) (change : Location → Entry → Entry)
    (h : ∀ location entry, (change location entry).isFile = entry.isFile) : FileTree where
  entries := tree.entries.map fun entry => (entry.1, change entry.1 entry.2)
  privileged := tree.privileged
  nodup := by simpa [Function.comp_def] using tree.nodup
  rooted := by simpa [directoriesOf, Function.comp_def, List.filter_map, h] using tree.rooted

/-- Applies a change to the entry at a location. -/
def modify (tree : FileTree) (location : Location) (change : Entry → Entry)
    (h : ∀ entry, (change entry).isFile = entry.isFile) : FileTree :=
  tree.mapEntries (fun here entry => if here = location then change entry else entry)
    fun here entry => by split <;> simp [h]

/-- Replaces the content of a file. -/
def overwrite (tree : FileTree) (location : Location) (content : Bytes) : FileTree :=
  tree.modify location (Entry.withContent content) (Entry.isFile_withContent content)

/-- Changes the permission bits at a location. -/
def chmod (tree : FileTree) (location : Location) (mode : Nat) : FileTree :=
  tree.modify location (Entry.withMode mode) (Entry.isFile_withMode mode)

/-- Removes the file at a location. A directory stays. -/
def remove (tree : FileTree) (location : Location) : FileTree where
  entries := tree.entries.filter fun entry => !(entry.1 == location && entry.2.isFile)
  privileged := tree.privileged
  nodup := (List.filter_sublist.map Prod.fst).nodup tree.nodup
  rooted := by
    have hdirectories : directoriesOf (tree.entries.filter fun entry =>
        !(entry.1 == location && entry.2.isFile)) = directoriesOf tree.entries := by
      unfold directoriesOf
      rw [List.filter_filter]
      congr 2
      funext entry
      cases entry.2.isFile <;> simp
    rw [hdirectories]
    exact fun here hhere => tree.rooted here ((List.filter_sublist.map Prod.fst).subset hhere)

/-- Adds an entry in a directory where there is none of that name. -/
def add (tree : FileTree) (location : Location) (entry : Entry) : FileTree :=
  if h : tree.find? location = none ∧ tree.isDirectory location.dropLast = true then
    { entries := tree.entries ++ [(location, entry)]
      privileged := tree.privileged
      nodup := by
        rw [List.map_append, List.nodup_append]
        refine ⟨tree.nodup, List.pairwise_singleton _ _, fun here hhere other hother heq => ?_⟩
        cases List.mem_singleton.mp hother
        cases heq
        exact find?_eq_none_iff.mp h.1 hhere
      rooted := by
        obtain ⟨mode, hholder⟩ := isDirectory_iff.mp h.2
        intro here hhere hroot
        rw [directoriesOf, List.filter_append, List.map_append]
        refine List.mem_append_left _ ?_
        rw [List.map_append] at hhere
        rcases List.mem_append.mp hhere with hold | hnew
        · exact tree.rooted here hold hroot
        · cases List.mem_singleton.mp hnew
          exact mem_directoriesOf_iff.mpr ⟨mode, find?_eq_some_iff.mp hholder⟩ }
  else tree

/-- Makes a directory, if there is a directory to hold it. -/
def addDirectory (tree : FileTree) (location : Location) : FileTree :=
  tree.add location (.directory Entry.newDirectoryMode)

/-- Makes a directory and those above it. -/
def makeDirectory (tree : FileTree) (location : Location) : FileTree :=
  (List.range (location.length + 1)).foldl (fun tree n => tree.addDirectory (location.take n)) tree

/-- Writes a file, which is made if it is missing. A directory stays as it is. -/
def put (tree : FileTree) (location : Location) (content : Bytes) : FileTree :=
  (tree.add location (.file content Entry.newFileMode)).overwrite location content

/-- Moves a file with its permission bits to the place of another file, which is gone then. -/
def rename (tree : FileTree) (source target : Location) : FileTree :=
  match tree.find? source, tree.find? target with
  | some (.file content mode), some (.file ..) =>
    if source = target then tree
    else ((tree.remove source).overwrite target content).chmod target mode
  | _, _ => tree

/-! ## What is found afterwards -/

/-- Changed entries are found where they were. -/
theorem find?_mapEntries (tree : FileTree) (change : Location → Entry → Entry)
    (h : ∀ location entry, (change location entry).isFile = entry.isFile) (location : Location) :
    (tree.mapEntries change h).find? location = (tree.find? location).map (change location) := by
  refine Option.ext fun found => ?_
  rw [find?_eq_some_iff, Option.map_eq_some_iff]
  simp only [find?_eq_some_iff, mapEntries, List.mem_map, Prod.mk.injEq, Prod.exists]
  constructor
  · rintro ⟨_, entry, hmem, rfl, hfound⟩
    exact ⟨entry, hmem, hfound⟩
  · rintro ⟨entry, hmem, hfound⟩
    exact ⟨location, entry, hmem, rfl, hfound⟩

/-- A change at a location shows there and nowhere else. -/
theorem find?_modify (tree : FileTree) (location other : Location) (change : Entry → Entry)
    (h : ∀ entry, (change entry).isFile = entry.isFile) :
    (tree.modify location change h).find? other =
      if other = location then (tree.find? other).map change else tree.find? other := by
  rw [modify, find?_mapEntries]
  split
  · rfl
  · exact Option.map_id'

/-- Overwriting changes the content of that file alone. -/
theorem find?_overwrite (tree : FileTree) (location other : Location) (content : Bytes) :
    (tree.overwrite location content).find? other =
      if other = location then (tree.find? other).map (Entry.withContent content)
      else tree.find? other :=
  tree.find?_modify location other _ _

/-- A file that is removed is gone, and nothing else is. -/
theorem find?_remove (tree : FileTree) (location other : Location) :
    (tree.remove location).find? other =
      if other = location then (tree.find? other).filter fun entry => !entry.isFile
      else tree.find? other := by
  refine Option.ext fun found => ?_
  rw [find?_eq_some_iff]
  split
  · rename_i hother
    rw [Option.filter_eq_some_iff, find?_eq_some_iff]
    simp [remove, hother]
  · rename_i hother
    rw [find?_eq_some_iff]
    simp [remove, hother]

/-- An entry that is added is found. -/
theorem find?_add {tree : FileTree} {location : Location} (hfree : tree.find? location = none)
    (hholder : tree.isDirectory location.dropLast = true) (entry : Entry) (other : Location) :
    (tree.add location entry).find? other =
      if other = location then some entry else tree.find? other := by
  rw [add, dif_pos ⟨hfree, hholder⟩]
  split
  · rename_i hother
    rw [find?_eq_some_iff, hother]
    exact List.mem_append_right _ (List.mem_singleton_self _)
  · rename_i hother
    refine Option.ext fun found => ?_
    rw [find?_eq_some_iff, find?_eq_some_iff]
    simp [hother]

end FileTree

end ManifestSpacing
