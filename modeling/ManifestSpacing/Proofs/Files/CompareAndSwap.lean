import ManifestSpacing.Proofs.Files.Replacing

/-!
# Writing back never loses an update

Readers keep snapshots of files that others write, remove and change the
permissions of at any time. A snapshot is written back exactly while its file
has the bytes that were read and its directory accepts a temporary file; a
refusal changes nothing. After one reader has installed something else, the
others are refused until somebody writes those bytes again.
-/

namespace ManifestSpacing

namespace FileTree

/-- Whether there is a file with the given bytes at a location. -/
def Holds (tree : FileTree) (location : Location) (bytes : Bytes) : Prop :=
  ∃ mode, tree.find? location = some (.file bytes mode)

section Holds

variable {tree : FileTree} {location other : Location} {bytes content : Bytes}

theorem Holds.unique (h : tree.Holds location bytes) (h' : tree.Holds location content) :
    bytes = content := by
  obtain ⟨mode, hfound⟩ := h
  obtain ⟨mode', hfound'⟩ := h'
  rw [hfound] at hfound'
  cases hfound'
  rfl

theorem holds_of_find?_eq {after : FileTree} (h : after.find? location = tree.find? location) :
    after.Holds location bytes ↔ tree.Holds location bytes := by
  unfold Holds
  rw [h]

theorem holds_of_read {directory : Location} {path : Path}
    (h : tree.read directory path = .ok bytes) : tree.Holds (locate directory path) bytes :=
  find?_of_read h

theorem Holds.of_overwrite (h : (tree.overwrite location content).Holds other bytes) :
    tree.Holds other bytes ∨ other = location ∧ content = bytes := by
  by_cases hother : other = location
  · obtain ⟨mode, hfound⟩ := h
    rw [find?_overwrite, if_pos hother, Option.map_eq_some_iff] at hfound
    obtain ⟨entry, -, hentry⟩ := hfound
    cases entry with
    | directory mode => cases hentry
    | file old mode =>
      cases hentry
      exact Or.inr ⟨hother, rfl⟩
  · exact Or.inl ((holds_of_find?_eq (by rw [find?_overwrite, if_neg hother])).mp h)

theorem Holds.of_chmod {mode : Nat} (h : (tree.chmod location mode).Holds other bytes) :
    tree.Holds other bytes := by
  obtain ⟨mode', hfound⟩ := h
  rw [chmod, find?_modify] at hfound
  split at hfound
  · obtain ⟨entry, hentry, hmode⟩ := Option.map_eq_some_iff.mp hfound
    cases entry with
    | directory old => cases hmode
    | file content old =>
      cases hmode
      exact ⟨old, hentry⟩
  · exact ⟨mode', hfound⟩

theorem Holds.of_remove (h : (tree.remove location).Holds other bytes) :
    tree.Holds other bytes := by
  obtain ⟨mode, hfound⟩ := h
  rw [find?_remove] at hfound
  split at hfound
  · exact ⟨mode, (Option.filter_eq_some_iff.mp hfound).1⟩
  · exact ⟨mode, hfound⟩

theorem Holds.of_put (h : (tree.put location content).Holds other bytes) :
    tree.Holds other bytes ∨ other = location ∧ content = bytes := by
  obtain ⟨mode, hfound⟩ | hput := h.of_overwrite
  · by_cases hadd : tree.find? location = none ∧ tree.isDirectory location.dropLast = true
    · rw [find?_add hadd.1 hadd.2] at hfound
      split at hfound
      · cases hfound
        exact Or.inr ⟨‹_›, rfl⟩
      · exact Or.inl ⟨mode, hfound⟩
    · rw [add, dif_neg hadd] at hfound
      exact Or.inl ⟨mode, hfound⟩
  · exact Or.inr hput

end Holds

end FileTree

/-- Files together with the snapshots that readers keep of them. -/
structure SharedFiles where
  /-- The files. -/
  tree : FileTree
  /-- The snapshots, in the order in which they were taken. -/
  snapshots : List Snapshot
  deriving DecidableEq, Repr

namespace SharedFiles

/-- What can happen to shared files. -/
inductive Event where
  /-- A reader takes a snapshot. -/
  | read (path : Path)
  /-- The holder of a snapshot tries to write it back with new content. -/
  | writeBack (handle : Nat) (content : String) (device : Device)
  /-- Somebody writes a file without asking. -/
  | write (location : Location) (bytes : Bytes)
  /-- Somebody removes a file. -/
  | remove (location : Location)
  /-- Somebody changes the permission bits of a file or a directory. -/
  | chmod (location : Location) (mode : Nat)

/-- One event. -/
def step (directory : Location) (files : SharedFiles) : Event → SharedFiles
  | .read path =>
    match Snapshot.read files.tree directory path with
    | .ok snapshot => { files with snapshots := files.snapshots ++ [snapshot] }
    | .error _ => files
  | .writeBack handle content device =>
    match files.snapshots[handle]? with
    | none => files
    | some snapshot =>
      { files with tree := (snapshot.writeBack device files.tree directory content).2 }
  | .write location bytes => { files with tree := files.tree.put location bytes }
  | .remove location => { files with tree := files.tree.remove location }
  | .chmod location mode => { files with tree := files.tree.chmod location mode }

/-- Events one after the other. -/
def run (directory : Location) (files : SharedFiles) (events : List Event) : SharedFiles :=
  events.foldl (step directory) files

/-- Whether an event writes the given bytes to a location. -/
def Writes (directory : Location) (files : SharedFiles) (location : Location) (bytes : Bytes) :
    Event → Prop
  | .write place content => location = place ∧ content = bytes
  | .writeBack handle content _ => ∃ snapshot, files.snapshots[handle]? = some snapshot ∧
      location = FileTree.locate directory snapshot.path ∧ Bytes.ofText content = bytes
  | .read _ | .remove _ | .chmod _ _ => False

/-- Whether an event brings bytes to a location that it did not hold before. -/
structure PutsBack (directory : Location) (files : SharedFiles) (location : Location)
    (bytes : Bytes) (event : Event) : Prop where
  writes : files.Writes directory location bytes event
  before : ¬ files.tree.Holds location bytes
  after : (files.step directory event).tree.Holds location bytes

variable {directory : Location} {files : SharedFiles}

/-- Bytes come to a location only by being written there. -/
theorem holds_or_writes_of_step {location : Location} {bytes : Bytes} {event : Event}
    (h : (files.step directory event).tree.Holds location bytes) :
    files.tree.Holds location bytes ∨ files.Writes directory location bytes event := by
  cases event with
  | read path =>
    simp only [step] at h
    split at h
    · exact Or.inl h
    · exact Or.inl h
  | writeBack handle content device =>
    simp only [step] at h
    split at h
    · exact Or.inl h
    · rename_i snapshot hsnapshot
      obtain ⟨-, -, hdone⟩ | ⟨e, hrefused, -⟩ :=
        snapshot.writeBack_cases device files.tree directory content
      · rw [hdone] at h
        exact h.of_overwrite.imp_right fun ⟨hlocation, hbytes⟩ =>
          ⟨snapshot, hsnapshot, hlocation, hbytes⟩
      · rw [hrefused] at h
        exact Or.inl h
  | write place content => exact h.of_put
  | remove place => exact Or.inl h.of_remove
  | chmod place mode => exact Or.inl h.of_chmod

/-- Bytes that a location holds after a run but not before it were put back on the way. -/
theorem exists_putsBack_of_run {location : Location} {bytes : Bytes} {events : List Event}
    (hbefore : ¬ files.tree.Holds location bytes)
    (hafter : (files.run directory events).tree.Holds location bytes) :
    ∃ before event after, events = before ++ event :: after ∧
      (files.run directory before).PutsBack directory location bytes event := by
  induction events generalizing files with
  | nil => exact absurd hafter hbefore
  | cons event rest ih =>
    by_cases hstep : (files.step directory event).tree.Holds location bytes
    · have hwrites := (holds_or_writes_of_step hstep).resolve_left hbefore
      exact ⟨[], event, rest, rfl, hwrites, hbefore, hstep⟩
    · obtain ⟨before, event', after, rfl, hputs⟩ := ih hstep hafter
      exact ⟨event :: before, event', after, rfl, hputs⟩

/-- Only reading adds a snapshot, and no event takes one away. -/
theorem snapshots_step (directory : Location) (files : SharedFiles) (event : Event) :
    (files.step directory event).snapshots = files.snapshots ∨
      ∃ snapshot, event = .read snapshot.path ∧
        files.tree.read directory snapshot.path = .ok (Bytes.ofText snapshot.content) ∧
        (files.step directory event).snapshots = files.snapshots ++ [snapshot] := by
  cases event with
  | read path =>
    simp only [step]
    split
    · rename_i snapshot hread
      obtain ⟨rfl, hbytes⟩ := Snapshot.read_eq_ok_iff.mp hread
      exact Or.inr ⟨snapshot, rfl, hbytes, rfl⟩
    · exact Or.inl rfl
  | writeBack handle content device =>
    simp only [step]
    split
    · exact Or.inl rfl
    · exact Or.inl rfl
  | write location content => exact Or.inl rfl
  | remove location => exact Or.inl rfl
  | chmod location mode => exact Or.inl rfl

/-- A snapshot that is there after a run was there before, or was taken on the way with the bytes
of that moment. -/
theorem exists_read_of_run {events : List Event} {handle : Nat} {snapshot : Snapshot}
    (h : (files.run directory events).snapshots[handle]? = some snapshot) :
    files.snapshots[handle]? = some snapshot ∨
      ∃ before after, events = before ++ .read snapshot.path :: after ∧
        (files.run directory before).snapshots.length = handle ∧
        (files.run directory before).tree.read directory snapshot.path =
          .ok (Bytes.ofText snapshot.content) := by
  induction events generalizing files with
  | nil => exact Or.inl h
  | cons event rest ih =>
    obtain hstep | ⟨before, after, rfl, htaken⟩ := ih h
    · obtain hsame | ⟨new, rfl, hread, hnew⟩ := files.snapshots_step directory event
      · exact Or.inl (hsame ▸ hstep)
      · rw [hnew, List.getElem?_append] at hstep
        split at hstep
        · exact Or.inl hstep
        · rw [List.getElem?_singleton] at hstep
          split at hstep
          · cases hstep
            have hhandle : files.snapshots.length = handle := by omega
            exact Or.inr ⟨[], rest, rfl, hhandle, hread⟩
          · cases hstep
    · exact Or.inr ⟨event :: before, after, rfl, htaken⟩

/-- What the snapshot behind a handle promises. -/
structure ComparesAndSwaps (directory : Location) (files : SharedFiles) (handle : Nat)
    (snapshot : Snapshot) : Prop where
  /-- It is written back exactly if its path leads to a readable file with the bytes that were read,
  whose directory accepts a temporary file. -/
  succeeds : ∀ (device : Device) (content : String), device.Lawful →
    ((snapshot.writeBack device files.tree directory content).1 = .ok () ↔
      files.tree.read directory snapshot.path = .ok (Bytes.ofText snapshot.content) ∧
        files.tree.Accepts device directory snapshot.path)
  /-- The file then has exactly the new content and its old permission bits, and nothing else is
  made or changed. -/
  installs : ∀ (device : Device) (content : String) (after : FileTree),
    snapshot.writeBack device files.tree directory content = (.ok (), after) →
    files.step directory (.writeBack handle content device) = ⟨after, files.snapshots⟩ ∧
    after.read directory snapshot.path = .ok (Bytes.ofText content) ∧
    (∃ mode, files.tree.find? (FileTree.locate directory snapshot.path) =
        some (.file (Bytes.ofText snapshot.content) mode) ∧
      after.find? (FileTree.locate directory snapshot.path) =
        some (.file (Bytes.ofText content) mode)) ∧
    ∀ location, location ≠ FileTree.locate directory snapshot.path →
      after.find? location = files.tree.find? location
  /-- A refusal leaves everything as it is, and tells whether the file could not be read, has
  changed, or could not be replaced. -/
  refuses : ∀ (device : Device) (content : String) (e : FileError) (after : FileTree),
    snapshot.writeBack device files.tree directory content = (.error e, after) →
    after = files.tree ∧ files.step directory (.writeBack handle content device) = files ∧
    ((∃ cause, e = .access snapshot.path cause ∧
      files.tree.read directory snapshot.path = .error cause) ∨
    (e = .changed snapshot.path ∧ ∃ current,
      files.tree.read directory snapshot.path = .ok current ∧
      current ≠ Bytes.ofText snapshot.content) ∨
    ∃ failure, e = .unwritten snapshot.path failure ∧
      files.tree.read directory snapshot.path = .ok (Bytes.ofText snapshot.content) ∧
      (device.Lawful → ¬ files.tree.Accepts device directory snapshot.path))
  /-- Once it has installed something else, a snapshot of that file with the same text, be it this
  one, is written back only after the bytes that were read have been put back. -/
  excludes : ∀ (device : Device) (content : String) (after : FileTree),
    snapshot.writeBack device files.tree directory content = (.ok (), after) →
    content ≠ snapshot.content →
    ∀ (later : List Event) (rival : Snapshot) (newer : String) (device' : Device),
    FileTree.locate directory rival.path = FileTree.locate directory snapshot.path →
    rival.content = snapshot.content →
    (rival.writeBack device'
      (run directory (files.step directory (.writeBack handle content device)) later).tree
      directory newer).1 = .ok () →
    ∃ before event rest, later = before ++ event :: rest ∧
      (run directory (files.step directory (.writeBack handle content device)) before).PutsBack
        directory (FileTree.locate directory snapshot.path) (Bytes.ofText snapshot.content) event

section Handle

variable {handle : Nat} {snapshot : Snapshot} {device : Device} {content : String}
  (hhandle : files.snapshots[handle]? = some snapshot)

include hhandle

theorem step_writeBack {result : Except FileError Unit} {after : FileTree}
    (h : snapshot.writeBack device files.tree directory content = (result, after)) :
    files.step directory (.writeBack handle content device) = ⟨after, files.snapshots⟩ := by
  simp only [step, hhandle, h]

/-- The bytes that were read are gone after something else has been installed. -/
theorem not_holds_step_writeBack {after : FileTree}
    (h : snapshot.writeBack device files.tree directory content = (.ok (), after))
    (hcontent : content ≠ snapshot.content) :
    ¬ (files.step directory (.writeBack handle content device)).tree.Holds
      (FileTree.locate directory snapshot.path) (Bytes.ofText snapshot.content) := by
  obtain ⟨hread, hafter⟩ := Snapshot.tree_of_writeBack_eq_ok h
  have hnew := FileTree.holds_of_read
    (FileTree.read_overwrite_locate hread (Bytes.ofText content))
  rw [step_writeBack hhandle h, hafter]
  intro hold
  exact hcontent (Bytes.ofText_inj.mp (hnew.unique hold))

theorem comparesAndSwaps : files.ComparesAndSwaps directory handle snapshot where
  succeeds := by
    intro device content hlawful
    rw [Snapshot.writeBack_eq_ok_iff, FileTree.canReplace_iff hlawful]
  installs := by
    intro device content after h
    obtain ⟨hread, rfl⟩ := Snapshot.tree_of_writeBack_eq_ok h
    obtain ⟨mode, hmode⟩ := FileTree.find?_of_read hread
    refine ⟨step_writeBack hhandle h, FileTree.read_overwrite_locate hread _,
      ⟨mode, hmode, ?_⟩, fun location hlocation => ?_⟩
    · rw [FileTree.find?_overwrite, if_pos rfl, hmode]
      rfl
    · rw [FileTree.find?_overwrite, if_neg hlocation]
  refuses := by
    intro device content e after h
    obtain ⟨-, -, hdone⟩ | ⟨e', hrefused, hcause⟩ :=
      snapshot.writeBack_cases device files.tree directory content
    · rw [hdone] at h
      cases h
    · rw [hrefused] at h
      cases h
      refine ⟨rfl, step_writeBack hhandle hrefused, hcause.imp_right (Or.imp_right ?_)⟩
      rintro ⟨failure, he, hread, hcannot⟩
      exact ⟨failure, he, hread, fun hlawful => mt (FileTree.canReplace_iff hlawful).mpr hcannot⟩
  excludes := by
    intro device content after h hcontent later rival newer device' hlocation htext hrival
    have hread := (Snapshot.writeBack_eq_ok_iff.mp hrival).1
    have hholds := FileTree.holds_of_read hread
    rw [hlocation, htext] at hholds
    exact exists_putsBack_of_run (not_holds_step_writeBack hhandle h hcontent) hholds

end Handle

/-- Whatever happens to shared files, a snapshot that is kept was taken on the way and can be
written back without losing an update. -/
theorem run_comparesAndSwaps (directory : Location) (start : FileTree) (events : List Event)
    {handle : Nat} {snapshot : Snapshot}
    (h : (run directory ⟨start, []⟩ events).snapshots[handle]? = some snapshot) :
    (∃ before after, events = before ++ .read snapshot.path :: after ∧
      (run directory ⟨start, []⟩ before).snapshots.length = handle ∧
      (run directory ⟨start, []⟩ before).tree.read directory snapshot.path =
        .ok (Bytes.ofText snapshot.content)) ∧
    (run directory ⟨start, []⟩ events).ComparesAndSwaps directory handle snapshot := by
  refine ⟨?_, comparesAndSwaps h⟩
  obtain hnone | htaken := exists_read_of_run h
  · cases hnone
  · exact htaken

/-- Both readers see the same bytes, the first installs others under new permission bits, and the
second is refused. -/
theorem run_comparesAndSwaps_second_reader :
    ∃ (directory : Location) (start : FileTree) (events : List Event) (snapshot : Snapshot),
      (run directory ⟨start, []⟩ events).snapshots[1]? = some snapshot ∧
      (∃ before after, events = before ++ .read snapshot.path :: after ∧
        (run directory ⟨start, []⟩ before).snapshots.length = 1 ∧
        (run directory ⟨start, []⟩ before).tree.read directory snapshot.path =
          .ok (Bytes.ofText snapshot.content)) ∧
      (run directory ⟨start, []⟩ events).ComparesAndSwaps directory 1 snapshot ∧
      (snapshot.writeBack .ready (run directory ⟨start, []⟩ events).tree directory "c").1 =
        .error (.changed snapshot.path) := by
  have hsecond : (run ["work"] ⟨⟨[([], .directory 0o755), (["work"], .directory 0o755),
      (["work", "init.pp"], .file [97] 0o644)], false, by decide, by decide⟩, []⟩
      [.read ⟨"init.pp"⟩, .read ⟨"./init.pp"⟩, .chmod ["work", "init.pp"] 0o600,
        .writeBack 0 "b" .ready]).snapshots[1]? = some ⟨⟨"./init.pp"⟩, "a"⟩ := by
    rfl
  have h := run_comparesAndSwaps _ _ _ hsecond
  exact ⟨_, _, _, _, hsecond, h.1, h.2, rfl⟩

/-- In a directory that must not be changed a snapshot is not written back, although its file has
the bytes that were read. -/
theorem writeBack_refused_in_readonly_directory :
    ∃ (start : FileTree) (snapshot : Snapshot),
      (run ["work"] ⟨start, []⟩ [.read ⟨"init.pp"⟩]).snapshots[0]? = some snapshot ∧
      Device.ready.Lawful ∧
      start.read ["work"] snapshot.path = .ok (Bytes.ofText snapshot.content) ∧
      snapshot.writeBack .ready start ["work"] "b" = (.error (.unwritten snapshot.path
        ⟨.create, ⟨"/work/./.tmpAAAAAA"⟩, .permissionDenied⟩), start) := by
  refine ⟨⟨[([], .directory 0o755), (["work"], .directory 0o555),
    (["work", "init.pp"], .file [97] 0o644)], false, by decide, by decide⟩, ⟨⟨"init.pp"⟩, "a"⟩, ?_,
    Device.ready_lawful, ?_, ?_⟩
  · rfl
  · rfl
  · rfl

end SharedFiles

end ManifestSpacing
