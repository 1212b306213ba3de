import ManifestSpacing.Proofs.Command.Preparation
import ManifestSpacing.Proofs.Lint.Passing

/-!
# Check runs over a file tree

A run that is not blocked reads the collected files one after the other. In fix
mode it leaves each of them mended that can be replaced by way of a path that
it was collected by, and touches nothing else. It succeeds exactly if every
collected file could be checked, has no error that the run does not repair, and
did not need a replacement that was refused. After a run in fix mode another
one in either mode changes nothing, and ends in the same way unless a
replacement was refused.
-/

namespace ManifestSpacing

namespace Command

/-! ## One file -/

/-- Whether a file could be checked, and replaced if need be, and has no error left. -/
def FileResult.Passed (result : FileResult) : Prop :=
  result.isFailed = false ∧ result.remainingErrors = []

/-- Whether a path leads to a file that passes. -/
def PassesAt (linter : Linter) (mode : Mode) (directory : Location) (tree : FileTree)
    (path : Path) : Prop :=
  ∃ bytes, tree.read directory path = .ok bytes ∧ linter.Passes mode bytes

/-- Whether a path leads to no file in need of mending. -/
def Mended (linter : Linter) (directory : Location) (tree : FileTree) (path : Path) : Prop :=
  ∀ bytes, tree.read directory path = .ok bytes → linter.mendBytes bytes = bytes

/-- Whether a path leads to a file that can be read and replaced. -/
structure Writable (device : Device) (directory : Location) (tree : FileTree) (path : Path) :
    Prop where
  readable : tree.Readable directory path
  accepts : tree.Accepts device directory path

/-- Whether one of the paths leads to a location and to a file that can be read and replaced. -/
def Reaches (device : Device) (directory : Location) (tree : FileTree) (files : List Path)
    (location : Location) : Prop :=
  ∃ file ∈ files, Writable device directory tree file ∧ FileTree.locate directory file = location

/-- Whether the files that are reached have been mended, and nothing else has changed. -/
structure Mends (linter : Linter) (device : Device) (directory : Location) (files : List Path)
    (tree after : FileTree) : Prop where
  /-- Nothing is made, removed or given other permission bits. -/
  hollow : after.hollow = tree.hollow
  mended : ∀ location, Reaches device directory tree files location →
    after.find? location = (tree.find? location).map (Entry.mapContent linter.mendBytes)
  kept : ∀ location, ¬ Reaches device directory tree files location →
    after.find? location = tree.find? location

theorem passesAt_iff {linter : Linter} {mode : Mode} {directory : Location} {tree : FileTree}
    {path : Path} : PassesAt linter mode directory tree path ↔
      ∃ text s, tree.readText directory path = .ok text ∧ lex text = .ok s ∧
        ∀ p ∈ linter.detect s, p.isError = true → mode = .fix ∧ p.fixable = true := by
  simp only [FileTree.readText_eq_ok_iff]
  constructor
  · rintro ⟨bytes, hread, text, s, htext, hlex, hall⟩
    obtain rfl := Bytes.text?_eq_some_iff.mp htext
    exact ⟨text, s, hread, hlex, hall⟩
  · rintro ⟨text, s, hread, hlex, hall⟩
    exact ⟨_, hread, (linter.passes_iff_of_lex hlex mode).mpr hall⟩

section Read

variable {linter : Linter} {directory : Location} {tree : FileTree} {path : Path} {bytes : Bytes}
  (hread : tree.read directory path = .ok bytes)

include hread

theorem mended_iff_of_read :
    Mended linter directory tree path ↔ linter.mendBytes bytes = bytes := by
  simp [Mended, hread]

theorem passesAt_iff_of_read {mode : Mode} :
    PassesAt linter mode directory tree path ↔ linter.Passes mode bytes := by
  simp [PassesAt, hread]

/-- The text of a file changes exactly if the file needs mending. -/
theorem changed_iff_of_read {text : String} (hbytes : bytes = Bytes.ofText text) {report : Report}
    (hrun : linter.run text .fix = .ok report) :
    report.changed text = true ↔ ¬ Mended linter directory tree path := by
  rw [mended_iff_of_read hread, hbytes, linter.mendBytes_of_run hrun, Bytes.ofText_inj,
    Report.changed, bne_iff_ne]

end Read

/-- What can become of a file that is to be checked: the files afterwards, with the result. -/
inductive Handles (linter : Linter) (mode : Mode) (device : Device) (directory : Location)
    (tree : FileTree) (path : Path) : FileTree × FileResult → Prop
  /-- It cannot be checked, and does not pass. -/
  | left (failure : CheckFailure)
      (hleft : ∀ bytes, tree.read directory path = .ok bytes →
        linter.mendBytes bytes = bytes ∧ ∀ mode, ¬ linter.Passes mode bytes) :
      Handles linter mode device directory tree path (tree, ⟨path, .error failure⟩)
  | unneeded (text : String) (s : TokenStream) (report : Report)
      (hread : tree.read directory path = .ok (Bytes.ofText text)) (hlex : lex text = .ok s)
      (hrun : linter.run text mode = .ok report)
      (hmended : mode = .fix → Mended linter directory tree path) :
      Handles linter mode device directory tree path
        (tree, ⟨path, .ok ⟨text, report, .unneeded⟩⟩)
  | done (text : String) (s : TokenStream) (report : Report)
      (hread : tree.read directory path = .ok (Bytes.ofText text)) (hlex : lex text = .ok s)
      (hrun : linter.run text mode = .ok report) (hfix : mode = .fix)
      (hneeds : ¬ Mended linter directory tree path)
      (haccepts : tree.Accepts device directory path) :
      Handles linter mode device directory tree path
        (tree.overwrite (FileTree.locate directory path) (linter.mendBytes (Bytes.ofText text)),
          ⟨path, .ok ⟨text, report, .done⟩⟩)
  | refused (text : String) (s : TokenStream) (report : Report) (cause : FileError)
      (hread : tree.read directory path = .ok (Bytes.ofText text)) (hlex : lex text = .ok s)
      (hrun : linter.run text mode = .ok report) (hfix : mode = .fix)
      (hneeds : ¬ Mended linter directory tree path)
      (hrefused : ¬ tree.Accepts device directory path) :
      Handles linter mode device directory tree path
        (tree, ⟨path, .ok ⟨text, report.discardFixes text, .failed cause⟩⟩)

section Step

variable (linter : Linter) (mode : Mode) {device : Device} (hlawful : device.Lawful)
  (directory : Location) (tree : FileTree) (path : Path)

include hlawful

/-- A manifest is replaced if it needs mending, unless the replacement is refused. -/
theorem handles_of_lex {text : String} {s : TokenStream}
    (hread : tree.read directory path = .ok (Bytes.ofText text)) (hlex : lex text = .ok s) :
    Handles linter mode device directory tree path
      (checkFile linter mode device directory tree path) := by
  have hsnapshot : Snapshot.read tree directory path = .ok ⟨path, text⟩ :=
    Snapshot.read_eq_ok_iff.mpr ⟨rfl, hread⟩
  obtain ⟨report, hrun⟩ : ∃ report, linter.run text mode = .ok report := by
    simp only [Linter.run, hlex]
    exact ⟨_, rfl⟩
  by_cases hneeded : mode = .fix ∧ report.changed text
  · obtain ⟨rfl, hchanged⟩ := hneeded
    have hneeds := (changed_iff_of_read hread rfl hrun).mp hchanged
    -- nothing happens between reading and writing back
    obtain ⟨-, hcan, hdone⟩ | ⟨e, hfailed, hcause⟩ :=
      Snapshot.writeBack_cases ⟨path, text⟩ device tree directory report.output
    · have hcheck : checkFile linter .fix device directory tree path =
          (tree.overwrite (FileTree.locate directory path) (linter.mendBytes (Bytes.ofText text)),
            ⟨path, .ok ⟨text, report, .done⟩⟩) := by
        simp [checkFile, hsnapshot, hrun, hchanged, hdone, linter.mendBytes_of_run hrun]
      rw [hcheck]
      exact .done text s report hread hlex hrun rfl hneeds
        ((FileTree.canReplace_iff hlawful).mp hcan)
    · have hcheck : checkFile linter .fix device directory tree path =
          (tree, ⟨path, .ok ⟨text, report.discardFixes text, .failed e⟩⟩) := by
        simp [checkFile, hsnapshot, hrun, hchanged, hfailed]
      rw [hcheck]
      refine .refused text s report e hread hlex hrun rfl hneeds ?_
      rw [← FileTree.canReplace_iff hlawful]
      obtain ⟨cause, -, herror⟩ | ⟨-, current, hcurrent, hother⟩ | ⟨-, -, -, hcannot⟩ := hcause
      · rw [hread] at herror
        cases herror
      · rw [hread] at hcurrent
        cases hcurrent
        exact absurd rfl hother
      · exact hcannot
  · have hcheck : checkFile linter mode device directory tree path =
        (tree, ⟨path, .ok ⟨text, report, .unneeded⟩⟩) := by
      simp only [checkFile, hsnapshot, hrun, if_neg hneeded]
    rw [hcheck]
    refine .unneeded text s report hread hlex hrun fun hfix => ?_
    subst hfix
    by_contra hneeds
    exact hneeded ⟨rfl, (changed_iff_of_read hread rfl hrun).mpr hneeds⟩

/-- What becomes of a file that is checked. -/
theorem handles_checkFile : Handles linter mode device directory tree path
    (checkFile linter mode device directory tree path) := by
  by_cases h : ∃ text s, tree.read directory path = .ok (Bytes.ofText text) ∧ lex text = .ok s
  · obtain ⟨text, s, hread, hlex⟩ := h
    exact handles_of_lex linter mode hlawful directory tree path hread hlex
  · obtain ⟨failure, hcheck⟩ : ∃ failure,
        checkFile linter mode device directory tree path = (tree, ⟨path, .error failure⟩) := by
      cases hsnapshot : Snapshot.read tree directory path with
      | error cause => exact ⟨.unreadable cause, by simp only [checkFile, hsnapshot]⟩
      | ok snapshot =>
        obtain ⟨rfl, hread⟩ := Snapshot.read_eq_ok_iff.mp hsnapshot
        cases hlex : lex snapshot.content with
        | error e => exact ⟨.unlexable e, by simp only [checkFile, hsnapshot, Linter.run, hlex]⟩
        | ok s => exact absurd ⟨_, s, hread, hlex⟩ h
    rw [hcheck]
    refine .left failure fun bytes hread => ?_
    obtain hleft | ⟨text, s, rfl, hlex⟩ := linter.lexed_or_left bytes
    · exact hleft
    · exact absurd ⟨text, s, hread, hlex⟩ h

end Step

section Handled

variable {linter : Linter} {mode : Mode} {device : Device} {directory : Location} {tree : FileTree}
  {path : Path} {outcome : FileTree × FileResult}

/-- The result for a file tells whether the file passes, and is replaced if need be. -/
theorem Handles.passed_iff (h : Handles linter mode device directory tree path outcome) :
    outcome.2.Passed ↔ PassesAt linter mode directory tree path ∧
      (mode = .fix → Mended linter directory tree path ∨ tree.Accepts device directory path) := by
  cases h with
  | left failure hleft =>
    refine iff_of_false (fun h => Bool.noConfusion h.1) ?_
    rintro ⟨⟨bytes, hread, hpasses⟩, -⟩
    exact (hleft bytes hread).2 mode hpasses
  | unneeded text s report hread hlex hrun hmended =>
    rw [passesAt_iff_of_read hread, ← linter.remainingErrors_eq_nil_iff hlex mode hrun]
    exact ⟨fun h => ⟨h.2, fun hfix => Or.inl (hmended hfix)⟩, fun h => ⟨rfl, h.1⟩⟩
  | done text s report hread hlex hrun hfix hneeds haccepts =>
    rw [passesAt_iff_of_read hread, ← linter.remainingErrors_eq_nil_iff hlex mode hrun]
    exact ⟨fun h => ⟨h.2, fun _ => Or.inr haccepts⟩, fun h => ⟨rfl, h.1⟩⟩
  | refused text s report cause hread hlex hrun hfix hneeds hrefused =>
    exact iff_of_false (fun h => Bool.noConfusion h.1) fun h => (h.2 hfix).elim hneeds hrefused

theorem Handles.tree_of_report (h : Handles linter .report device directory tree path outcome) :
    outcome.1 = tree := by
  cases h with
  | left | unneeded => rfl
  | done _ _ _ _ _ _ hfix | refused _ _ _ _ _ _ _ hfix => cases hfix

/-- A file with nothing to repair stays as it is, and so does one that cannot be replaced. -/
theorem Handles.tree_of_mended_or_not_accepts
    (h : Handles linter mode device directory tree path outcome)
    (hkeep : Mended linter directory tree path ∨ ¬ tree.Accepts device directory path) :
    outcome.1 = tree := by
  cases h with
  | left | unneeded | refused => rfl
  | done text s report hread hlex hrun hfix hneeds haccepts =>
    exact (hkeep.elim hneeds fun hrefused => hrefused haccepts).elim

/-- Any other file is replaced in fix mode. -/
theorem Handles.tree_of_not_mended (h : Handles linter .fix device directory tree path outcome)
    (hneeds : ¬ Mended linter directory tree path)
    (haccepts : tree.Accepts device directory path) :
    ∃ bytes, tree.read directory path = .ok bytes ∧
      outcome.1 = tree.overwrite (FileTree.locate directory path) (linter.mendBytes bytes) := by
  cases h with
  | left failure hleft => exact absurd (fun bytes hread => (hleft bytes hread).1) hneeds
  | unneeded text s report hread hlex hrun hmended => exact absurd (hmended rfl) hneeds
  | done text s report hread => exact ⟨_, hread, rfl⟩
  | refused text s report cause hread hlex hrun hfix _ hrefused => exact absurd haccepts hrefused

/-- In fix mode a file is mended if it can be replaced. -/
theorem Handles.mends (h : Handles linter .fix device directory tree path outcome) :
    Mends linter device directory [path] tree outcome.1 := by
  by_cases hkeep : Mended linter directory tree path ∨ ¬ tree.Accepts device directory path
  · rw [h.tree_of_mended_or_not_accepts hkeep]
    refine ⟨rfl, ?_, fun _ _ => rfl⟩
    rintro _ ⟨file, hfile, hwritable, rfl⟩
    obtain rfl := List.mem_singleton.mp hfile
    obtain ⟨bytes, hread⟩ := hwritable.readable
    obtain ⟨bits, hfound⟩ := FileTree.find?_of_read hread
    have hmended := hkeep.resolve_right fun hrefused => hrefused hwritable.accepts
    rw [hfound, Option.map_some, Entry.mapContent, hmended bytes hread]
  · rw [not_or, not_not] at hkeep
    obtain ⟨bytes, hread, hafter⟩ := h.tree_of_not_mended hkeep.1 hkeep.2
    obtain ⟨bits, hfound⟩ := FileTree.find?_of_read hread
    rw [hafter]
    refine ⟨tree.hollow_overwrite _ _, ?_, fun location hlocation => ?_⟩
    · rintro _ ⟨file, hfile, -, rfl⟩
      obtain rfl := List.mem_singleton.mp hfile
      rw [FileTree.find?_overwrite, if_pos rfl, hfound]
      rfl
    · refine (FileTree.find?_overwrite ..).trans (if_neg ?_)
      rintro rfl
      exact hlocation ⟨path, List.mem_cons_self, ⟨⟨bytes, hread⟩, hkeep.2⟩, rfl⟩

end Handled

/-! ## One file after the other -/

/-- Whether a file that needs mending cannot be replaced when its turn comes. -/
def Refuses (linter : Linter) (device : Device) (directory : Location) (tree : FileTree)
    (files : List Path) : Prop :=
  ∃ before file rest, files = before ++ file :: rest ∧ ¬ Mended linter directory tree file ∧
    ¬ tree.Accepts device directory file ∧
    ¬ Reaches device directory tree before (FileTree.locate directory file)

theorem reaches_append {device : Device} {directory : Location} {tree : FileTree}
    {files more : List Path} {location : Location} :
    Reaches device directory tree (files ++ more) location ↔
      Reaches device directory tree files location ∨
        Reaches device directory tree more location := by
  simp only [Reaches, List.mem_append, or_and_right, exists_or]

namespace Mends

variable {linter : Linter} {device : Device} {directory : Location} {files more : List Path}
  {tree between after : FileTree}

theorem accepts_iff (h : Mends linter device directory files tree after) (path : Path) :
    after.Accepts device directory path ↔ tree.Accepts device directory path := by
  rw [← FileTree.accepts_hollow, h.hollow, FileTree.accepts_hollow]

theorem reaches_iff (h : Mends linter device directory files tree after) (others : List Path)
    (location : Location) : Reaches device directory after others location ↔
      Reaches device directory tree others location := by
  refine exists_congr fun file => and_congr_right fun _ => and_congr_left fun _ => ?_
  have hreadable : after.Readable directory file ↔ tree.Readable directory file :=
    FileTree.readable_iff_of_hollow h.hollow
  constructor
  · rintro ⟨hread, haccepts⟩
    exact ⟨hreadable.mp hread, (h.accepts_iff file).mp haccepts⟩
  · rintro ⟨hread, haccepts⟩
    exact ⟨hreadable.mpr hread, (h.accepts_iff file).mpr haccepts⟩

/-- A location is mended or kept, depending on whether it is reached. -/
theorem find?_cases (h : Mends linter device directory files tree after) (location : Location) :
    after.find? location = (tree.find? location).map (Entry.mapContent linter.mendBytes) ∨
      after.find? location = tree.find? location := by
  by_cases hreaches : Reaches device directory tree files location
  · exact Or.inl (h.mended location hreaches)
  · exact Or.inr (h.kept location hreaches)

private theorem map_mendBytes_twice (found : Option Entry) :
    (found.map (Entry.mapContent linter.mendBytes)).map (Entry.mapContent linter.mendBytes) =
      found.map (Entry.mapContent linter.mendBytes) := by
  rcases found with _ | ⟨content, mode⟩ | mode
  · rfl
  · simp [Entry.mapContent]
  · rfl

/-- Files that are mended again stay as they are. -/
theorem append (h : Mends linter device directory files tree between)
    (hmore : Mends linter device directory more between after) :
    Mends linter device directory (files ++ more) tree after where
  hollow := hmore.hollow.trans h.hollow
  mended := by
    intro location hreaches
    rcases reaches_append.mp hreaches with hreaches | hreaches
    · rcases hmore.find?_cases location with hagain | hkept
      · rw [hagain, h.mended location hreaches, map_mendBytes_twice]
      · rw [hkept, h.mended location hreaches]
    · rw [hmore.mended location ((h.reaches_iff more location).mpr hreaches)]
      rcases h.find?_cases location with hearlier | hkept
      · rw [hearlier, map_mendBytes_twice]
      · rw [hkept]
  kept := by
    intro location hnot
    rw [reaches_append, not_or, ← h.reaches_iff more] at hnot
    rw [hmore.kept location hnot.2, h.kept location hnot.1]

/-- A path to a location that is reached leads to the same file mended. -/
theorem read_of_reaches (h : Mends linter device directory files tree after) {path : Path}
    (hreaches : Reaches device directory tree files (FileTree.locate directory path)) :
    after.read directory path = (tree.read directory path).map linter.mendBytes :=
  FileTree.read_eq_map_of_find? h.hollow linter.mendBytes (h.mended _ hreaches)

/-- Any other path leads to what was there before. -/
theorem read_of_not_reaches (h : Mends linter device directory files tree after) {path : Path}
    (hnot : ¬ Reaches device directory tree files (FileTree.locate directory path)) :
    after.read directory path = tree.read directory path :=
  FileTree.read_eq_of_find?_eq h.hollow (h.kept _ hnot)

/-- What needs no mending afterwards is what needed none before, and what is reached. -/
theorem mended_iff (h : Mends linter device directory files tree after) {path : Path} :
    Mended linter directory after path ↔ Mended linter directory tree path ∨
      Reaches device directory tree files (FileTree.locate directory path) := by
  by_cases hreaches : Reaches device directory tree files (FileTree.locate directory path)
  · refine iff_of_true (fun bytes hread => ?_) (Or.inr hreaches)
    rw [h.read_of_reaches hreaches] at hread
    cases horiginal : tree.read directory path with
    | error cause =>
      rw [horiginal] at hread
      cases hread
    | ok original =>
      rw [horiginal] at hread
      cases hread
      exact linter.mendBytes_mendBytes original
  · rw [or_iff_left hreaches, Mended, Mended, h.read_of_not_reaches hreaches]

/-- A path that needs no mending afterwards leads to what was there before, mended. -/
theorem read_of_mended (h : Mends linter device directory files tree after) {path : Path}
    (hmended : Mended linter directory after path) :
    after.read directory path = (tree.read directory path).map linter.mendBytes := by
  by_cases hreaches : Reaches device directory tree files (FileTree.locate directory path)
  · exact h.read_of_reaches hreaches
  · have hsame := h.read_of_not_reaches hreaches
    cases hread : tree.read directory path with
    | error cause => rw [hsame, hread, Except.map]
    | ok bytes => rw [hsame, hread, Except.map, hmended bytes (hsame.trans hread)]

/-- A path that cannot be mended afterwards cannot be replaced. -/
theorem mended_or_not_accepts (h : Mends linter device directory files tree after) {file : Path}
    (hfile : file ∈ files) :
    Mended linter directory after file ∨ ¬ after.Accepts device directory file := by
  by_cases haccepts : after.Accepts device directory file
  · refine Or.inl (h.mended_iff.mpr ?_)
    by_cases hreadable : tree.Readable directory file
    · exact Or.inr ⟨file, hfile, ⟨hreadable, (h.accepts_iff file).mp haccepts⟩, rfl⟩
    · exact Or.inl fun bytes hread => absurd ⟨bytes, hread⟩ hreadable
  · exact Or.inr haccepts

/-- Unless a replacement is refused, all files are mended. -/
theorem mended_of_not_refuses (h : Mends linter device directory files tree after)
    (hnot : ¬ Refuses linter device directory tree files) {file : Path} (hfile : file ∈ files) :
    Mended linter directory after file := by
  obtain ⟨before, rest, rfl⟩ := List.append_of_mem hfile
  by_contra hneeds
  have hrefused := (h.mended_or_not_accepts hfile).resolve_left hneeds
  rw [h.mended_iff, not_or, reaches_append, not_or] at hneeds
  exact hnot ⟨before, file, rest, rfl, hneeds.1, mt (h.accepts_iff file).mpr hrefused, hneeds.2.1⟩

/-- Mended files pass in either mode if they passed in fix mode. -/
theorem passesAt_iff_of_mended (h : Mends linter device directory files tree after) {path : Path}
    (hmended : Mended linter directory after path) (mode : Mode) :
    PassesAt linter mode directory after path ↔ PassesAt linter .fix directory tree path := by
  unfold PassesAt
  rw [h.read_of_mended hmended]
  cases tree.read directory path with
  | error cause => simp [Except.map]
  | ok bytes => simp [Except.map, linter.passes_mendBytes]

/-- Mending keeps what passes in fix mode. -/
theorem passesAt_fix_iff (h : Mends linter device directory files tree after) (path : Path) :
    PassesAt linter .fix directory after path ↔ PassesAt linter .fix directory tree path := by
  by_cases hreaches : Reaches device directory tree files (FileTree.locate directory path)
  · exact h.passesAt_iff_of_mended (h.mended_iff.mpr (Or.inr hreaches)) .fix
  · rw [PassesAt, PassesAt, h.read_of_not_reaches hreaches]

/-- A replacement is refused either at the first file or later. -/
theorem refuses_cons {file : Path} (h : Mends linter device directory [file] tree between) :
    Refuses linter device directory tree (file :: files) ↔
      (¬ Mended linter directory tree file ∧ ¬ tree.Accepts device directory file) ∨
        Refuses linter device directory between files := by
  have hcons (before : List Path) (location : Location) :
      Reaches device directory tree (file :: before) location ↔
        Reaches device directory tree [file] location ∨
          Reaches device directory tree before location := by
    rw [← reaches_append, List.singleton_append]
  constructor
  · rintro ⟨before, other, rest, hsplit, hneeds, hrefused, hnot⟩
    cases before with
    | nil =>
      cases hsplit
      exact Or.inl ⟨hneeds, hrefused⟩
    | cons first before =>
      cases hsplit
      rw [hcons, not_or] at hnot
      refine Or.inr ⟨before, other, rest, rfl, ?_, mt (h.accepts_iff other).mp hrefused, ?_⟩
      · rw [h.mended_iff, not_or]
        exact ⟨hneeds, hnot.1⟩
      · rw [h.reaches_iff]
        exact hnot.2
  · rintro (⟨hneeds, hrefused⟩ | ⟨before, other, rest, rfl, hneeds, hrefused, hnot⟩)
    · exact ⟨[], file, files, rfl, hneeds, hrefused, by simp [Reaches]⟩
    · rw [h.mended_iff, not_or] at hneeds
      rw [h.reaches_iff] at hnot
      refine ⟨file :: before, other, rest, rfl, hneeds.1, mt (h.accepts_iff other).mpr hrefused, ?_⟩
      rw [hcons, not_or]
      exact ⟨hneeds.2, hnot⟩

end Mends

section Run

variable {linter : Linter} {mode : Mode} {device : Device} (hlawful : device.Lawful)
  {directory : Location} {tree : FileTree} {files : List Path}

include hlawful

theorem checkFiles_report :
    (checkFiles linter .report device directory tree files).1 = tree := by
  induction files with
  | nil => rfl
  | cons file files ih =>
    have hkept := (handles_checkFile linter .report hlawful directory tree file).tree_of_report
    simp only [checkFiles, hkept]
    exact ih

/-- Files that are mended or cannot be replaced stay as they are. -/
theorem checkFiles_of_mended_or_not_accepts (h : ∀ file ∈ files,
    Mended linter directory tree file ∨ ¬ tree.Accepts device directory file) :
    (checkFiles linter mode device directory tree files).1 = tree := by
  induction files with
  | nil => rfl
  | cons file files ih =>
    rw [List.forall_mem_cons] at h
    have hkept := (handles_checkFile linter mode hlawful directory tree
      file).tree_of_mended_or_not_accepts h.1
    simp only [checkFiles, hkept]
    exact ih h.2

/-- In fix mode all files are mended that are reached. -/
theorem mends_checkFiles : Mends linter device directory files tree
    (checkFiles linter .fix device directory tree files).1 := by
  induction files generalizing tree with
  | nil =>
    refine ⟨rfl, ?_, fun _ _ => rfl⟩
    rintro location ⟨file, hfile, -⟩
    cases hfile
  | cons file files ih =>
    exact (handles_checkFile linter .fix hlawful directory tree file).mends.append ih

/-- All results are good exactly if all files passed before the run and no replacement was
refused. -/
theorem passed_checkFiles_iff :
    (∀ result ∈ (checkFiles linter mode device directory tree files).2, result.Passed) ↔
      (∀ file ∈ files, PassesAt linter mode directory tree file) ∧
        (mode = .fix → ¬ Refuses linter device directory tree files) := by
  induction files generalizing tree with
  | nil => simp [checkFiles, Refuses]
  | cons file files ih =>
    have hfirst := handles_checkFile linter mode hlawful directory tree file
    simp only [checkFiles, List.forall_mem_cons]
    rw [hfirst.passed_iff, ih]
    cases mode with
    | report => simp [hfirst.tree_of_report]
    | fix =>
      simp only [hfirst.mends.passesAt_fix_iff, hfirst.mends.refuses_cons]
      tauto

omit hlawful in
theorem isSuccess_iff {results : List FileResult} :
    (Totals.ofResults results).isSuccess = true ↔ ∀ result ∈ results, result.Passed := by
  simp only [Totals.isSuccess, Totals.ofResults, Bool.and_eq_true, beq_iff_eq,
    List.length_eq_zero_iff, List.flatMap_eq_nil_iff, List.filter_eq_nil_iff, FileResult.Passed]
  constructor
  · rintro ⟨herrors, hfailed⟩ result hresult
    exact ⟨Bool.eq_false_iff.mpr (hfailed result hresult), herrors result hresult⟩
  · intro h
    exact ⟨fun result hresult => (h result hresult).2,
      fun result hresult => Bool.eq_false_iff.mp (h result hresult).1⟩

end Run

/-! ## The whole run -/

theorem CheckOptions.mode_eq_fix_iff (options : CheckOptions) :
    options.mode = .fix ↔ options.fix = true := by
  unfold CheckOptions.mode
  cases options.fix with
  | false => simp
  | true => simp

/-- What a check run with this linter does to the collected files, and how it ends. -/
structure Checks (libraries : Libraries) (env : Environment) (tree : FileTree)
    (options : CheckOptions) (linter : Linter) (files : List Path) (outcome : Outcome) : Prop where
  /-- Without repairs nothing changes. -/
  reports : options.fix = false → outcome.tree = tree
  /-- A collected file stays as it is if it cannot be read, is no text or cannot be lexed. -/
  leaves : ∀ file ∈ files,
    (∀ text s, tree.readText env.directory file = .ok text → lex text ≠ .ok s) →
    outcome.tree.read env.directory file = tree.read env.directory file
  /-- Any other collected file ends with the text of a run over its original text, if it can be
  replaced by way of one of the paths by which it was collected. -/
  fixes : options.fix = true → ∀ file ∈ files,
    Reaches libraries.device env.directory tree files (FileTree.locate env.directory file) →
    ∀ text report, tree.readText env.directory file = .ok text →
      linter.run text .fix = .ok report →
      outcome.tree.read env.directory file = .ok (Bytes.ofText report.output)
  /-- Nothing changes where no collected file can be replaced. -/
  spares : ∀ location, ¬ Reaches libraries.device env.directory tree files location →
    outcome.tree.find? location = tree.find? location
  /-- Nothing is made, removed or given other permission bits. -/
  shape : outcome.tree.hollow = tree.hollow
  /-- The run succeeds exactly if every collected file is a manifest without errors, those apart
  that the run repairs, and no replacement is refused. -/
  succeeds : outcome.status = 0 ↔
    (∀ file ∈ files, ∃ text s, tree.readText env.directory file = .ok text ∧ lex text = .ok s ∧
      ∀ p ∈ linter.detect s, p.isError = true → options.fix = true ∧ p.fixable = true) ∧
    (options.fix = true → ¬ Refuses linter libraries.device env.directory tree files)

/-- Whether the configuration file of a run is none of the files that it collects. -/
def ConfigApart (libraries : Libraries) (env : Environment) (tree : FileTree)
    (options : CheckOptions) : Prop :=
  ∀ config linter files path, Prepared libraries env tree options config linter files →
    (configSource env tree options).path? = some path →
    ∀ file ∈ files, FileTree.locate env.directory file ≠ FileTree.locate env.directory path

section Answer

variable {libraries : Libraries} (hlawful : libraries.Lawful) {env : Environment} {tree : FileTree}
  {options : CheckOptions} {config : Config} {linter : Linter} {files : List Path}

include hlawful

/-- A blocked run ends at once. -/
theorem Blocked.answer_eq (h : Blocked libraries env tree options) :
    ∃ failure, answer libraries env tree (.check options) = failed tree failure := by
  obtain ⟨failure, hprepare⟩ := h.prepare_eq hlawful
  refine ⟨failure, ?_⟩
  simp only [answer, check, hprepare, Except.map]

theorem Blocked.tree_answer (h : Blocked libraries env tree options) :
    (answer libraries env tree (.check options)).tree = tree := by
  obtain ⟨failure, hanswer⟩ := h.answer_eq hlawful
  rw [hanswer, failed]

theorem Blocked.status_answer (h : Blocked libraries env tree options) :
    (answer libraries env tree (.check options)).status = 1 := by
  obtain ⟨failure, hanswer⟩ := h.answer_eq hlawful
  rw [hanswer, failed]

namespace Prepared

variable (h : Prepared libraries env tree options config linter files)

include h

theorem tree_answer : (answer libraries env tree (.check options)).tree =
    (checkFiles linter options.mode libraries.device env.directory tree files).1 := by
  simp only [answer, check, h.prepare_eq hlawful, Except.map]

theorem status_answer : (answer libraries env tree (.check options)).status =
    if (Totals.ofResults (checkFiles linter options.mode libraries.device env.directory tree
      files).2).isSuccess then 0 else 1 := by
  simp only [answer, check, h.prepare_eq hlawful, Except.map]

theorem status_answer_eq_zero_iff : (answer libraries env tree (.check options)).status = 0 ↔
    (∀ file ∈ files, PassesAt linter options.mode env.directory tree file) ∧
      (options.mode = .fix → ¬ Refuses linter libraries.device env.directory tree files) := by
  rw [h.status_answer hlawful, ← passed_checkFiles_iff hlawful.device, ← isSuccess_iff]
  simp

/-- In fix mode the collected files are mended that can be replaced. -/
theorem mends_answer (hfix : options.fix = true) :
    Mends linter libraries.device env.directory files tree
      (answer libraries env tree (.check options)).tree := by
  rw [h.tree_answer hlawful, options.mode_eq_fix_iff.mpr hfix]
  exact mends_checkFiles hlawful.device

theorem tree_answer_of_report (hfix : options.fix = false) :
    (answer libraries env tree (.check options)).tree = tree := by
  have hmode : options.mode = .report := by simp [CheckOptions.mode, hfix]
  rw [h.tree_answer hlawful, hmode, checkFiles_report hlawful.device]

theorem checks_answer : Checks libraries env tree options linter files
    (answer libraries env tree (.check options)) where
  reports := h.tree_answer_of_report hlawful
  leaves := by
    intro file hfile hleft
    cases hfix : options.fix with
    | false => rw [h.tree_answer_of_report hlawful hfix]
    | true =>
      have hmends := h.mends_answer hlawful hfix
      have hmended : Mended linter env.directory tree file := by
        intro bytes hread
        obtain ⟨hsame, -⟩ | ⟨text, s, rfl, hlex⟩ := linter.lexed_or_left bytes
        · exact hsame
        · exact absurd hlex (hleft text s (FileTree.readText_eq_ok_iff.mpr hread))
      rw [hmends.read_of_mended (hmends.mended_iff.mpr (Or.inl hmended))]
      cases hread : tree.read env.directory file with
      | error cause => rfl
      | ok bytes => rw [Except.map, hmended bytes hread]
  fixes := by
    intro hfix file _ hreaches text report hread hrun
    rw [(h.mends_answer hlawful hfix).read_of_reaches hreaches,
      FileTree.readText_eq_ok_iff.mp hread, Except.map, linter.mendBytes_of_run hrun]
  spares := by
    intro location hnot
    cases hfix : options.fix with
    | false => rw [h.tree_answer_of_report hlawful hfix]
    | true => exact (h.mends_answer hlawful hfix).kept location hnot
  shape := by
    cases hfix : options.fix with
    | false => rw [h.tree_answer_of_report hlawful hfix]
    | true => exact (h.mends_answer hlawful hfix).hollow
  succeeds := by
    simp only [h.status_answer_eq_zero_iff hlawful, passesAt_iff, options.mode_eq_fix_iff]

end Prepared

end Answer

/-- Whether no replacement is refused in a run. -/
def Unrefused (libraries : Libraries) (env : Environment) (tree : FileTree)
    (options : CheckOptions) : Prop :=
  ∀ config linter files, Prepared libraries env tree options config linter files →
    ¬ Refuses linter libraries.device env.directory tree files

/-- What a check run promises, whatever the files, the paths, the configuration and the names of
checks that it is given. -/
structure CheckContract (libraries : Libraries) (env : Environment) (tree : FileTree)
    (options : CheckOptions) (outcome : Outcome) : Prop where
  /-- A blocked run fails and changes nothing. -/
  blocked : Blocked libraries env tree options → outcome.status = 1 ∧ outcome.tree = tree
  /-- Any other run checks the files that it collects. -/
  checks : ¬ Blocked libraries env tree options → ∃ config linter files,
    Prepared libraries env tree options config linter files ∧
    Checks libraries env tree options linter files outcome
  /-- After a run in fix mode a run in either mode that is asked for the same changes nothing,
  unless the configuration was among the files. -/
  settles : options.fix = true → ConfigApart libraries env tree options →
    ∀ again, options.Agrees again →
    (answer libraries env outcome.tree (.check again)).tree = outcome.tree
  /-- If no replacement was refused it also ends in the same way, whatever it is that the files are
  walked and replaced through by then. -/
  repeats : options.fix = true → ConfigApart libraries env tree options →
    Unrefused libraries env tree options →
    ∀ others again, others.Lawful → others.decode = libraries.decode → options.Agrees again →
    (answer others env outcome.tree (.check again)).tree = outcome.tree ∧
    (answer others env outcome.tree (.check again)).status = outcome.status

section Again

variable {libraries : Libraries} (hlawful : libraries.Lawful) {env : Environment} {tree : FileTree}
  {options again : CheckOptions} (hagrees : options.Agrees again) {others : Libraries}
  (hothers : others.Lawful) (hdecode : others.decode = libraries.decode)

include hlawful hagrees hothers hdecode

/-- What blocks a run blocks the next one. -/
theorem Blocked.answer_again (h : Blocked libraries env tree options) :
    (answer others env (answer libraries env tree (.check options)).tree (.check again)).tree =
      (answer libraries env tree (.check options)).tree ∧
    (answer others env (answer libraries env tree (.check options)).tree (.check again)).status =
      (answer libraries env tree (.check options)).status := by
  have hagain := (h.of_agrees hagrees).of_decode_eq hdecode
  rw [h.tree_answer hlawful, h.status_answer hlawful]
  exact ⟨hagain.tree_answer hothers, hagain.status_answer hothers⟩

namespace Prepared

variable {config : Config} {linter : Linter} {files : List Path}
  (h : Prepared libraries env tree options config linter files) (hfix : options.fix = true)
  (hapart : ConfigApart libraries env tree options)

include h hfix hapart

omit hothers in
/-- After a run in fix mode another run finds the same configuration, linter and files. -/
theorem after_answer : Prepared others env (answer libraries env tree (.check options)).tree again
    config linter files := by
  have hmends := h.mends_answer hlawful hfix
  refine (h.of_agrees hagrees hmends.hollow fun path hpath => ?_).of_decode_eq hdecode
  refine hmends.read_of_not_reaches ?_
  rintro ⟨file, hfile, -, hlocation⟩
  exact hapart config linter files path h hpath file hfile hlocation

/-- The next run changes nothing if it cannot replace what the first one could not replace. -/
theorem tree_answer_again (hdevice : others.device = libraries.device) :
    (answer others env (answer libraries env tree (.check options)).tree (.check again)).tree =
      (answer libraries env tree (.check options)).tree := by
  have hagain := h.after_answer hlawful hagrees hdecode hfix hapart
  rw [hagain.tree_answer hothers]
  refine checkFiles_of_mended_or_not_accepts hothers.device fun file hfile => ?_
  rw [hdevice]
  exact (h.mends_answer hlawful hfix).mended_or_not_accepts hfile

/-- The next run has nothing left to do if no replacement was refused. -/
theorem answer_again
    (hnot : ¬ Refuses linter libraries.device env.directory tree files) :
    (answer others env (answer libraries env tree (.check options)).tree (.check again)).tree =
      (answer libraries env tree (.check options)).tree ∧
    (answer others env (answer libraries env tree (.check options)).tree (.check again)).status =
      (answer libraries env tree (.check options)).status := by
  have hagain := h.after_answer hlawful hagrees hdecode hfix hapart
  have hmends := h.mends_answer hlawful hfix
  have hmended (file : Path) (hfile : file ∈ files) :=
    hmends.mended_of_not_refuses hnot hfile
  constructor
  · rw [hagain.tree_answer hothers]
    exact checkFiles_of_mended_or_not_accepts hothers.device fun file hfile =>
      Or.inl (hmended file hfile)
  · have hquiet : ¬ Refuses linter others.device env.directory
        (answer libraries env tree (.check options)).tree files := by
      rintro ⟨before, file, rest, rfl, hneeds, -⟩
      exact hneeds (hmended file (by simp))
    rw [hagain.status_answer hothers, h.status_answer hlawful]
    congr 2
    rw [Bool.eq_iff_iff, isSuccess_iff, isSuccess_iff, passed_checkFiles_iff hothers.device,
      passed_checkFiles_iff hlawful.device, and_iff_left fun _ => hquiet,
      and_iff_left fun _ => hnot, options.mode_eq_fix_iff.mpr hfix]
    exact forall₂_congr fun file hfile =>
      hmends.passesAt_iff_of_mended (hmended file hfile) again.mode

end Prepared

end Again

/-- Every check run keeps its promises, through all libraries that keep to what is known of
them. -/
theorem answer_checkContract {libraries : Libraries} (hlawful : libraries.Lawful)
    (env : Environment) (tree : FileTree) (options : CheckOptions) :
    CheckContract libraries env tree options (answer libraries env tree (.check options)) where
  blocked := fun h => ⟨h.status_answer hlawful, h.tree_answer hlawful⟩
  checks := by
    intro h
    obtain ⟨config, linter, files, hprepared⟩ := exists_prepared hlawful h
    exact ⟨config, linter, files, hprepared, hprepared.checks_answer hlawful⟩
  settles := by
    intro hfix hapart again hagrees
    by_cases h : Blocked libraries env tree options
    · exact (h.answer_again hlawful hagrees hlawful rfl).1
    · obtain ⟨config, linter, files, hprepared⟩ := exists_prepared hlawful h
      exact hprepared.tree_answer_again hlawful hagrees hlawful rfl hfix hapart rfl
  repeats := by
    intro hfix hapart hunrefused others again hothers hdecode hagrees
    by_cases h : Blocked libraries env tree options
    · exact h.answer_again hlawful hagrees hothers hdecode
    · obtain ⟨config, linter, files, hprepared⟩ := exists_prepared hlawful h
      exact hprepared.answer_again hlawful hagrees hothers hdecode hfix hapart
        (hunrefused config linter files hprepared)

/-- A file that is collected twice is mended once, and the run succeeds. -/
theorem answer_checkContract_collected_twice :
    ∃ (env : Environment) (tree : FileTree) (options : CheckOptions),
      Libraries.standard.Lawful ∧
      CheckContract .standard env tree options (answer .standard env tree (.check options)) ∧
      CollectsAll tree env.directory Config.standard options.targets
        [⟨"init.pp"⟩, ⟨"./init.pp"⟩] ∧
      tree.read env.directory ⟨"init.pp"⟩ = .ok (Bytes.ofText "\x7b  \x7d") ∧
      (answer .standard env tree (.check options)).tree.read env.directory ⟨"init.pp"⟩ =
        .ok (Bytes.ofText "\x7b\x7d") ∧
      (answer .standard env tree (.check options)).status = 0 := by
  refine ⟨⟨["work"], none, false⟩, ⟨[([], .directory 0o755), (["work"], .directory 0o755),
      (["work", "init.pp"], .file (Bytes.ofText "\x7b  \x7d") 0o644)], false, by decide, by decide⟩,
    { paths := [⟨"init.pp"⟩, ⟨"."⟩], fix := true }, Libraries.standard_lawful,
    answer_checkContract Libraries.standard_lawful _ _ _,
    (collect_eq_ok_iff Libraries.standard_lawful).mp ?_, ?_, ?_, ?_⟩
  all_goals decide +kernel

/-- In a directory that must not be changed a file keeps its text, and the run fails although it
could repair all errors. A directory that must not be listed makes a run fail although its path
leads there. -/
theorem answer_short_of_permissions :
    ∃ (env : Environment) (readonly closed : FileTree) (options : CheckOptions) (text : String)
        (report : Report),
      options.fix = true ∧ options.only = [] ∧
      (configSource env readonly options).path? = none ∧
      CollectsAll readonly env.directory Config.standard options.targets [⟨"./init.pp"⟩] ∧
      readonly.readText env.directory ⟨"./init.pp"⟩ = .ok text ∧
      Config.standard.linter.run text .fix = .ok report ∧ report.remainingErrors = [] ∧
      report.output ≠ text ∧
      (answer .standard env readonly (.check options)).tree.read env.directory ⟨"./init.pp"⟩ =
        .ok (Bytes.ofText text) ∧
      (answer .standard env readonly (.check options)).status = 1 ∧
      (configSource env closed options).path? = none ∧
      (∀ path ∈ options.targets, closed.resolve env.directory path =
        .ok (["work"], .directory 0o300)) ∧
      (answer .standard env closed (.check options)).status = 1 := by
  have houtcome : (Config.standard.linter.run "\x7b  \x7d" .fix).map
      (fun report => (report.remainingErrors, report.output)) = .ok ([], "\x7b\x7d") := by
    decide +kernel
  cases hrun : Config.standard.linter.run "\x7b  \x7d" .fix with
  | error e =>
    rw [hrun] at houtcome
    cases houtcome
  | ok report =>
    rw [hrun, Except.map, Except.ok.injEq, Prod.mk.injEq] at houtcome
    have hother : report.output ≠ "\x7b  \x7d" := by
      rw [houtcome.2]
      decide
    refine ⟨⟨["work"], none, false⟩, ⟨[([], .directory 0o755), (["work"], .directory 0o555),
        (["work", "init.pp"], .file (Bytes.ofText "\x7b  \x7d") 0o644)], false, by decide,
        by decide⟩,
      ⟨[([], .directory 0o755), (["work"], .directory 0o300)], false, by decide, by decide⟩,
      { paths := [⟨"."⟩], fix := true }, "\x7b  \x7d", report, rfl, rfl, ?_,
      (collect_eq_ok_iff Libraries.standard_lawful).mp ?_, ?_, hrun, houtcome.1, hother, ?_, ?_, ?_,
      ?_, ?_⟩
    all_goals decide +kernel

end Command

end ManifestSpacing
