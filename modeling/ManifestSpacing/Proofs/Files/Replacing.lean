import Mathlib.Data.String.Basic
import ManifestSpacing.Proofs.Files.Lookup

/-!
# When a file can be replaced

A file that can be read is either replaced, and then only its content has
changed, or everything is as it was: the temporary file is gone in both cases.
It is replaced exactly if its directory accepts a temporary file and the device
refuses no step, which does not depend on what is in the files.
-/

namespace ManifestSpacing

namespace FileTree

/-! ## With a temporary file -/

section Temporary

variable {tree : FileTree} {temporary : Location} (hfree : tree.find? temporary = none)

include hfree

theorem ne_of_find?_eq_none {entry : Location × Entry} (h : entry ∈ tree.entries) :
    entry.1 ≠ temporary :=
  fun heq => find?_eq_none_iff.mp hfree (heq ▸ List.mem_map_of_mem h)

variable (hholder : tree.isDirectory temporary.dropLast = true)

include hholder

/-- Changing the temporary file is making another one. -/
theorem modify_add (entry : Entry) (change : Entry → Entry)
    (h : ∀ entry, (change entry).isFile = entry.isFile) :
    (tree.add temporary entry).modify temporary change h = tree.add temporary (change entry) := by
  have hothers : tree.entries.map (fun entry =>
      (entry.1, if entry.1 = temporary then change entry.2 else entry.2)) = tree.entries := by
    refine (List.map_congr_left fun entry hentry => ?_).trans (List.map_id _)
    rw [if_neg (ne_of_find?_eq_none hfree hentry), id]
  simp only [add, dif_pos (And.intro hfree hholder)]
  refine FileTree.ext ?_ rfl
  simp only [modify, mapEntries, List.map_append, hothers, List.map_cons, List.map_nil, if_true]

/-- Without the temporary file everything is as it was. -/
theorem remove_add (content : Bytes) (mode : Nat) :
    (tree.add temporary (.file content mode)).remove temporary = tree := by
  have hothers : tree.entries.filter (fun entry =>
      !(entry.1 == temporary && entry.2.isFile)) = tree.entries :=
    List.filter_eq_self.mpr fun entry hentry => by simp [ne_of_find?_eq_none hfree hentry]
  simp only [add, dif_pos (And.intro hfree hholder)]
  refine FileTree.ext ?_ rfl
  simp only [remove, List.filter_append, hothers]
  simp [Entry.isFile]

/-- Moving the temporary file to the place of a file with the same permission bits changes the
content of that file alone. -/
theorem rename_add {target : Location} {old : Bytes} {mode : Nat}
    (htarget : tree.find? target = some (.file old mode)) (content : Bytes) :
    (tree.add temporary (.file content mode)).rename temporary target =
      tree.overwrite target content := by
  have hother : target ≠ temporary := by
    rintro rfl
    rw [hfree] at htarget
    cases htarget
  have hsame : (tree.overwrite target content).chmod target mode =
      tree.overwrite target content := by
    refine FileTree.ext ?_ rfl
    simp only [chmod, overwrite, modify, mapEntries, List.map_map, List.map_inj_left]
    intro entry hentry
    simp only [Function.comp_apply, Prod.mk.injEq, true_and]
    split
    · rename_i hhere
      have hentry' : entry.2 = .file old mode := by
        have hfound := find?_eq_some_iff.mpr (show (target, entry.2) ∈ tree.entries from
          hhere ▸ hentry)
        rw [htarget] at hfound
        exact (Option.some.inj hfound).symm
      rw [hentry']
      rfl
    · rfl
  unfold rename
  rw [find?_add hfree hholder, find?_add hfree hholder, if_pos rfl, if_neg hother, htarget]
  simp only [Ne.symm hother, if_false]
  rw [remove_add hfree hholder, hsame]

theorem allows_add (entry : Entry) (right : Right) (other : Entry) :
    (tree.add temporary entry).allows right other = tree.allows right other := by
  simp only [add, dif_pos (And.intro hfree hholder), allows]

theorem find?_add_of_find? {location : Location} {found : Entry}
    (h : tree.find? location = some found) (entry : Entry) :
    (tree.add temporary entry).find? location = some found := by
  rw [find?_add hfree hholder, if_neg, h]
  rintro rfl
  rw [hfree] at h
  cases h

theorem follow_add {location : Location} {segments : List String} {found : Location × Entry}
    (h : tree.follow location segments = .ok found) (entry : Entry) :
    (tree.add temporary entry).follow location segments = .ok found := by
  induction segments generalizing location with
  | nil =>
    unfold follow at h ⊢
    split at h
    · cases h
    · rename_i other hother
      rw [find?_add_of_find? hfree hholder hother]
      exact h
  | cons segment rest ih =>
    unfold follow at h ⊢
    split at h
    · cases h
    · cases h
    · rename_i mode hmode
      simp only [find?_add_of_find? hfree hholder hmode, allows_add hfree hholder] at h ⊢
      split at h
      · cases h
      · split at h
        · cases h
        · rename_i hsearch hlong
          rw [if_neg hsearch, if_neg hlong]
          exact ih h

/-- What a path leads to is also found while there is a temporary file. -/
theorem resolve_add {directory : Location} {path : Path} {found : Location × Entry}
    (h : tree.resolve directory path = .ok found) (entry : Entry) :
    (tree.add temporary entry).resolve directory path = .ok found := by
  unfold resolve at h ⊢
  cases hrefusal : refusal? path with
  | some cause =>
    rw [hrefusal] at h
    cases h
  | none =>
    rw [hrefusal] at h
    exact follow_add hfree hholder h entry

end Temporary

/-! ## The steps -/

/-- Either no step is refused and all are taken, or one is refused after others that keep what holds
of the tree. -/
theorem perform_cases {P : FileTree → Prop} (refuses : WriteStep → Option AccessError)
    {steps : List (WriteStep × (FileTree → FileTree))}
    (hsteps : ∀ step ∈ steps, ∀ tree, P tree → P (step.2 tree)) {tree : FileTree} (htree : P tree)
    (last : WriteStep × (FileTree → FileTree)) :
    (∀ step ∈ steps ++ [last], refuses step.1 = none) ∧
      perform refuses (steps ++ [last]) tree =
        (.ok (), last.2 (steps.foldl (fun tree step => step.2 tree) tree)) ∨
    ∃ step ∈ steps ++ [last], ∃ cause left, refuses step.1 = some cause ∧
      perform refuses (steps ++ [last]) tree = (.error (step.1, cause), left) ∧ P left := by
  induction steps generalizing tree with
  | nil =>
    cases hlast : refuses last.1 with
    | none =>
      refine Or.inl ⟨fun step hstep => ?_, by simp [perform, hlast]⟩
      rw [List.mem_singleton.mp hstep, hlast]
    | some cause =>
      exact Or.inr ⟨last, List.mem_singleton_self _, cause, tree, hlast,
        by simp [perform, hlast], htree⟩
  | cons step steps ih =>
    rw [List.forall_mem_cons] at hsteps
    cases hstep : refuses step.1 with
    | none =>
      have hperform : perform refuses (step :: steps ++ [last]) tree =
          perform refuses (steps ++ [last]) (step.2 tree) := by
        simp [perform, hstep]
      rw [hperform]
      obtain ⟨hnone, hdone⟩ | ⟨other, hother, hrefused⟩ := ih hsteps.2 (hsteps.1 tree htree)
      · refine Or.inl ⟨List.forall_mem_cons.mpr ⟨hstep, hnone⟩, hdone⟩
      · exact Or.inr ⟨other, List.mem_cons_of_mem _ hother, hrefused⟩
    | some cause =>
      exact Or.inr ⟨step, List.mem_cons_self, cause, tree, hstep, by simp [perform, hstep], htree⟩

/-- A temporary file is made in a directory that can be searched and changed, under a name that is
free and a path that is not refused. -/
theorem create_eq_ok_iff {tree : FileTree} {holder : Path} {name : String}
    {made : Location × FileTree} : tree.create holder name = .ok made ↔
      refusal? (holder.join name) = none ∧ ∃ location mode,
        tree.resolve [] holder = .ok (location, .directory mode) ∧
        tree.allows .search (.directory mode) = true ∧ isTooLong name = false ∧
        tree.find? (location ++ [name]) = none ∧ tree.allows .write (.directory mode) = true ∧
        made = (location ++ [name], tree.add (location ++ [name]) (.file [] temporaryMode)) := by
  unfold create
  cases refusal? (holder.join name) with
  | some cause => simp
  | none =>
    rcases tree.resolve [] holder with cause | ⟨location, content | mode⟩
    · simp
    · simp
    · simp only [true_and, Except.ok.injEq, Prod.mk.injEq, Entry.directory.injEq]
      split
      · rename_i hsearch
        simp [hsearch]
      · split
        · rename_i hlong
          simp [hlong]
        · split
          · rename_i htaken
            simp [Option.isSome_iff_ne_none.mp htaken]
          · split
            · rename_i hwrite
              simp [hwrite]
            · rename_i hsearch hlong htaken hwrite
              rw [Bool.not_eq_false] at hsearch hwrite
              rw [Bool.not_eq_true] at hlong
              rw [Option.not_isSome_iff_eq_none] at htaken
              constructor
              · intro hmade
                cases hmade
                exact ⟨location, mode, ⟨rfl, rfl⟩, hsearch, hlong, htaken, hwrite, rfl⟩
              · rintro ⟨_, _, ⟨rfl, rfl⟩, -, -, -, -, rfl⟩
                rfl

/-- Whether a tree is another one with a temporary file, whatever is in that file. -/
def HasTemporary (tree : FileTree) (temporary : Location) (left : FileTree) : Prop :=
  ∃ content mode, left = tree.add temporary (.file content mode)

theorem HasTemporary.modify {tree left : FileTree} {temporary : Location}
    (hleft : tree.HasTemporary temporary left) (hfree : tree.find? temporary = none)
    (hholder : tree.isDirectory temporary.dropLast = true) {change : Entry → Entry}
    (h : ∀ entry, (change entry).isFile = entry.isFile)
    (hfile : ∀ content mode, ∃ content' mode', change (.file content mode) = .file content' mode') :
    tree.HasTemporary temporary (left.modify temporary change h) := by
  obtain ⟨content, mode, rfl⟩ := hleft
  obtain ⟨content', mode', hchange⟩ := hfile content mode
  exact ⟨content', mode', by rw [modify_add hfree hholder, hchange]⟩

/-- With a temporary file there, the file is replaced, or what a refused step leaves is gone with
the temporary file. -/
theorem perform_replacementSteps {tree : FileTree} {temporary target : Location}
    (hfree : tree.find? temporary = none)
    (hholder : tree.isDirectory temporary.dropLast = true) {old : Bytes} {mode : Nat}
    (htarget : tree.find? target = some (.file old mode)) (content : Bytes)
    (refuses : WriteStep → Option AccessError) :
    (∀ step, step ≠ .create → refuses step = none) ∧
      perform refuses (replacementSteps temporary target content (some mode))
        (tree.add temporary (.file [] temporaryMode)) = (.ok (), tree.overwrite target content) ∨
    (∃ step, refuses step ≠ none) ∧ ∃ refused left,
      perform refuses (replacementSteps temporary target content (some mode))
        (tree.add temporary (.file [] temporaryMode)) = (.error refused, left) ∧
      left.remove temporary = tree := by
  -- the temporary file is there until the last step moves it
  have hsteps : ∀ step ∈ [(WriteStep.write, fun tree => FileTree.overwrite tree temporary content),
      (.sync, id), (.permissions, fun tree => tree.chmod temporary mode)],
      ∀ left, tree.HasTemporary temporary left → tree.HasTemporary temporary (step.2 left) := by
    simp only [List.forall_mem_cons]
    exact ⟨fun _ hleft => hleft.modify hfree hholder _ fun _ mode => ⟨content, mode, rfl⟩,
      fun _ => id,
      fun _ hleft => hleft.modify hfree hholder _ fun content _ => ⟨content, mode, rfl⟩, nofun⟩
  obtain ⟨hnone, hdone⟩ | ⟨step, -, cause, left, hrefused, herror, content', mode', rfl⟩ :=
    perform_cases refuses hsteps ⟨[], temporaryMode, rfl⟩
      (.rename, fun tree => tree.rename temporary target)
  · refine Or.inl ⟨fun step hstep => ?_, hdone.trans ?_⟩
    · simp only [List.cons_append, List.nil_append, List.forall_mem_cons] at hnone
      cases step with
      | create => exact absurd rfl hstep
      | write => exact hnone.1
      | sync => exact hnone.2.1
      | permissions => exact hnone.2.2.1
      | rename => exact hnone.2.2.2.1
    · simp only [List.foldl_cons, List.foldl_nil, id]
      rw [overwrite, chmod, modify_add hfree hholder, modify_add hfree hholder]
      rw [Entry.withContent, Entry.withMode, rename_add hfree hholder htarget]
  · exact Or.inr ⟨⟨step.1, by simp [hrefused]⟩, _, _, herror, remove_add hfree hholder _ _⟩

/-- Whether the temporary file can be made and no step is refused. -/
def CanReplace (tree : FileTree) (device : Device) (directory : Location) (path : Path) : Prop :=
  (∃ made, tree.create (holderOf directory path)
    (device.temporaryName tree (holderOf directory path)) = .ok made) ∧
  ∀ step, device.refuses (locate directory path) step = none

/-- A file that can be read is replaced, or nothing has changed. -/
theorem replace_cases {tree : FileTree} {directory : Location} {path : Path} {old : Bytes}
    (hread : tree.read directory path = .ok old) (device : Device) (content : Bytes) :
    tree.CanReplace device directory path ∧
      tree.replace device directory path content =
        (.ok (), tree.overwrite (locate directory path) content) ∨
    ¬ tree.CanReplace device directory path ∧
      ∃ failure, tree.replace device directory path content = (.error failure, tree) := by
  unfold CanReplace
  cases hdevice : device.refuses (locate directory path) .create with
  | some cause =>
    refine Or.inr ⟨fun h => ?_, _, by simp only [replace, hdevice]; rfl⟩
    rw [h.2] at hdevice
    cases hdevice
  | none =>
    cases hcreate : tree.create (holderOf directory path)
        (device.temporaryName tree (holderOf directory path)) with
    | error cause =>
      exact Or.inr ⟨fun h => by simp at h, _, by simp only [replace, hdevice, hcreate]; rfl⟩
    | ok made =>
      obtain ⟨-, location, _, hresolve, -, -, hfree, -, rfl⟩ := create_eq_ok_iff.mp hcreate
      have hholder : tree.isDirectory (location ++
          [device.temporaryName tree (holderOf directory path)]).dropLast = true := by
        rw [List.dropLast_concat]
        exact isDirectory_iff.mpr ⟨_, (resolve_eq_ok hresolve).2⟩
      obtain ⟨mode, hpath, -⟩ := read_eq_ok_iff.mp hread
      have htarget := (resolve_eq_ok hpath).2
      have hstat := resolve_add hfree hholder hpath (.file [] temporaryMode)
      simp only [replace, hdevice, hcreate, hstat, Except.toOption, Option.map_some, Entry.mode]
      obtain ⟨hnone, hdone⟩ | ⟨⟨step, hrefused⟩, refused, left, herror, hleft⟩ :=
        perform_replacementSteps hfree hholder htarget content
          (device.refuses (locate directory path))
      · rw [hdone]
        refine Or.inl ⟨⟨⟨_, rfl⟩, fun step => ?_⟩, rfl⟩
        by_cases hstep : step = .create
        · rw [hstep, hdevice]
        · exact hnone step hstep
      · rw [herror]
        exact Or.inr ⟨fun h => hrefused (h.2 step), _, by simp only [hleft]; rfl⟩

end FileTree

/-! ## Writing a snapshot back -/

namespace Snapshot

variable (snapshot : Snapshot) (device : Device) (tree : FileTree) (directory : Location)
  (content : String)

/-- A snapshot is written back if its file has the bytes that were read and can be replaced. If not,
nothing changes, and the refusal tells why. -/
theorem writeBack_cases :
    (tree.read directory snapshot.path = .ok (Bytes.ofText snapshot.content) ∧
      tree.CanReplace device directory snapshot.path ∧
      snapshot.writeBack device tree directory content = (.ok (),
        tree.overwrite (FileTree.locate directory snapshot.path) (Bytes.ofText content))) ∨
    ∃ e, snapshot.writeBack device tree directory content = (.error e, tree) ∧
      ((∃ cause, e = .access snapshot.path cause ∧
        tree.read directory snapshot.path = .error cause) ∨
      (e = .changed snapshot.path ∧ ∃ current,
        tree.read directory snapshot.path = .ok current ∧
        current ≠ Bytes.ofText snapshot.content) ∨
      ∃ failure, e = .unwritten snapshot.path failure ∧
        tree.read directory snapshot.path = .ok (Bytes.ofText snapshot.content) ∧
        ¬ tree.CanReplace device directory snapshot.path) := by
  unfold writeBack
  cases hread : tree.read directory snapshot.path with
  | error cause => exact Or.inr ⟨_, rfl, Or.inl ⟨cause, rfl, rfl⟩⟩
  | ok current =>
    by_cases hcurrent : current = Bytes.ofText snapshot.content
    · subst hcurrent
      obtain ⟨hcan, hreplace⟩ | ⟨hcan, failure, hreplace⟩ :=
        FileTree.replace_cases hread device (Bytes.ofText content)
      · exact Or.inl ⟨rfl, hcan, by simp only [if_true, hreplace]⟩
      · exact Or.inr ⟨_, by simp only [if_true, hreplace],
          Or.inr (Or.inr ⟨failure, rfl, rfl, hcan⟩)⟩
    · exact Or.inr ⟨_, by simp only [if_neg hcurrent],
        Or.inr (Or.inl ⟨rfl, current, rfl, hcurrent⟩)⟩

variable {snapshot device tree directory content}

/-- A snapshot is written back exactly if its file still has the bytes that were read and can be
replaced. -/
theorem writeBack_eq_ok_iff : (snapshot.writeBack device tree directory content).1 = .ok () ↔
    tree.read directory snapshot.path = .ok (Bytes.ofText snapshot.content) ∧
      tree.CanReplace device directory snapshot.path := by
  obtain ⟨hread, hcan, hdone⟩ | ⟨e, hrefused, hcause⟩ :=
    snapshot.writeBack_cases device tree directory content
  · exact iff_of_true (by rw [hdone]) ⟨hread, hcan⟩
  · refine iff_of_false (by rw [hrefused]; exact nofun) ?_
    rintro ⟨hread, hcan⟩
    obtain ⟨cause, -, herror⟩ | ⟨-, current, hcurrent, hother⟩ | ⟨failure, -, -, hcannot⟩ := hcause
    · rw [hread] at herror
      cases herror
    · rw [hread] at hcurrent
      cases hcurrent
      exact hother rfl
    · exact hcannot hcan

/-- All that writing back changes is the content of that file. -/
theorem tree_of_writeBack_eq_ok {after : FileTree}
    (h : snapshot.writeBack device tree directory content = (.ok (), after)) :
    tree.read directory snapshot.path = .ok (Bytes.ofText snapshot.content) ∧
      after = tree.overwrite (FileTree.locate directory snapshot.path) (Bytes.ofText content) := by
  obtain ⟨hread, -, hdone⟩ | ⟨e, hrefused, -⟩ :=
    snapshot.writeBack_cases device tree directory content
  · rw [hdone] at h
    cases h
    exact ⟨hread, rfl⟩
  · rw [hrefused] at h
    cases h

end Snapshot

/-! ## What a directory accepts -/

/-- Whether a name is one of temporary files. -/
def TemporaryName.Valid (name : String) : Prop :=
  ∃ random : List Char, random.length = length ∧ (∀ c ∈ random, c ∈ alphabet) ∧
    name = ofChars random

/-- What is known of the names that a device gives to temporary files. -/
structure Device.Lawful (device : Device) : Prop where
  valid : ∀ tree holder, TemporaryName.Valid (device.temporaryName tree holder)
  /-- A name is free as long as one is. -/
  free : ∀ (tree : FileTree) (holder : Path) (location : Location) (mode : Nat),
    tree.resolve [] holder = .ok (location, .directory mode) →
    (∃ name, TemporaryName.Valid name ∧ tree.find? (location ++ [name]) = none) →
    tree.find? (location ++ [device.temporaryName tree holder]) = none

/-- A path is refused for a character that no name has, for being empty, or for its length. -/
theorem FileTree.refusal?_eq_none_iff {path : Path} : refusal? path = none ↔
    '\x00' ∉ path.text.toList ∧ path.text ≠ "" ∧ path.text.utf8ByteSize ≤ pathLimit := by
  simp only [refusal?, ite_eq_iff, reduceCtorEq, and_false, false_or, and_true, Nat.not_lt,
    List.contains_iff_mem, ne_eq]

/-- A name in a directory stands at the end of its path. -/
theorem Path.exists_text_join (directory : Path) :
    ∃ start, ∀ name, (directory.join name).text = start ++ name := by
  unfold Path.join
  split
  · exact ⟨"", fun name => (String.empty_append).symm⟩
  · split
    · exact ⟨directory.text, fun _ => rfl⟩
    · exact ⟨directory.text ++ "/", fun _ => rfl⟩

namespace TemporaryName

/-- A temporary name has ten bytes, and all of them can be part of a name. -/
theorem Valid.bytes {name : String} (h : Valid name) :
    name.utf8ByteSize = 10 ∧ '\x00' ∉ name.toList := by
  obtain ⟨random, hlength, halphabet, rfl⟩ := h
  have hchars (c : Char) (hc : c ∈ alphabet) : c.utf8Size = 1 ∧ c ≠ '\x00' := by
    have hall : alphabet.all (fun c => c.utf8Size == 1 && c != '\x00') = true := by decide +kernel
    simpa using List.all_eq_true.mp hall c hc
  have hlen : ∀ {cs : List Char}, (∀ c ∈ cs, c ∈ alphabet) → String.utf8Len cs = cs.length := by
    intro cs hcs
    induction cs with
    | nil => rfl
    | cons c cs ih =>
      rw [List.forall_mem_cons] at hcs
      rw [String.utf8Len_cons, ih hcs.2, (hchars c hcs.1).1, List.length_cons]
  constructor
  · rw [ofChars, String.utf8ByteSize_ofList]
    simp only [String.utf8Len_cons, hlen halphabet, hlength]
    rfl
  · rw [ofChars, String.toList_ofList]
    simp only [List.mem_cons, not_or]
    exact ⟨by decide, by decide, by decide, by decide,
      fun hmem => (hchars _ (halphabet _ hmem)).2 rfl⟩

/-- A path to one temporary name can be followed if a path to another one can. -/
theorem Valid.refusal?_join {name other : String} (hname : Valid name) (hother : Valid other)
    {holder : Path} (h : FileTree.refusal? (holder.join other) = none) :
    FileTree.refusal? (holder.join name) = none := by
  obtain ⟨hsize, hnul⟩ := hname.bytes
  obtain ⟨hsize', -⟩ := hother.bytes
  obtain ⟨start, hstart⟩ := holder.exists_text_join
  have hnonempty : start ++ name ≠ "" := by
    intro hempty
    have hbytes := congrArg String.utf8ByteSize hempty
    rw [String.utf8ByteSize_append, hsize, String.utf8ByteSize_empty] at hbytes
    omega
  simp only [FileTree.refusal?_eq_none_iff, hstart, String.toList_append, List.mem_append, not_or,
    String.utf8ByteSize_append, hsize, hsize'] at h ⊢
  exact ⟨⟨h.1.1, hnul⟩, hnonempty, h.2.2⟩

end TemporaryName

namespace FileTree

/-- Whether the directory of a file accepts a temporary file, and no step of replacing the file is
refused. -/
structure Accepts (tree : FileTree) (device : Device) (directory : Location) (path : Path) :
    Prop where
  /-- The directory can be reached from the root, searched and changed, and a temporary name is free
  in it. -/
  holder : ∃ location mode,
    tree.resolve [] (holderOf directory path) = .ok (location, .directory mode) ∧
    tree.allows .search (.directory mode) = true ∧ tree.allows .write (.directory mode) = true ∧
    ∃ name, TemporaryName.Valid name ∧ tree.find? (location ++ [name]) = none
  /-- The path of a temporary file in it is not too long. -/
  short : ∀ name, TemporaryName.Valid name →
    refusal? ((holderOf directory path).join name) = none
  unrefused : ∀ step, device.refuses (locate directory path) step = none

/-- A file can be replaced through a device exactly if its directory accepts a temporary file. -/
theorem canReplace_iff {tree : FileTree} {device : Device} (hlawful : device.Lawful)
    {directory : Location} {path : Path} :
    tree.CanReplace device directory path ↔ tree.Accepts device directory path := by
  have hvalid := hlawful.valid tree (holderOf directory path)
  constructor
  · rintro ⟨⟨made, hcreate⟩, hunrefused⟩
    obtain ⟨hshort, location, mode, hresolve, hsearch, -, hfree, hwrite, -⟩ :=
      create_eq_ok_iff.mp hcreate
    exact ⟨⟨location, mode, hresolve, hsearch, hwrite, _, hvalid, hfree⟩,
      fun name hname => hname.refusal?_join hvalid hshort, hunrefused⟩
  · rintro ⟨⟨location, mode, hresolve, hsearch, hwrite, hname⟩, hshort, hunrefused⟩
    have hlong : isTooLong (device.temporaryName tree (holderOf directory path)) = false := by
      rw [isTooLong, hvalid.bytes.1]
      rfl
    exact ⟨⟨_, create_eq_ok_iff.mpr ⟨hshort _ hvalid, location, mode, hresolve, hsearch, hlong,
      hlawful.free _ _ _ _ hresolve hname, hwrite, rfl⟩⟩, hunrefused⟩

/-- Whether a file can be replaced does not depend on what is in the files. -/
theorem accepts_hollow {tree : FileTree} {device : Device} {directory : Location} {path : Path} :
    tree.hollow.Accepts device directory path ↔ tree.Accepts device directory path := by
  have hfree (location : Location) : tree.hollow.find? location = none ↔
      tree.find? location = none := by
    rw [find?_hollow, Option.map_eq_none_iff]
  have hallows (right : Right) (mode : Nat) :
      tree.hollow.allows right (.directory mode) = tree.allows right (.directory mode) :=
    tree.allows_hollow right (.directory mode)
  have hresolve (location : Location) (mode : Nat) :
      tree.hollow.resolve [] (holderOf directory path) = .ok (location, .directory mode) ↔
        tree.resolve [] (holderOf directory path) = .ok (location, .directory mode) :=
    resolve_hollow_eq_directory_iff
  constructor
  · rintro ⟨hholder, hshort, hunrefused⟩
    simp only [hresolve, hallows, hfree] at hholder
    exact ⟨hholder, hshort, hunrefused⟩
  · rintro ⟨hholder, hshort, hunrefused⟩
    simp only [← hresolve, ← hallows, ← hfree] at hholder
    exact ⟨hholder, hshort, hunrefused⟩

end FileTree

/-! ## A device that keeps the laws -/

namespace TemporaryName

section First

variable {test : List Char → Bool}

theorem first?_eq_some {n : Nat} {random found : List Char}
    (h : first? test n random = some found) : test found = true ∧
      ∃ more : List Char, found = random ++ more ∧ more.length = n ∧ ∀ c ∈ more, c ∈ alphabet := by
  induction n generalizing random with
  | zero =>
    rw [first?, Option.ite_none_right_eq_some, Option.some.injEq] at h
    obtain ⟨htest, rfl⟩ := h
    exact ⟨htest, [], by simp⟩
  | succ n ih =>
    obtain ⟨c, hc, hfound⟩ := List.exists_of_findSome?_eq_some h
    obtain ⟨htest, more, rfl, hlength, hmore⟩ := ih hfound
    exact ⟨htest, c :: more, by simp, by simp [hlength], List.forall_mem_cons.mpr ⟨hc, hmore⟩⟩

/-- If anything passes, something is found. -/
theorem first?_ne_none {n : Nat} {random more : List Char} (hlength : more.length = n)
    (hmore : ∀ c ∈ more, c ∈ alphabet) (htest : test (random ++ more) = true) :
    first? test n random ≠ none := by
  induction n generalizing random more with
  | zero =>
    cases List.eq_nil_of_length_eq_zero hlength
    rw [List.append_nil] at htest
    simp [first?, htest]
  | succ n ih =>
    cases more with
    | nil => cases hlength
    | cons c more =>
      rw [List.forall_mem_cons] at hmore
      intro hnone
      refine ih (Nat.succ.inj hlength) hmore.2 ?_ (List.findSome?_eq_none_iff.mp hnone c hmore.1)
      rwa [List.append_assoc]

end First

theorem valid_choose (tree : FileTree) (holder : Path) : Valid (choose tree holder) := by
  unfold choose
  dsimp only
  generalize hfirst : first? _ length [] = found
  cases found with
  | none =>
    refine ⟨List.replicate length 'A', List.length_replicate, fun c hc => ?_, rfl⟩
    rw [List.eq_of_mem_replicate hc]
    decide
  | some random =>
    obtain ⟨-, more, hmore, hlength, halphabet⟩ := first?_eq_some hfirst
    cases hmore
    exact ⟨more, hlength, halphabet, rfl⟩

end TemporaryName

theorem Device.ready_lawful : ready.Lawful where
  valid := TemporaryName.valid_choose
  free := by
    rintro tree holder location mode hresolve ⟨name, ⟨random, hlength, halphabet, rfl⟩, hfree⟩
    show tree.find? (location ++ [TemporaryName.choose tree holder]) = none
    unfold TemporaryName.choose
    simp only [hresolve]
    generalize hfirst : TemporaryName.first? _ TemporaryName.length [] = found
    cases found with
    | none => exact absurd hfirst (TemporaryName.first?_ne_none hlength halphabet (by simp [hfree]))
    | some found =>
      have htest := (TemporaryName.first?_eq_some hfirst).1
      rwa [Option.isNone_iff_eq_none] at htest

end ManifestSpacing
