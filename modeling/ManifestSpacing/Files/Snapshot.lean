import ManifestSpacing.Files.Replacement

/-!
# Reading files and replacing them safely

A snapshot remembers the text that a file had when it was read. The file is
replaced only while it still has exactly that text, so nobody else's change is
lost.
-/

namespace ManifestSpacing

/-- Why a text cannot be read. -/
inductive TextError where
  | access (cause : AccessError)
  /-- The bytes are not UTF-8. -/
  | notText
  deriving DecidableEq, Repr

/-- The description of a text error. -/
def TextError.message : TextError → String
  | access cause => cause.message
  | notText => "stream did not contain valid UTF-8"

/-- The text of a file. -/
def FileTree.readText (tree : FileTree) (directory : Location) (path : Path) :
    Except TextError String :=
  match tree.read directory path with
  | .error cause => .error (.access cause)
  | .ok bytes =>
    match Bytes.text? bytes with
    | some text => .ok text
    | none => .error .notText

/-- Why a manifest cannot be read or replaced. -/
inductive FileError where
  | access (path : Path) (cause : AccessError)
  | notText (path : Path)
  /-- The file no longer has the text that was read. -/
  | changed (path : Path)
  /-- The file could be read but not be replaced. -/
  | unwritten (path : Path) (failure : WriteFailure)
  deriving DecidableEq, Repr

/-- The description of a file error. -/
def FileError.message : FileError → String
  | access path cause => "IO error on " ++ path.text ++ ": " ++ cause.message
  | notText path => "File is not valid UTF-8: " ++ path.text
  | changed path => "File changed on disk since it was read: " ++ path.text
  | unwritten path failure => "IO error on " ++ path.text ++ ": " ++ failure.message

/-- A file as it was read. -/
structure Snapshot where
  /-- The path by which it was read. -/
  path : Path
  /-- The text it had. -/
  content : String
  deriving DecidableEq, Repr

namespace Snapshot

/-- Reads a file. -/
def read (tree : FileTree) (directory : Location) (path : Path) : Except FileError Snapshot :=
  match tree.readText directory path with
  | .ok content => .ok ⟨path, content⟩
  | .error (.access cause) => .error (.access path cause)
  | .error .notText => .error (.notText path)

/-- Replaces the file by a new text, provided it still has the text that was read, and tells whether
it did. -/
def writeBack (snapshot : Snapshot) (device : Device) (tree : FileTree) (directory : Location)
    (content : String) : Except FileError Unit × FileTree :=
  match tree.read directory snapshot.path with
  | .error cause => (.error (.access snapshot.path cause), tree)
  | .ok current =>
    if current = Bytes.ofText snapshot.content then
      match tree.replace device directory snapshot.path (Bytes.ofText content) with
      | (.ok (), after) => (.ok (), after)
      | (.error failure, after) => (.error (.unwritten snapshot.path failure), after)
    else (.error (.changed snapshot.path), tree)

end Snapshot

end ManifestSpacing
