import ManifestSpacing.Config.Decode
import ManifestSpacing.Files.Snapshot

/-!
# What a run leaves to libraries

A run decodes configurations, walks directories and writes through libraries.
What they are is a parameter of the run; here are the ones that the program
uses.
-/

namespace ManifestSpacing

namespace Command

/-- What is come across in walking a directory. -/
structure Found where
  /-- The names that lead to it from the directory. -/
  names : List String
  isFile : Bool
  deriving DecidableEq, Repr

/-- Why a directory cannot be walked: a directory at or below it that cannot be listed. -/
structure WalkError where
  path : Path
  cause : AccessError
  deriving DecidableEq, Repr

/-- The description of a walk error. -/
def WalkError.message (e : WalkError) : String :=
  "IO error for operation on " ++ e.path.text ++ ": " ++ e.cause.message

/-- What a run leaves to libraries. -/
structure Libraries where
  /-- The configuration that a text describes, or what is wrong with the text. -/
  decode : String → Except String Config
  /-- What is at and below the directory that a path leads to, in any order. -/
  walk : FileTree → Location → Path → Except WalkError (List Found)
  /-- What files are replaced through. -/
  device : Device

namespace Libraries

/-- Why an entry below a path keeps it from being walked, if it does. -/
def obstacle? (tree : FileTree) (directory : Location) (path : Path) (names : List String)
    (entry : Entry) : Option WalkError :=
  if entry.isFile then none
  else
    match tree.list directory (path.through names) with
    | .ok _ => none
    | .error cause => some ⟨path.through names, cause⟩

/-- Walks a directory in the order in which its entries were made. -/
def walkInOrder (tree : FileTree) (directory : Location) (path : Path) :
    Except WalkError (List Found) :=
  match tree.resolve directory path with
  | .error cause => .error ⟨path, cause⟩
  | .ok (location, _) =>
    match (tree.below location).findSome? fun (names, entry) =>
        obstacle? tree directory path names entry with
    | some e => .error e
    | none => .ok ((tree.below location).map fun (names, entry) => ⟨names, entry.isFile⟩)

/-- The libraries of the program. -/
def standard : Libraries := ⟨Config.ofToml, walkInOrder, .ready⟩

end Libraries

end Command

end ManifestSpacing
