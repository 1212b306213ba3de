import ManifestSpacing.Command.Run

/-!
# The program

The files that a request can touch are read from the disk into a file tree, the
request is answered on that tree, and the files whose content differs
afterwards are written. What the disk does not let read has no permission to be
read in the tree.
-/

namespace ManifestSpacing

namespace Disk

/-- The text of a location. -/
def textOf (location : Location) : String := "/" ++ "/".intercalate location

/-- Adds what the disk holds at a location, and all that is below it if `deep`. Links below a
directory are left out. -/
partial def scan (deep follow : Bool) (tree : FileTree) (location : Location) : IO FileTree := do
  let target := (← IO.currentDir) / textOf location
  let look := if follow then target.metadata else target.symlinkMetadata
  match ← look.toBaseIO with
  | .error _ => return tree
  | .ok data =>
    match data.type with
    | .dir =>
      let tree := tree.makeDirectory location
      if deep then
        match ← target.readDir.toBaseIO with
        | .error _ => return tree.chmod location 0o300
        | .ok children =>
          children.foldlM
            (fun tree child => scan true false tree (location ++ [child.fileName])) tree
      else return tree
    | .file =>
      match ← (IO.FS.readBinFile target).toBaseIO with
      | .error _ => return (tree.put location []).chmod location 0o200
      | .ok content => return tree.put location content.data.toList
    | _ => return tree

/-- Adds every location on the way of a path, and what is below its end if `deep`. -/
def scanPath (deep : Bool) (directory : Location) (tree : FileTree) (path : Path) :
    IO FileTree := do
  let start := FileTree.startOf directory path
  let stops := (List.range path.segments.length).map fun n =>
    (path.segments.take n).foldl FileTree.descend start
  let tree ← stops.foldlM (scan false true) tree
  scan deep true tree (FileTree.locate directory path)

/-- Adds the configuration files that a run may use. -/
def scanConfig (env : Command.Environment) (asked : Option Path) (tree : FileTree) :
    IO FileTree := do
  let found := (env.directoryPath.ancestors ++ env.home.toList).map fun place =>
    place.join Config.fileName
  (asked.toList ++ found).foldlM (scanPath false env.directory) tree

/-- A tree with the root directory alone, in which permission bits count. -/
def bare : FileTree := { FileTree.empty with privileged := false }

/-- The part of the disk that a request can touch. -/
def scanRequest (env : Command.Environment) : Command.Request → IO FileTree
  | .check options => do
    let tree ← scanConfig env options.config bare
    options.targets.foldlM (scanPath true env.directory) tree
  | .list asked => scanConfig env asked bare
  | .version | .help => return bare

/-- Writes the files whose content differs. -/
def save (before after : FileTree) : IO Unit :=
  after.entries.forM fun (location, entry) => do
    match entry with
    | .file content _ =>
      if before.find? location ≠ some entry then
        IO.FS.writeBinFile (textOf location) ⟨content.toArray⟩
    | .directory _ => return ()

/-- Whether output is coloured: forced on or off by the environment, else for a terminal only. -/
def wantsColor : IO Bool := do
  let isSet := fun (value : Option String) => value.isSome && value != some "0"
  if isSet (← IO.getEnv "CLICOLOR_FORCE") then return true
  else if (← IO.getEnv "NO_COLOR").isSome then return false
  else if (← IO.getEnv "CLICOLOR") == some "0" then return false
  else (← IO.getStdout).isTty

/-- The environment of the process. -/
def environment : IO Command.Environment := do
  let here : Path := ⟨(← IO.currentDir).toString⟩
  return ⟨FileTree.locate [] here, (← IO.getEnv "HOME").map Path.mk, ← wantsColor⟩

/-- Answers the arguments and returns the exit status. -/
def answer (arguments : List String) : IO UInt32 := do
  let env ← environment
  let tree ← match Command.Request.ofArguments arguments with
    | .ok request => scanRequest env request
    | .error _ => pure bare
  let outcome := Command.run .standard env tree arguments
  save tree outcome.tree
  IO.print outcome.output
  IO.eprint outcome.errors
  return outcome.status.toUInt32

end Disk

end ManifestSpacing

/-- The entry point of the program. -/
def main (arguments : List String) : IO UInt32 := ManifestSpacing.Disk.answer arguments
