import ManifestSpacing.Files.Tree

/-!
# Replacing a file by way of a temporary one

The new content is first written to a temporary file in the directory of the
file to replace, under a path from the root. The temporary file then gets the
permission bits of the file and is moved to its place. Any step may be refused,
and what a refused step leaves is removed. Which name the temporary file gets
and what refuses a step besides the file tree is up to a device.
-/

namespace ManifestSpacing

/-- A step of replacing a file. -/
inductive WriteStep where
  /-- The temporary file is made. -/
  | create
  /-- The new content is written to it. -/
  | write
  /-- Its content is forced out. -/
  | sync
  /-- It gets the permission bits of the file. -/
  | permissions
  /-- It is moved to the place of the file. -/
  | rename
  deriving DecidableEq, Repr

/-- Why a file is not replaced. -/
structure WriteFailure where
  /-- The step that was refused. -/
  step : WriteStep
  /-- The path of the temporary file. -/
  temporary : Path
  cause : AccessError
  deriving DecidableEq, Repr

/-- The description of a write failure. The first two steps are taken through the temporary file,
which they mention. -/
def WriteFailure.message (failure : WriteFailure) : String :=
  match failure.step with
  | .create | .write => failure.cause.message ++ " at path " ++ failure.temporary.quoted
  | .sync | .permissions | .rename => failure.cause.message

/-- What decides about a write besides the file tree. -/
structure Device where
  /-- The name of a temporary file in a directory. -/
  temporaryName : FileTree → Path → String
  /-- Why a step of replacing the file at a location is refused, if it is. -/
  refuses : Location → WriteStep → Option AccessError

/-! ## Temporary names -/

namespace TemporaryName

/-- Letters and digits. -/
def alphabet : List Char := "ABCDEFGHIJKLMNOPQRSTUVWXYZabcdefghijklmnopqrstuvwxyz0123456789".toList

/-- How many letters and digits a temporary name has. -/
def length : Nat := 6

/-- The temporary name with the given letters and digits. -/
def ofChars (random : List Char) : String := String.ofList ('.' :: 't' :: 'm' :: 'p' :: random)

/-- The first characters in the order of the alphabet that pass a test, of those that continue the
given ones by a number of characters. -/
def first? (test : List Char → Bool) : Nat → List Char → Option (List Char)
  | 0, random => if test random then some random else none
  | n + 1, random => alphabet.findSome? fun c => first? test n (random ++ [c])

/-- The first temporary name that is free in a directory. -/
def choose (tree : FileTree) (holder : Path) : String :=
  let isFree := fun (random : List Char) =>
    match tree.resolve [] holder with
    | .ok (location, _) => (tree.find? (location ++ [ofChars random])).isNone
    | .error _ => true
  ofChars ((first? isFree length []).getD (List.replicate length 'A'))

end TemporaryName

/-- The device that refuses nothing. -/
def Device.ready : Device := ⟨TemporaryName.choose, fun _ _ => none⟩

/-! ## Replacing -/

namespace FileTree

/-- The permission bits of a new temporary file. -/
def temporaryMode : Nat := 0o600

/-- Makes an empty file, for its owner alone, in a directory that is given by its path from the
root. -/
def create (tree : FileTree) (holder : Path) (name : String) :
    Except AccessError (Location × FileTree) :=
  match refusal? (holder.join name) with
  | some cause => .error cause
  | none =>
    match tree.resolve [] holder with
    | .error cause => .error cause
    | .ok (_, .file ..) => .error .notDirectory
    | .ok (location, .directory mode) =>
      if tree.allows .search (.directory mode) = false then .error .permissionDenied
      else if isTooLong name then .error .nameTooLong
      else if (tree.find? (location ++ [name])).isSome then .error .alreadyExists
      else if tree.allows .write (.directory mode) = false then .error .permissionDenied
      else .ok (location ++ [name], tree.add (location ++ [name]) (.file [] temporaryMode))

/-- What the steps of replacing a file do once there is a temporary file. -/
def replacementSteps (temporary target : Location) (content : Bytes) (mode? : Option Nat) :
    List (WriteStep × (FileTree → FileTree)) :=
  [(.write, fun tree => tree.overwrite temporary content), (.sync, id)] ++
    mode?.toList.map (fun mode => (.permissions, fun tree => tree.chmod temporary mode)) ++
    [(.rename, fun tree => tree.rename temporary target)]

/-- Takes steps in turn, up to the first that is refused. -/
def perform (refuses : WriteStep → Option AccessError) :
    List (WriteStep × (FileTree → FileTree)) → FileTree →
      Except (WriteStep × AccessError) Unit × FileTree
  | [], tree => (.ok (), tree)
  | (step, change) :: steps, tree =>
    match refuses step with
    | some cause => (.error (step, cause), tree)
    | none => perform refuses steps (change tree)

/-- The path from the root of the directory that holds a file. -/
def holderOf (directory : Location) (path : Path) : Path :=
  path.holder.absolute (.ofNames directory)

/-- Replaces the content of the file that a path leads to, and tells whether it did. -/
def replace (tree : FileTree) (device : Device) (directory : Location) (path : Path)
    (content : Bytes) : Except WriteFailure Unit × FileTree :=
  let target := locate directory path
  let holder := holderOf directory path
  let name := device.temporaryName tree holder
  match device.refuses target .create with
  | some cause => (.error ⟨.create, holder.join name, cause⟩, tree)
  | none =>
    match tree.create holder name with
    | .error cause => (.error ⟨.create, holder.join name, cause⟩, tree)
    | .ok (temporary, created) =>
      let mode? := (created.resolve directory path).toOption.map fun found => found.2.mode
      match perform (device.refuses target)
          (replacementSteps temporary target content mode?) created with
      | (.ok (), after) => (.ok (), after)
      | (.error (step, cause), left) =>
        (.error ⟨step, holder.join name, cause⟩, left.remove temporary)

end FileTree

end ManifestSpacing
