/-!
# Paths as written

A path is kept as the text that was given, because that text is printed again.
Its segments are what stands between slashes; empty segments and single dots
after the first segment carry no meaning of their own.
-/

namespace ManifestSpacing

/-- A path as written. -/
structure Path where
  /-- The text of the path. -/
  text : String
  deriving DecidableEq, Repr

namespace Path

/-- Splits characters at every slash. -/
def splitSlashes : List Char → List (List Char)
  | [] => [[]]
  | c :: cs =>
    if c = '/' then [] :: splitSlashes cs
    else
      match splitSlashes cs with
      | [] => [[c]]
      | segment :: rest => (c :: segment) :: rest

/-- The segments of a path, empty ones included. -/
def segments (path : Path) : List String := (splitSlashes path.text.toList).map String.ofList

/-- Whether a path starts at the root. -/
def isAbsolute (path : Path) : Bool := path.text.toList.head? == some '/'

/-- The path with the given segments. -/
def ofSegments (segments : List String) : Path := ⟨"/".intercalate segments⟩

/-- Whether the segment at an index names a step of the path. -/
def isStep (index : Nat) (segment : String) : Bool :=
  segment != "" && (segment != "." || index == 0)

/-- The indices of the segments that name a step. -/
def stepIndices (path : Path) : List Nat :=
  (path.segments.zipIdx.filter fun (segment, index) => isStep index segment).map Prod.snd

/-- A path, then the paths through each of its earlier steps, and last the place where it
starts. -/
def ancestors (path : Path) : List Path :=
  let steps := path.stepIndices
  let start := if path.isAbsolute then "/" else ""
  let inner := steps.dropLast.reverse.map fun index => ofSegments (path.segments.take (index + 1))
  path :: inner ++ (if steps.isEmpty then [] else [⟨start⟩])

/-- The path without its last step. -/
def parent? (path : Path) : Option Path := path.ancestors[1]?

/-- The path from the root through the given names. -/
def ofNames (names : List String) : Path := ⟨"/" ++ "/".intercalate names⟩

/-- The path of a file in a directory. -/
def join (directory : Path) (name : String) : Path :=
  if directory.text = "" then ⟨name⟩
  else if directory.text.toList.getLast? = some '/' then ⟨directory.text ++ name⟩
  else ⟨directory.text ++ "/" ++ name⟩

/-- The path that names lead to from a directory. -/
def through (directory : Path) (names : List String) : Path := names.foldl join directory

/-- The path of the directory that holds a file. -/
def holder (path : Path) : Path :=
  match path.parent? with
  | some parent => if parent.text = "" then ⟨"."⟩ else parent
  | none => ⟨"."⟩

/-- The path from the root, for a path from a working directory. -/
def absolute (path working : Path) : Path :=
  if path.isAbsolute then path else working.join path.text

/-- The text of a path between quotes, in which quotes, backslashes and line ends are escaped. -/
def quoted (path : Path) : String :=
  let escape := fun (c : Char) =>
    if c = '\n' then ['\\', 'n'] else if c = '\r' then ['\\', 'r']
    else if c = '\t' then ['\\', 't']
    else if c = '\\' ∨ c = '"' ∨ c.toNat = 0x27 then ['\\', c] else [c]
  String.ofList ('"' :: path.text.toList.flatMap escape ++ ['"'])

/-- The extension of a file name: what follows its last dot, if something stands before that
dot. -/
def extension? (name : String) : Option String :=
  let backwards := name.toList.reverse
  match backwards.dropWhile fun c => c ≠ '.' with
  | _ :: _ :: _ =>
    if name = ".." then none
    else some (String.ofList (backwards.takeWhile fun c => c ≠ '.').reverse)
  | _ => none

end Path

end ManifestSpacing
