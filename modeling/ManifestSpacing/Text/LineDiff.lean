/-!
# Line diffs

A shortest script of edits that leads from one list of lines to another. The
scripts between all suffixes of the two lists are built from the end, a row for
each old line, so that every script shares its tail with a shorter one. In a
region of changes the deleted lines stand before the inserted ones.
-/

namespace ManifestSpacing

namespace LineDiff

/-- Splits a text after each line feed, carriage return or pair of the two. -/
def splitLines : List Char → List (List Char)
  | [] => []
  | '\r' :: '\n' :: rest => ['\r', '\n'] :: splitLines rest
  | c :: rest =>
    if c = '\n' ∨ c = '\r' then [c] :: splitLines rest
    else
      match splitLines rest with
      | [] => [[c]]
      | line :: lines => (c :: line) :: lines

/-- The lines of a text with their ends. -/
def lines (text : String) : List String := (splitLines text.toList).map String.ofList

/-- One step of a script. -/
inductive Edit where
  | keep (line : String)
  | delete (line : String)
  | insert (line : String)
  deriving DecidableEq, Repr

/-- A script with the number of lines it changes. -/
structure Script where
  /-- The number of deleted and inserted lines. -/
  cost : Nat
  /-- The steps in order. -/
  edits : List Edit
  deriving Repr

namespace Script

/-- The script that does nothing. -/
def nothing : Script := ⟨0, []⟩

/-- Puts a step that changes a line before a script. -/
def change (edit : Edit) (script : Script) : Script := ⟨script.cost + 1, edit :: script.edits⟩

/-- Keeps a line before a script. -/
def keep (line : String) (script : Script) : Script := ⟨script.cost, .keep line :: script.edits⟩

/-- The cheaper of two scripts, the first if they cost the same. -/
def cheaper (a b : Script) : Script := if a.cost ≤ b.cost then a else b

end Script

/-- The scripts from nothing to each suffix of the new lines, the longest suffix first. -/
def insertionRow : List String → List Script
  | [] => [.nothing]
  | line :: lines =>
    let row := insertionRow lines
    .change (.insert line) (row.headD .nothing) :: row

/-- The scripts from one more old line to each suffix of the new lines, given those without that
line. -/
def extendRow (old : String) : List String → List Script → List Script
  | line :: lines, below :: row =>
    let right := extendRow old lines row
    let script :=
      if old = line then .keep old (row.headD .nothing)
      else
        .cheaper (.change (.delete old) below) (.change (.insert line) (right.headD .nothing))
    script :: right
  | _, row => [.change (.delete old) (row.headD .nothing)]

/-- The scripts from the old lines to each suffix of the new lines. -/
def rows (new : List String) (old : List String) : List Script :=
  old.foldr (fun line row => extendRow line new row) (insertionRow new)

/-- Moves the insertions of each region behind its deletions. -/
def grouped (waiting : List String) : List Edit → List Edit
  | [] => waiting.map .insert
  | .delete line :: edits => .delete line :: grouped waiting edits
  | .insert line :: edits => grouped (waiting ++ [line]) edits
  | .keep line :: edits => waiting.map .insert ++ .keep line :: grouped [] edits

/-- The edits that lead from one text to another, line by line. -/
def between (old new : String) : List Edit :=
  grouped [] ((rows (lines new) (lines old)).headD .nothing).edits

end LineDiff

end ManifestSpacing
