/-!
# TOML values and tables

A table remembers how it came to be, because that decides whether a later line
may still add to it: a table written inline is closed, one opened by a header
can only be entered by the headers of its subtables, and one that dotted keys
created can be extended by further dotted keys.
-/

namespace ManifestSpacing

namespace Toml

/-- How a table came to be. -/
inductive Origin where
  /-- Written between braces. -/
  | inline
  /-- Opened by its own header. -/
  | header
  /-- Mentioned on the way to the table of a header. -/
  | implied
  /-- Mentioned on the way to the value of a dotted key. -/
  | dotted
  deriving DecidableEq, Repr

/-- A TOML value. -/
inductive Value where
  /-- A string of any of the four forms. -/
  | string (text : String)
  | boolean (value : Bool)
  /-- A number, date or time, as written. -/
  | scalar (text : String)
  | array (items : List Value)
  | table (origin : Origin) (entries : List (String × Value))
  deriving Repr

/-- The entries of a table, in the order of writing. -/
abbrev Entries := List (String × Value)

namespace Entries

/-- Replaces the value of a key. -/
def replace (entries : Entries) (key : String) (value : Value) : Entries :=
  entries.map fun entry => if entry.1 = key then (key, value) else entry

/-- Gives a dotted key its value. The tables on the way must be dotted, except that a table implied
by a header may be passed through; no key is assigned twice. -/
def assign? (entries : Entries) (key : String) (value : Value) : List String → Option Entries
  | [] => if (entries.lookup key).isSome then none else some (entries ++ [(key, value)])
  | step :: path =>
    match entries.lookup step with
    | none =>
      (assign? [] key value path).map fun inner => entries ++ [(step, .table .dotted inner)]
    | some (.table origin inner) =>
      if origin = .dotted ∨ (origin = .implied ∧ path ≠ []) then
        (assign? inner key value path).map fun inner =>
          replace entries step (.table origin inner)
      else none
    | some _ => none

/-- Opens the table of a header. It must be new, or only implied so far. -/
def openTable? (entries : Entries) (key : String) : List String → Option Entries
  | [] =>
    match entries.lookup key with
    | none => some (entries ++ [(key, .table .header [])])
    | some (.table .implied inner) => some (replace entries key (.table .header inner))
    | some _ => none
  | step :: path =>
    match entries.lookup step with
    | none =>
      (openTable? [] key path).map fun inner => entries ++ [(step, .table .implied inner)]
    | some (.table origin inner) =>
      if origin = .inline then none
      else
        (openTable? inner key path).map fun inner => replace entries step (.table origin inner)
    | some _ => none

/-- Applies a change to the table that a path leads to. -/
def within? (change : Entries → Option Entries) (entries : Entries) :
    List String → Option Entries
  | [] => change entries
  | step :: path =>
    match entries.lookup step with
    | some (.table origin inner) =>
      (within? change inner path).map fun inner => replace entries step (.table origin inner)
    | _ => none

end Entries

end Toml

end ManifestSpacing
