import ManifestSpacing.Config.Toml.Range
import ManifestSpacing.Config.Toml.Scalar
import ManifestSpacing.Config.Toml.Strings
import ManifestSpacing.Config.Toml.Value

/-!
# TOML documents

A document is read line by line into one table. Arrays and inline tables may
span lines, hold comments and end in a comma; an inline table may also break its
lines around the equals sign. Both may be nested only to a limit. Headers of
repeated tables are refused: no setting is a list of tables.
-/

namespace ManifestSpacing

namespace Toml

/-- A number, date or time. -/
def scalar? (input : List Char) : Reading Value :=
  match Scalar.pattern.longestMatch input with
  | some n =>
    if Range.contains (input.take n) then
      some (.scalar (String.ofList (input.take n)), input.drop n)
    else none
  | none => none

/-- How deep arrays and inline tables may be nested. -/
def nestingLimit : Nat := 80

mutual

/-- Any value at a depth of nesting; the budget bounds the depth and the number of items. -/
def value? (depth : Nat) : Nat → List Char → Reading Value
  | 0, _ => none
  | budget + 1, input =>
    match input with
    | '[' :: rest =>
      if depth < nestingLimit then
        (items? (depth + 1) budget rest).map fun (items, rest) => (.array items, rest)
      else none
    | '\x7b' :: rest =>
      if depth < nestingLimit then
        (pairs? (depth + 1) budget [] rest).map fun (entries, rest) =>
          (.table .inline entries, rest)
      else none
    | 't' :: 'r' :: 'u' :: 'e' :: rest => some (.boolean true, rest)
    | 'f' :: 'a' :: 'l' :: 's' :: 'e' :: rest => some (.boolean false, rest)
    | '"' :: _ | '\'' :: _ => (string? input).map fun (text, rest) => (.string text, rest)
    | _ => scalar? input

/-- The items of an array up to its bracket. -/
def items? (depth : Nat) : Nat → List Char → Reading (List Value)
  | 0, _ => none
  | budget + 1, input =>
    match skipLines false input with
    | ']' :: rest => some ([], rest)
    | input =>
      match value? depth budget input with
      | none => none
      | some (item, rest) =>
        match skipLines false rest with
        | ',' :: rest => (items? depth budget rest).map fun (items, rest) => (item :: items, rest)
        | ']' :: rest => some ([item], rest)
        | _ => none

/-- The entries of an inline table up to its brace. -/
def pairs? (depth : Nat) : Nat → Entries → List Char → Reading Entries
  | 0, _, _ => none
  | budget + 1, entries, input =>
    match skipLines false input with
    | '\x7d' :: rest => some (entries, rest)
    | input =>
      match key? input with
      | none => none
      | some ((path, key), rest) =>
        match skipLines false rest with
        | '=' :: rest =>
          match value? depth budget (skipLines false rest) with
          | none => none
          | some (value, rest) =>
            match entries.assign? key value path with
            | none => none
            | some entries =>
              match skipLines false rest with
              | ',' :: rest => pairs? depth budget entries rest
              | '\x7d' :: rest => some (entries, rest)
              | _ => none
        | _ => none

end

/-- The lines of a document from the table of the last header on. -/
def lines? : Nat → Entries → List String → List Char → Option Entries
  | 0, _, _, _ => none
  | budget + 1, root, current, input =>
    match skipLines false input with
    | [] => some root
    | '[' :: rest =>
      match key? rest with
      | some ((path, key), ']' :: rest) =>
        match root.openTable? key path, endOfLine? rest with
        | some root, some rest => lines? budget root (path ++ [key]) rest
        | _, _ => none
      | _ => none
    | input =>
      match key? input with
      | some ((path, key), '=' :: rest) =>
        match value? 0 (input.length + 1) (skipBlanks rest) with
        | none => none
        | some (value, rest) =>
          match root.within? (fun entries => entries.assign? key value path) current,
              endOfLine? rest with
          | some root, some rest => lines? budget root current rest
          | _, _ => none
      | _ => none

/-- The table that a document describes, or nothing when it is malformed. A leading byte order
mark is ignored. -/
def parse? (text : String) : Option Entries :=
  let input := match text.toList with
    | '\ufeff' :: rest => rest
    | input => input
  lines? (input.length + 1) [] [] input

end Toml

end ManifestSpacing
