/-!
# TOML strings and blanks

Readers take the rest of the input and give back what they read with what is
left of it. Basic strings know escapes, literal strings do not; the multi-line
forms drop a line end right after the opening quotes and may end in up to two
quotes of their own. Control characters other than the tab are not allowed.
-/

namespace ManifestSpacing

namespace Toml

/-- What a reader gives back: a value and the rest of the input. -/
abbrev Reading (α : Type) := Option (α × List Char)

/-- Characters that may stand in comments and single-line strings. -/
def isTextChar (c : Char) : Bool := c = '\t' || (decide (' ' ≤ c) && c ≠ '\x7f')

/-- Spaces and tabs. -/
def isBlank (c : Char) : Bool := c = ' ' || c = '\t'

/-- Drops spaces and tabs. -/
def skipBlanks (input : List Char) : List Char := input.dropWhile isBlank

/-- Drops one line end. -/
def lineFeed? : List Char → Option (List Char)
  | '\n' :: rest => some rest
  | '\r' :: '\n' :: rest => some rest
  | _ => none

/-- Drops blanks, comments and line ends. The flag tells whether a comment is open. -/
def skipLines : Bool → List Char → List Char
  | _, [] => []
  | inComment, c :: rest =>
    if inComment && isTextChar c then skipLines true rest
    else if c = '\n' ∨ (c = '\r' ∧ rest.head? = some '\n') then skipLines false rest
    else if isBlank c then skipLines false rest
    else if c = '#' then skipLines true rest
    else c :: rest

/-- Drops the rest of a line that holds nothing but blanks and a comment. -/
def endOfLine? (input : List Char) : Option (List Char) :=
  let input := skipBlanks input
  let input := if input.head? = some '#' then input.dropWhile isTextChar else input
  if input.isEmpty then some [] else lineFeed? input

/-- The value of a hexadecimal digit. -/
def hexValue? (c : Char) : Option Nat :=
  if '0' ≤ c ∧ c ≤ '9' then some (c.toNat - '0'.toNat)
  else if 'a' ≤ c ∧ c ≤ 'f' then some (c.toNat - 'a'.toNat + 10)
  else if 'A' ≤ c ∧ c ≤ 'F' then some (c.toNat - 'A'.toNat + 10)
  else none

/-- The character with a code point of a fixed number of hexadecimal digits. -/
def codePoint? (digits : Nat) (input : List Char) : Option Char :=
  if input.length < digits then none
  else
    match (input.take digits).foldl
      (fun total c => match total, hexValue? c with
        | some n, some d => some (n * 16 + d)
        | _, _ => none) (some 0) with
    | some n => if n.isValidChar then some (Char.ofNat n) else none
    | none => none

/-- The character of the escape after a backslash, and how many characters the escape takes. -/
def escape? : List Char → Option (Char × Nat)
  | 'b' :: _ => some ('\x08', 1)
  | 't' :: _ => some ('\t', 1)
  | 'n' :: _ => some ('\n', 1)
  | 'f' :: _ => some ('\x0c', 1)
  | 'r' :: _ => some ('\r', 1)
  | 'e' :: _ => some ('\x1b', 1)
  | '"' :: _ => some ('"', 1)
  | '\\' :: _ => some ('\\', 1)
  | 'x' :: rest => (codePoint? 2 rest).map fun c => (c, 3)
  | 'u' :: rest => (codePoint? 4 rest).map fun c => (c, 5)
  | 'U' :: rest => (codePoint? 8 rest).map fun c => (c, 9)
  | _ => none

/-- Puts a character in front of what was read. -/
def Reading.prepend (c : Char) (reading : Reading (List Char)) : Reading (List Char) :=
  reading.map fun (cs, rest) => (c :: cs, rest)

/-- The rest of a single-line basic string. -/
def basicBody? (input : List Char) : Reading (List Char) :=
  match input with
  | [] => none
  | c :: rest =>
    if c = '"' then some ([], rest)
    else if c = '\\' then
      match escape? rest with
      | some (d, n) => Reading.prepend d (basicBody? (rest.drop n))
      | none => none
    else if isTextChar c then Reading.prepend c (basicBody? rest)
    else none
termination_by input.length
decreasing_by all_goals simp only [List.length_drop, List.length_cons]; omega

/-- The rest of a single-line literal string. -/
def literalBody? : List Char → Reading (List Char)
  | [] => none
  | c :: rest =>
    if c = '\'' then some ([], rest)
    else if isTextChar c then Reading.prepend c (literalBody? rest)
    else none

/-- How many quotes end a multi-line string here: at least three, and at most five of which the
first two may belong to the text. -/
def closingQuotes? (quote : Char) (input : List Char) : Option Nat :=
  let run := (input.takeWhile fun c => c = quote).length
  if 3 ≤ run then some (min run 5) else none

/-- Drops blanks and line ends. -/
def skipSpace : List Char → List Char
  | [] => []
  | c :: rest =>
    if isBlank c ∨ c = '\n' ∨ (c = '\r' ∧ rest.head? = some '\n') then skipSpace rest
    else c :: rest

/-- Drops the blanks and line ends after a backslash that ends its line. -/
def lineContinuation? (input : List Char) : Option (List Char) :=
  (lineFeed? (skipBlanks input)).map skipSpace

/-- The rest of a multi-line string; only the basic form knows escapes. The budget bounds the
number of characters read. -/
def multiLineBody? (quote : Char) : Nat → List Char → Reading (List Char)
  | 0, _ => none
  | _ + 1, [] => none
  | budget + 1, c :: rest =>
    match closingQuotes? quote (c :: rest) with
    | some n => some (List.replicate (n - 3) quote, (c :: rest).drop n)
    | none =>
      if c = '\\' ∧ quote = '"' then
        match lineContinuation? rest with
        | some rest => multiLineBody? quote budget rest
        | none =>
          match escape? rest with
          | some (d, n) => Reading.prepend d (multiLineBody? quote budget (rest.drop n))
          | none => none
      else if isTextChar c ∨ c = '\n' ∨ (c = '\r' ∧ rest.head? = some '\n') then
        Reading.prepend c (multiLineBody? quote budget rest)
      else none

/-- The rest of a multi-line string after its opening quotes. -/
def multiLine? (quote : Char) (input : List Char) : Reading (List Char) :=
  let body := (lineFeed? input).getD input
  multiLineBody? quote (body.length + 1) body

/-- A string of any form. -/
def string? : List Char → Reading String
  | '"' :: '"' :: '"' :: rest =>
    (multiLine? '"' rest).map fun (cs, rest) => (String.ofList cs, rest)
  | '\'' :: '\'' :: '\'' :: rest =>
    (multiLine? '\'' rest).map fun (cs, rest) => (String.ofList cs, rest)
  | '"' :: rest => (basicBody? rest).map fun (cs, rest) => (String.ofList cs, rest)
  | '\'' :: rest => (literalBody? rest).map fun (cs, rest) => (String.ofList cs, rest)
  | _ => none

/-- Characters of a key that needs no quotes. -/
def isBareKeyChar (c : Char) : Bool := c.isAlphanum || c = '_' || c = '-'

/-- One part of a key: bare or a single-line string. -/
def keyPart? : List Char → Reading String
  | '"' :: rest => (basicBody? rest).map fun (cs, rest) => (String.ofList cs, rest)
  | '\'' :: rest => (literalBody? rest).map fun (cs, rest) => (String.ofList cs, rest)
  | input =>
    let name := input.takeWhile isBareKeyChar
    if name.isEmpty then none else some (String.ofList name, input.dropWhile isBareKeyChar)

/-- The parts of a key, divided by dots, with the blanks after it dropped. -/
def keyParts? : Nat → List Char → Reading (List String)
  | 0, _ => none
  | budget + 1, input =>
    match keyPart? (skipBlanks input) with
    | none => none
    | some (part, rest) =>
      match skipBlanks rest with
      | '.' :: rest => (keyParts? budget rest).map fun (parts, rest) => (part :: parts, rest)
      | rest => some ([part], rest)

/-- How many parts a key may have. -/
def keyLimit : Nat := 80

/-- A key as the path to its last part and that part. -/
def key? (input : List Char) : Reading (List String × String) :=
  match keyParts? (input.length + 1) input with
  | none => none
  | some (parts, rest) =>
    if parts.length ≤ keyLimit then
      parts.getLast?.map fun last => ((parts.dropLast, last), rest)
    else none

end Toml

end ManifestSpacing
