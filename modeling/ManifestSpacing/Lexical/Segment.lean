/-!
# Segments of double-quoted strings

The text of a string runs to its closing quote or to the next interpolation. A
backslash takes the following character with it. The scan reads the bytes of
the UTF-8 encoding and reports how many of them it took; the cut is then moved
from bytes to characters.
-/

namespace ManifestSpacing

/-- How a stretch of string text ends. -/
inductive Segment where
  /-- At the closing quote. -/
  | closed
  /-- At the dollar sign and brace that start an interpolation. -/
  | interpolation
  deriving DecidableEq, Repr

namespace Segment

/-- The bytes of a run of characters. -/
def utf8Bytes (cs : List Char) : List UInt8 := cs.flatMap String.utf8EncodeChar

/-- The byte of a backslash. -/
def backslash : UInt8 := 0x5c

/-- The byte of a double quote. -/
def doubleQuote : UInt8 := 0x22

/-- The byte of a dollar sign. -/
def dollar : UInt8 := 0x24

/-- The byte of an opening brace. -/
def openBrace : UInt8 := 0x7b

/-- Reads string text bytewise; a backslash skips the byte after it. The count is of the bytes
read, through the quote or the brace. -/
def scanBytes : List UInt8 → Option (Segment × Nat)
  | [] => none
  | [b] => if b = doubleQuote then some (.closed, 1) else none
  | b :: next :: rest =>
    if b = backslash then (scanBytes rest).map fun (segment, n) => (segment, n + 2)
    else if b = doubleQuote then some (.closed, 1)
    else if b = dollar ∧ next = openBrace then some (.interpolation, 2)
    else (scanBytes (next :: rest)).map fun (segment, n) => (segment, n + 1)

/-- How many leading characters take up exactly a number of bytes. -/
def charsWithin : Nat → List Char → Option Nat
  | 0, _ => some 0
  | _ + 1, [] => none
  | bytes + 1, c :: cs =>
    if c.utf8Size ≤ bytes + 1 then (charsWithin (bytes + 1 - c.utf8Size) cs).map (· + 1)
    else none

/-- The segment at the front of a text and its length in characters. -/
def scan (source : List Char) : Option (Segment × Nat) :=
  match scanBytes (utf8Bytes source) with
  | none => none
  | some (segment, bytes) => (charsWithin bytes source).map fun n => (segment, n)

end Segment

end ManifestSpacing
