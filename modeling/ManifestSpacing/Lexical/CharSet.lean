/-!
# Character sets

Sets of characters written as lists of inclusive ranges, possibly negated, as
in the brackets of a regular expression.
-/

namespace ManifestSpacing

/-- A set of characters. -/
structure CharSet where
  /-- Inclusive ranges, each with its first and last character. -/
  ranges : List (Char × Char)
  /-- Whether the set holds the characters outside the ranges instead. -/
  negated : Bool
  deriving DecidableEq, Repr

namespace CharSet

/-- Whether a set holds a character. -/
def contains (set : CharSet) (c : Char) : Bool :=
  (set.ranges.any fun range => decide (range.1 ≤ c ∧ c ≤ range.2)) != set.negated

/-- The set of some ranges. -/
def ofRanges (ranges : List (Char × Char)) : CharSet := ⟨ranges, false⟩

/-- The set of the characters of a text. -/
def ofText (text : String) : CharSet := ⟨text.toList.map fun c => (c, c), false⟩

/-- The characters outside a text. -/
def exceptText (text : String) : CharSet := ⟨text.toList.map fun c => (c, c), true⟩

/-- Decimal digits. -/
def digit : CharSet := ofRanges [('0', '9')]

/-- Hexadecimal digits in either case. -/
def hexDigit : CharSet := ofRanges [('0', '9'), ('a', 'f'), ('A', 'F')]

/-- Characters inside an identifier. -/
def identifier : CharSet := ofRanges [('a', 'z'), ('A', 'Z'), ('0', '9'), ('_', '_')]

/-- Characters that start a lower-case identifier. -/
def lowerStart : CharSet := ofRanges [('a', 'z'), ('_', '_')]

/-- Characters that start a capitalised identifier. -/
def upperStart : CharSet := ofRanges [('A', 'Z')]

/-- Characters that start an identifier of either sort. -/
def anyStart : CharSet := ofRanges [('a', 'z'), ('A', 'Z'), ('_', '_')]

end CharSet

end ManifestSpacing
