import ManifestSpacing.Structure.Pairing
import ManifestSpacing.Token.Neighbors

/-!
# Conditionals in value position

A conditional that stands right after an equals sign or an arrow is an
expression, and the braces of its branches are laid out by taste. From the
opening word the first brace outside parentheses and brackets opens a branch;
a following alternative continues the chain. Both searches only move forward,
because a pairing sends every opener to a later closer.
-/

namespace ManifestSpacing

namespace ValueConditional

/-- The opening brace of the branch whose head starts at an index. Parentheses and brackets are
jumped over as a whole, and one that is never closed ends the search. -/
def branchOpen? (kinds : List TokenKind) (pairing : Pairing) (i : Nat) : Option Nat :=
  if inside : i < kinds.length then
    if kinds[i] = .openBrace then some i
    else if kinds[i] = .openParen ∨ kinds[i] = .openBracket then
      match jump : pairing.closerOf? i with
      | none => none
      | some closer =>
        have := Pairing.lt_of_closerOf? jump
        branchOpen? kinds pairing (closer + 1)
    else branchOpen? kinds pairing (i + 1)
  else none
termination_by kinds.length - i

/-- A branch brace lies at or after the place where the search starts, inside the sequence. -/
theorem branchOpen?_bounds {kinds : List TokenKind} {pairing : Pairing} {i opened : Nat}
    (h : branchOpen? kinds pairing i = some opened) : i ≤ opened ∧ opened < kinds.length := by
  fun_induction branchOpen? kinds pairing i with
  | case1 i inside => cases h; omega
  | case2 => cases h
  | case3 i inside _ _ closer jump _ ih => have := ih h; omega
  | case4 i inside _ _ ih => have := ih h; omega
  | case5 => cases h

/-- The braces of the branches of one conditional, from the word at `cursor` on. -/
def branchBraces (kinds : List TokenKind) (pairing : Pairing) (cursor : Nat) : List Nat :=
  match opening : branchOpen? kinds pairing (cursor + 1) with
  | none => []
  | some opened =>
    match closing : pairing.closerOf? opened with
    | none => []
    | some closer =>
      match following : Neighbors.nextCode? kinds closer with
      | none => [opened, closer]
      | some next =>
        have := branchOpen?_bounds opening
        have := Pairing.lt_of_closerOf? closing
        have := Neighbors.after?_bounds following
        if kinds[next]? = some .elseWord ∨ kinds[next]? = some .elsifWord then
          opened :: closer :: branchBraces kinds pairing next
        else [opened, closer]
termination_by kinds.length - cursor

/-- Whether the word at an index starts a conditional in value position. -/
def startsValue (kinds : List TokenKind) (i : Nat) : Bool :=
  (kinds[i]? == some .ifWord || kinds[i]? == some .unlessWord) &&
    match Neighbors.prevCode? kinds i with
    | none => false
    | some prev => kinds[prev]? == some .equals || kinds[prev]? == some .farArrow

/-- The braces of all conditionals in value position. -/
def braces (kinds : List TokenKind) (pairing : Pairing) : List Nat :=
  ((List.range kinds.length).filter (startsValue kinds)).flatMap (branchBraces kinds pairing)

end ValueConditional

end ManifestSpacing
