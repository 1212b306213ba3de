import ManifestSpacing.Token.Kind

/-!
# Neighbours in a sequence of kinds

The closest place before or after an index whose kind is not blank, or not
trivia. Comments count as content for the first notion and not for the second.
-/

namespace ManifestSpacing

namespace Neighbors

/-- The greatest place below a bound whose kind satisfies a test. -/
def lastBelow? (test : TokenKind → Bool) (kinds : List TokenKind) : Nat → Option Nat
  | 0 => none
  | i + 1 => if (kinds[i]?).any test then some i else lastBelow? test kinds i

/-- The closest place before an index whose kind satisfies a test. -/
def before? (test : TokenKind → Bool) (kinds : List TokenKind) (i : Nat) : Option Nat :=
  lastBelow? test kinds (min i kinds.length)

/-- The closest place after an index whose kind satisfies a test. -/
def after? (test : TokenKind → Bool) (kinds : List TokenKind) (i : Nat) : Option Nat :=
  ((kinds.drop (i + 1)).findIdx? test).map (· + (i + 1))

/-- The closest place before an index that is not blank. -/
def prevContent? (kinds : List TokenKind) (i : Nat) : Option Nat :=
  before? (fun kind => !kind.isBlank) kinds i

/-- The closest place after an index that is not blank. -/
def nextContent? (kinds : List TokenKind) (i : Nat) : Option Nat :=
  after? (fun kind => !kind.isBlank) kinds i

/-- The closest place before an index that is neither blank nor a comment. -/
def prevCode? (kinds : List TokenKind) (i : Nat) : Option Nat :=
  before? (fun kind => !kind.isTrivia) kinds i

/-- The closest place after an index that is neither blank nor a comment. -/
def nextCode? (kinds : List TokenKind) (i : Nat) : Option Nat :=
  after? (fun kind => !kind.isTrivia) kinds i

theorem lastBelow?_lt {test : TokenKind → Bool} {kinds : List TokenKind} {bound j : Nat}
    (h : lastBelow? test kinds bound = some j) : j < bound := by
  induction bound with
  | zero => cases h
  | succ i ih =>
    simp only [lastBelow?] at h
    split at h
    · cases h; omega
    · have := ih h; omega

/-- A neighbour before an index lies strictly before it. -/
theorem before?_lt {test : TokenKind → Bool} {kinds : List TokenKind} {i j : Nat}
    (h : before? test kinds i = some j) : j < i := by
  have := lastBelow?_lt h
  omega

/-- A neighbour after an index lies strictly after it and inside the sequence. -/
theorem after?_bounds {test : TokenKind → Bool} {kinds : List TokenKind} {i j : Nat}
    (h : after? test kinds i = some j) : i < j ∧ j < kinds.length := by
  obtain ⟨k, hk, rfl⟩ := Option.map_eq_some_iff.mp h
  have hlt := (List.findIdx?_eq_some_iff_getElem.mp hk).1
  rw [List.length_drop] at hlt
  omega

end Neighbors

end ManifestSpacing
