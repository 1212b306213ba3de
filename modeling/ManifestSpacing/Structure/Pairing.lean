import ManifestSpacing.Token.Kind

/-!
# Matching delimiters

Braces, brackets and parentheses are matched each on their own: a closer pairs
with the latest opener of its family that is still open, whatever stands
between them, and a closer without one stays unmatched. Every pair has its
opener first.
-/

namespace ManifestSpacing

/-- A family of delimiters. -/
inductive Family where
  | brace
  | bracket
  | paren
  deriving DecidableEq, Repr

namespace Family

/-- Every family. -/
def all : List Family := [brace, bracket, paren]

/-- The kind that opens a family. -/
def opener : Family → TokenKind
  | brace => .openBrace
  | bracket => .openBracket
  | paren => .openParen

/-- The kind that closes a family. -/
def closer : Family → TokenKind
  | brace => .closeBrace
  | bracket => .closeBracket
  | paren => .closeParen

/-- The pairs of a family from index `i` on, given the indices of the openers still open, latest
first. -/
def pairsFrom (family : Family) : List Nat → Nat → List TokenKind → List (Nat × Nat)
  | _, _, [] => []
  | stack, i, kind :: kinds =>
    if kind = family.opener then family.pairsFrom (i :: stack) (i + 1) kinds
    else if kind = family.closer then
      match stack with
      | [] => family.pairsFrom [] (i + 1) kinds
      | opened :: stack => (opened, i) :: family.pairsFrom stack (i + 1) kinds
    else family.pairsFrom stack (i + 1) kinds

/-- The matched pairs of a family. -/
def pairs (family : Family) (kinds : List TokenKind) : List (Nat × Nat) :=
  family.pairsFrom [] 0 kinds

theorem fst_lt_snd_of_mem_pairsFrom {family : Family} {stack : List Nat} {i : Nat}
    {kinds : List TokenKind} (hs : ∀ opened ∈ stack, opened < i) {p : Nat × Nat}
    (h : p ∈ family.pairsFrom stack i kinds) : p.1 < p.2 := by
  induction kinds generalizing stack i with
  | nil => cases h
  | cons kind kinds ih =>
    rw [pairsFrom.eq_def] at h
    dsimp only at h
    have hs' : ∀ opened ∈ stack, opened < i + 1 := fun o ho => Nat.lt_succ_of_lt (hs o ho)
    split at h
    · exact ih (fun o ho => (List.mem_cons.mp ho).elim (fun h => by omega) (hs' o)) h
    · split at h
      · split at h
        · exact ih (by simp) h
        · rcases List.mem_cons.mp h with rfl | h
          · exact hs _ (List.mem_cons_self ..)
          · exact ih (fun o ho => hs' o (List.mem_cons_of_mem _ ho)) h
      · exact ih hs' h

end Family

/-- Which delimiters belong together. -/
structure Pairing where
  /-- Index of the opener and of the closer of every matched pair. -/
  pairs : List (Nat × Nat)
  /-- Openers come first. -/
  ordered : ∀ p ∈ pairs, p.1 < p.2

namespace Pairing

/-- The pairing of all three families. -/
def ofKinds (kinds : List TokenKind) : Pairing where
  pairs := Family.all.flatMap fun family => family.pairs kinds
  ordered := by
    intro p hp
    obtain ⟨family, -, h⟩ := List.mem_flatMap.mp hp
    exact Family.fst_lt_snd_of_mem_pairsFrom (by simp) h

/-- The closer of the opener at an index. -/
def closerOf? (pairing : Pairing) (i : Nat) : Option Nat :=
  (pairing.pairs.find? fun p => p.1 == i).map Prod.snd

/-- The opener of the closer at an index. -/
def openerOf? (pairing : Pairing) (i : Nat) : Option Nat :=
  (pairing.pairs.find? fun p => p.2 == i).map Prod.fst

/-- The other delimiter of the pair that an index belongs to. -/
def partner? (pairing : Pairing) (i : Nat) : Option Nat :=
  (pairing.closerOf? i).or (pairing.openerOf? i)

/-- A closer comes after its opener. -/
theorem lt_of_closerOf? {pairing : Pairing} {i j : Nat} (h : pairing.closerOf? i = some j) :
    i < j := by
  obtain ⟨p, hp, rfl⟩ := Option.map_eq_some_iff.mp h
  have hi : p.1 = i := by simpa using List.find?_some hp
  exact hi ▸ pairing.ordered p (List.mem_of_find?_eq_some hp)

end Pairing

end ManifestSpacing
