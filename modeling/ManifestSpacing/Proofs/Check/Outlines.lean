import ManifestSpacing.Check.Outline
import ManifestSpacing.Proofs.Structure.Branches

/-!
# Outlines and trivia

What the checks take for the structure of a manifest is decided by its code.
Sequences with the same code, however blanks and comments are spread in them,
have the same delimiters paired, the same braces marked as those of
conditionals in value position, and the same closing braces checked.
-/

namespace ManifestSpacing

namespace Outline

section Kept

variable {keep : TokenKind → Bool}
  (hkeep : ∀ kind : TokenKind, kind.isTrivia = false → keep kind = true) {tokens kept : List Token}
  (hkept : kept.map Token.kind = (tokens.map Token.kind).filter keep) (settings : Settings)

include hkeep hkept

/-- A moved brace is exempt exactly when the brace is. -/
theorem exempt_place (k : Nat) :
    (ofTokens tokens settings).exempt.contains (Skeleton.place keep (tokens.map Token.kind) k) =
      (ofTokens kept settings).exempt.contains k := by
  simp only [ofTokens, hkept]
  split
  · rfl
  · rw [Skeleton.braces_place hkeep, Bool.eq_iff_iff, List.contains_iff_mem,
      List.contains_iff_mem]
    exact List.mem_map_of_injective (Skeleton.strictMono_place _).injective

/-- The checked braces are the moved ones. -/
theorem checkedCloseBraces_place :
    (ofTokens tokens settings).checkedCloseBraces =
      (ofTokens kept settings).checkedCloseBraces.map
        (Skeleton.place keep (tokens.map Token.kind)) := by
  have hkind (k : Nat) : (ofTokens tokens settings).kinds[Skeleton.place keep
      (tokens.map Token.kind) k]? = (ofTokens kept settings).kinds[k]? := by
    simp only [ofTokens, hkept, Skeleton.getElem?_place]
  have hpartner (k : Nat) : (ofTokens tokens settings).pairing.partner? (Skeleton.place keep
      (tokens.map Token.kind) k) = ((ofTokens kept settings).pairing.partner? k).map
        (Skeleton.place keep (tokens.map Token.kind)) := by
    simp only [ofTokens, hkept, Skeleton.partner?_place hkeep]
  have hlength : (ofTokens kept settings).kinds.length =
      ((tokens.map Token.kind).filter keep).length := congrArg List.length hkept
  have hbrace : ∀ i, ((ofTokens tokens settings).kinds[i]? == some .closeBrace &&
      ((ofTokens tokens settings).pairing.partner? i).isSome &&
        !(ofTokens tokens settings).exempt.contains i) = true →
          ((tokens.map Token.kind)[i]?).any keep = true := by
    intro i hi
    simp only [Bool.and_eq_true, beq_iff_eq] at hi
    have hkind : (tokens.map Token.kind)[i]? = some .closeBrace := hi.1.1
    rw [hkind]
    exact hkeep _ rfl
  rw [checkedCloseBraces, checkedCloseBraces, hlength]
  refine (Skeleton.filter_range_eq_map hbrace).trans ?_
  simp only [hkind, hpartner, exempt_place hkeep hkept, Option.isSome_map]

end Kept

end Outline

/-- The kinds of the tokens that are neither blank nor comments. -/
def codeKinds (tokens : List Token) : List TokenKind :=
  (tokens.map Token.kind).filter fun kind => !kind.isTrivia

/-- The index of the `k`-th token that is neither blank nor a comment. -/
def codePlace (tokens : List Token) : Nat → Nat :=
  Skeleton.place (fun kind => !kind.isTrivia) (tokens.map Token.kind)

/-- The indices of the braces of conditionals in value position. -/
def valueBraces (tokens : List Token) : List Nat :=
  ValueConditional.braces (tokens.map Token.kind) (Pairing.ofKinds (tokens.map Token.kind))

/-- Whether two sequences have the same structure, token of code by token of code. -/
structure SameStructure (tokens tokens' : List Token) (settings : Settings) : Prop where
  /-- The same tokens of code are paired. -/
  paired : ∀ k m, (Outline.ofTokens tokens settings).pairing.partner? (codePlace tokens k) =
      some (codePlace tokens m) ↔
    (Outline.ofTokens tokens' settings).pairing.partner? (codePlace tokens' k) =
      some (codePlace tokens' m)
  /-- The same tokens of code are braces of conditionals in value position. -/
  marked : ∀ k, codePlace tokens k ∈ valueBraces tokens ↔ codePlace tokens' k ∈ valueBraces tokens'
  /-- The same tokens of code are closing braces that are checked. -/
  checked : ∃ ks : List Nat, (Outline.ofTokens tokens settings).checkedCloseBraces =
      ks.map (codePlace tokens) ∧
    (Outline.ofTokens tokens' settings).checkedCloseBraces = ks.map (codePlace tokens')

section Code

variable {tokens : List Token}

theorem keeps_code (kind : TokenKind) (h : kind.isTrivia = false) : (!kind.isTrivia) = true := by
  rw [h]
  rfl

theorem partner?_codePlace_iff {settings : Settings} {k m : Nat} :
    (Outline.ofTokens tokens settings).pairing.partner? (codePlace tokens k) =
        some (codePlace tokens m) ↔
      (Pairing.ofKinds (codeKinds tokens)).partner? k = some m := by
  have hmove : (Outline.ofTokens tokens settings).pairing.partner? (codePlace tokens k) =
      ((Pairing.ofKinds (codeKinds tokens)).partner? k).map (codePlace tokens) :=
    Skeleton.partner?_place keeps_code k
  rw [hmove, ← Option.map_some (f := codePlace tokens)]
  exact (Option.map_injective (Skeleton.strictMono_place _).injective).eq_iff

theorem codePlace_mem_valueBraces_iff {k : Nat} : codePlace tokens k ∈ valueBraces tokens ↔
    k ∈ ValueConditional.braces (codeKinds tokens) (Pairing.ofKinds (codeKinds tokens)) := by
  rw [valueBraces, Skeleton.braces_place keeps_code]
  exact List.mem_map_of_injective (Skeleton.strictMono_place _).injective

end Code

/-- Sequences with the same code have the same structure. A brace is marked as one of a conditional
in value position only together with its partner, the other brace of its pair. -/
theorem structure_ignores_trivia {tokens tokens' : List Token}
    (h : codeKinds tokens = codeKinds tokens') (settings : Settings) :
    SameStructure tokens tokens' settings ∧
      ∀ i ∈ valueBraces tokens, ∃ j ∈ valueBraces tokens,
        (Outline.ofTokens tokens settings).pairing.partner? i = some j ∧
        ((tokens.map Token.kind)[i]? = some .openBrace ∧
            (tokens.map Token.kind)[j]? = some .closeBrace ∨
          (tokens.map Token.kind)[i]? = some .closeBrace ∧
            (tokens.map Token.kind)[j]? = some .openBrace) := by
  refine ⟨⟨fun k m => ?_, fun k => ?_, ?_⟩, fun i hi => ?_⟩
  · rw [partner?_codePlace_iff, partner?_codePlace_iff, h]
  · rw [codePlace_mem_valueBraces_iff, codePlace_mem_valueBraces_iff, h]
  · have hkept : (tokens.filter fun t => !t.kind.isTrivia).map Token.kind = codeKinds tokens := by
      rw [codeKinds, List.filter_map]
      rfl
    exact ⟨_, Outline.checkedCloseBraces_place keeps_code hkept settings,
      Outline.checkedCloseBraces_place keeps_code (hkept.trans h) settings⟩
  · obtain ⟨a, b, hpair, hend, ha, hb⟩ := ValueConditional.paired_braces _ i hi
    obtain ⟨hopens, hcloses⟩ := Family.getElem?_of_mem_pairs hpair
    rcases hend with rfl | rfl
    · exact ⟨b, hb, Pairing.partner?_eq_some_iff.mpr ⟨.brace, Or.inl hpair⟩,
        Or.inl ⟨hopens, hcloses⟩⟩
    · exact ⟨a, ha, Pairing.partner?_eq_some_iff.mpr ⟨.brace, Or.inr hpair⟩,
        Or.inr ⟨hcloses, hopens⟩⟩

/-- The comments of the second list hide a word and a brace of their own. -/
theorem structure_ignores_trivia_comments :
    ∃ tokens tokens' : List Token, codeKinds tokens = codeKinds tokens' ∧
      SameStructure tokens tokens' .standard ∧ valueBraces tokens' = [5, 7] := by
  refine ⟨[⟨0, .equals, "=", ⟨1, 1⟩⟩, ⟨1, .ifWord, "if", ⟨1, 2⟩⟩, ⟨2, .openBrace, "\x7b", ⟨1, 4⟩⟩,
    ⟨3, .closeBrace, "\x7d", ⟨1, 5⟩⟩], [⟨0, .comment, "/*if*/", ⟨1, 1⟩⟩,
    ⟨1, .equals, "=", ⟨1, 7⟩⟩, ⟨2, .newline, "\n", ⟨1, 8⟩⟩, ⟨3, .ifWord, "if", ⟨2, 1⟩⟩,
    ⟨4, .comment, "/*\x7d*/", ⟨2, 3⟩⟩, ⟨5, .openBrace, "\x7b", ⟨2, 8⟩⟩,
    ⟨6, .whitespace, " ", ⟨2, 9⟩⟩, ⟨7, .closeBrace, "\x7d", ⟨2, 10⟩⟩], by decide, ?_,
    by decide +kernel⟩
  exact (structure_ignores_trivia (by decide) _).1

end ManifestSpacing
