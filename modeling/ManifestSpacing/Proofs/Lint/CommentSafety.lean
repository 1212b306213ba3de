import Mathlib
import ManifestSpacing.Proofs.Lexical.LineComments
import ManifestSpacing.Proofs.Lint.OneRepair

/-!
# No repair lengthens a line comment

Whatever problems are repaired in a lexed manifest, detected or made up, with
any anchors, hints and rules: no code is ever pulled into a line comment. What
ends a comment can only be replaced by a repair that ends the line again, and
such a repair ends it first.
-/

namespace ManifestSpacing

namespace TokenStream

/-- A repair keeps comments ended. -/
theorem commentsEnd_fix {s : TokenStream} (h : CommentsEnd s.tokens) (p : Problem) :
    CommentsEnd (s.fix p).stream.tokens := by
  rcases s.fix_cases p with ⟨hsame, _⟩ | ⟨xs, l, gap, r, ys, hreplaces⟩
  · rwa [hsame]
  rw [hreplaces.tokens_eq] at h
  rw [hreplaces.fix_eq]
  refine h.replace (isBlank_freshTokens _ _ _) fun hcomment => ?_
  -- what ended the comment is gone, and the repair starts with a line end
  obtain ⟨piece, pieces, hrepair, hnewline⟩ := GapRule.repair_eq_newline_cons
    (hreplaces.line hcomment) (h.kind_of_mem_head? hcomment hreplaces.blank)
  rw [hrepair]
  exact ⟨_, rfl, (GapPiece.isNewline_iff piece).mp hnewline⟩

/-- Any number of repairs keeps comments ended. -/
theorem commentsEnd_fixEach {s : TokenStream} (h : CommentsEnd s.tokens) (ps : List Problem) :
    CommentsEnd (s.fixEach ps).1.tokens := by
  induction ps generalizing s with
  | nil => exact h
  | cons p ps ih => exact ih (commentsEnd_fix h p)

/-- Whatever repairs are tried on a lexed manifest, in every stream that they lead to a line
comment is followed by a line end, by a lone return or by nothing. -/
theorem fixEach_never_extends_comment {source : String} {s : TokenStream}
    (hlex : lex source = .ok s) (ps : List Problem) (i : Nat) (t : Token)
    (ht : (s.fixEach ps).1.tokens[i]? = some t) (hkind : t.kind = .comment)
    (hmark : t.text.toList.head? = some '#') :
    (s.fixEach ps).1.tokens[i + 1]? = none ∨
      ∃ next, (s.fixEach ps).1.tokens[i + 1]? = some next ∧
        (next.kind = .newline ∨ next.kind = .other ∧ next.text = "\r") := by
  have hends := commentsEnd_fixEach (lex_eq_ok_iff.mp hlex).1.commentsEnd ps
  cases hnext : (s.fixEach ps).1.tokens[i + 1]? with
  | none => exact Or.inl rfl
  | some next =>
    obtain ⟨hi, rfl⟩ := List.getElem?_eq_some_iff.mp ht
    obtain ⟨hi', rfl⟩ := List.getElem?_eq_some_iff.mp hnext
    have hcomment := (Token.isLineComment_iff _).mpr ⟨hkind, hmark⟩
    exact Or.inr ⟨_, rfl, List.isChain_iff_getElem.mp hends i hi' hcomment⟩

/-- Of the problems behind a line comment one would join it with the brace, one takes out a blank
line and one lacks an anchor. -/
theorem fixEach_never_extends_comment_blank_line :
    ∃ s t, lex "#\n\n\x7d" = .ok s ∧
      let final := (s.fixEach
        [⟨.error, .start, .closingBraceBefore, false, true, ⟨0, 3, 7⟩, .before .emptyPair⟩,
          ⟨.error, .start, .closingBraceBefore, false, true, ⟨0, 3, 7⟩, .before .lineBreakBody⟩,
          ⟨.error, .start, .closingBraceBefore, false, true, ⟨0, 4, 0⟩, .before .lineBreakBody⟩]).1
      final.tokens[0]? = some t ∧ t.kind = .comment ∧ t.text.toList.head? = some '#' ∧
        (final.tokens[0 + 1]? = none ∨ ∃ next, final.tokens[0 + 1]? = some next ∧
          (next.kind = .newline ∨ next.kind = .other ∧ next.text = "\r")) := by
  have hlex : lex "#\n\n\x7d" = .ok ⟨[⟨0, .comment, "#", ⟨1, 1⟩⟩, ⟨1, .newline, "\n", ⟨1, 2⟩⟩,
      ⟨2, .newline, "\n", ⟨2, 1⟩⟩, ⟨3, .closeBrace, "\x7d", ⟨3, 1⟩⟩], 4⟩ := by cbv
  refine ⟨_, ⟨0, .comment, "#", ⟨1, 1⟩⟩, hlex, by cbv, rfl, by decide, ?_⟩
  exact fixEach_never_extends_comment hlex _ 0 _ (by cbv) rfl (by decide)

end TokenStream

end ManifestSpacing
