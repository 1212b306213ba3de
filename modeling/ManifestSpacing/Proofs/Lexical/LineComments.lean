import ManifestSpacing.Proofs.Gap.Repairs
import ManifestSpacing.Proofs.Lexical.Spelling

/-!
# Where line comments end

The lexer reads a line comment to the end of its line, so the token behind it
is a line end or a lone return. Between a line comment and a closing brace
there is therefore always a line end.
-/

namespace ManifestSpacing

/-- Whether a line comment cannot go on into the token. -/
def Token.EndsComment (t : Token) : Prop := t.kind = .newline ∨ t.kind = .other ∧ t.text = "\r"

/-- Whether whatever follows a line comment ends it. -/
def CommentsEnd (tokens : List Token) : Prop :=
  tokens.IsChain fun t next => t.isLineComment = true → next.EndsComment

namespace CommentsEnd

variable {xs ys : List Token} {l r : Token} {gap : Gap}

/-- The first token behind a line comment ends it. -/
theorem endsComment_of_mem_head? (h : CommentsEnd (xs ++ l :: ys)) (hl : l.isLineComment = true) :
    ∀ t ∈ ys.head?, t.EndsComment := by
  intro t ht
  exact (List.isChain_cons.mp h.right_of_append).1 t ht hl

/-- Blanks behind a line comment start with a line end. -/
theorem kind_of_mem_head? (h : CommentsEnd (xs ++ l :: (gap ++ ys))) (hl : l.isLineComment = true)
    (hblank : gap.IsBlank) : ∀ t ∈ gap.head?, t.kind = .newline := by
  intro t ht
  have hends : t.EndsComment := by
    apply h.endsComment_of_mem_head? hl
    rw [List.head?_append, ht]
    rfl
  refine hends.resolve_right fun hother => ?_
  have hkind := hblank t (List.mem_of_mem_head? ht)
  rw [hother.1] at hkind
  cases hkind

/-- Between a line comment and a closing brace a line ends. -/
theorem hasNewline (h : CommentsEnd (xs ++ l :: (gap ++ r :: ys))) (hl : l.isLineComment = true)
    (hblank : gap.IsBlank) (hr : r.kind = .closeBrace) : gap.hasNewline = true := by
  have hfirst := h.kind_of_mem_head? hl hblank
  cases gap with
  | nil =>
    have hends : r.EndsComment := h.endsComment_of_mem_head? hl r rfl
    rcases hends with hkind | ⟨hkind, _⟩ <;> rw [hr] at hkind <;> cases hkind
  | cons t gap => simp [Gap.hasNewline, hfirst t rfl]

/-- Blanks before some tokens hold no comment. -/
theorem append_blank (h : CommentsEnd ys) (hblank : gap.IsBlank) : CommentsEnd (gap ++ ys) := by
  induction gap with
  | nil => exact h
  | cons t gap ih =>
    refine List.isChain_cons.mpr ⟨fun next _ hcomment => ?_,
      ih fun u hu => hblank u (List.mem_cons_of_mem t hu)⟩
    have hkind := hblank t List.mem_cons_self
    rw [((Token.isLineComment_iff t).mp hcomment).1] at hkind
    cases hkind

/-- Other blanks between two tokens keep comments ended, if a comment right before them is. -/
theorem replace {gap' : Gap} (h : CommentsEnd (xs ++ l :: (gap ++ r :: ys)))
    (hblank : gap'.IsBlank)
    (hfirst : l.isLineComment = true → ∃ t, gap'.head? = some t ∧ t.kind = .newline) :
    CommentsEnd (xs ++ l :: (gap' ++ r :: ys)) := by
  obtain ⟨hfront, hback, hseam⟩ := List.isChain_append.mp h
  have hrest : CommentsEnd (r :: ys) := by
    rw [← List.cons_append] at hback
    exact hback.right_of_append
  refine List.isChain_append.mpr ⟨hfront, List.isChain_cons.mpr ⟨?_, hrest.append_blank hblank⟩,
    hseam⟩
  intro next hnext hcomment
  obtain ⟨t, ht, hkind⟩ := hfirst hcomment
  rw [List.head?_append, ht] at hnext
  exact Option.some.inj hnext ▸ Or.inl hkind

end CommentsEnd

namespace Lexer

open Grammar

/-- What starts with the end of a line is a line end or a lone return. -/
theorem Cut.endsLine_cases {here : Position} {opens after : List OpenString} {kind : TokenKind}
    {text rest : List Char} (h : Cut here opens kind text rest after)
    (hends : ∀ c ∈ text.head?, endsLine c = true) :
    kind = .newline ∨ kind = .other ∧ text = ['\r'] := by
  cases h with
  | lineFeed | returnLineFeed => exact Or.inl rfl
  | loneReturn => exact Or.inr ⟨rfl, rfl⟩
  | blanks hall _ =>
    have hnot := endsLine_eq_false (Or.inl (hall _ List.mem_cons_self))
    exact absurd (hends _ rfl) (Bool.eq_false_iff.mp hnot)
  | plain hc _ | word hc _ =>
    have hcode := hends _ rfl
    simp only [endsLine, Bool.or_eq_true, beq_iff_eq] at hcode
    rcases hcode with rfl | rfl <;> exact absurd hc (by decide)
  | _ => exact absurd (hends _ rfl) (by decide)

/-- In a run of the lexer every line comment is ended by what follows it. -/
theorem Lexes.commentsEnd {opens : List OpenString} {here : Position} {id : TokenId}
    {ts : List Token} (h : Lexes opens here id ts) : CommentsEnd ts := by
  induction h with
  | nil => exact .nil
  | @cons _ _ _ _ t ts _ _ hcut hrest ih =>
    refine List.isChain_cons.mpr ⟨fun next hnext hcomment => ?_, ih⟩
    have hends := hcut.rest_of_lineComment ((Token.isLineComment_iff t).mp hcomment).2
    cases hrest with
    | nil => cases hnext
    | @cons _ _ _ _ u us _ _ hcutNext _ =>
      obtain rfl := Option.some.inj hnext
      rw [textOf_cons, List.head?_append_of_ne_nil _ hcutNext.ne_nil] at hends
      rcases hcutNext.endsLine_cases hends with hkind | ⟨hkind, htext⟩
      · exact Or.inl hkind
      · exact Or.inr ⟨hkind, String.toList_inj.mp htext⟩

end Lexer

end ManifestSpacing
