import ManifestSpacing.Proofs.Lexical.Blanks

/-!
# Respaced text is read as before

Gaps change only by repairs of the rules that govern them. A repair removes a
gap altogether only behind a brace, and in front of the token that a comment,
a return or a broken string leans on it keeps the first character that it
finds, or puts a space where a blank or a closing brace was. So no token
merges with its neighbour, no comment or string reaches further than before,
and a respaced manifest is read as the same tokens with other blanks.
-/

namespace ManifestSpacing

/-- A gap between two kinds of tokens, left alone or repaired by a rule that governs it. -/
inductive Rewritten (left : TokenKind) : Option TokenKind → Gap → Gap → Prop where
  | same {right : Option TokenKind} {gap : Gap} : Rewritten left right gap gap
  | repaired {right : TokenKind} {gap gap' : Gap} {rule : GapRule}
      (hrule : rule.Governs left right gap) (hblank : gap'.IsBlank)
      (hpieces : gap'.pieces = rule.repair gap) : Rewritten left (some right) gap gap'

/-- The same content with gaps left alone or repaired. -/
inductive Respaced : List Row → List Row → Prop where
  | nil : Respaced [] []
  | cons {row row' : Row} {rows rows' : List Row} (hhead : row'.head = row.head)
      (hgap : Rewritten row.head.kind (rows.head?.map fun r => r.head.kind) row.gap row'.gap)
      (hrest : Respaced rows rows') : Respaced (row :: rows) (row' :: rows')

namespace Rewritten

/-- A gap starts as before, becomes a space before a closing brace, or stands behind a token that
bears any blank behind it. -/
theorem head?_pieces {left : TokenKind} {right : Option TokenKind} {gap gap' : Gap}
    (h : Rewritten left right gap gap') :
    gap'.pieces.head? = gap.pieces.head? ∨
      (gap'.pieces = [.space] ∧ right = some .closeBrace ∧ gap.hasNewline = false) ∨
      left ∈ Lexer.edgeKinds := by
  cases h with
  | same => exact Or.inl rfl
  | @repaired right _ _ rule hrule _ hpieces =>
    cases rule with
    | before body =>
      cases body with
      | emptyPair => exact Or.inr (Or.inr (hrule.1 ▸ by decide))
      | lineBreakBody => exact Or.inl (hpieces ▸ GapRule.head?_collapseNewlines hrule.2)
      | inlineBody => exact Or.inr (Or.inl ⟨hpieces, congrArg some hrule.1, hrule.2⟩)
    | after follower =>
      have hleft : left = .closeBrace := hrule
      exact Or.inr (Or.inr (hleft ▸ by decide))
    | singleSpace => exact Or.inr (Or.inr (by rcases hrule with rfl | rfl | rfl <;> decide))

/-- A gap disappears only behind a brace. -/
theorem eq_nil {left : TokenKind} {right : Option TokenKind} {gap : Gap}
    (h : Rewritten left right gap []) :
    gap = [] ∨ left = .openBrace ∨ left = .closeBrace := by
  cases h with
  | same => exact Or.inl rfl
  | @repaired right _ _ rule hrule _ hpieces =>
    cases rule with
    | before body =>
      cases body with
      | emptyPair => exact Or.inr (Or.inl hrule.1)
      | lineBreakBody =>
        have hone := GapRule.countP_collapseNewlines gap
        rw [show GapRule.collapseNewlines gap = [] from hpieces.symm] at hone
        cases hone
      | inlineBody => cases hpieces
    | after follower => exact Or.inr (Or.inr hrule)
    | singleSpace => cases hpieces

/-- A rewritten gap is readable. -/
theorem readable {left : TokenKind} {right : Option TokenKind} {gap gap' : Gap}
    (h : Rewritten left right gap gap') (hread : Lexer.Readable gap.pieces) :
    Lexer.Readable gap'.pieces := by
  cases h with
  | same => exact hread
  | repaired hrule _ hpieces => exact hpieces ▸ hread.repair hrule

end Rewritten

namespace Lexer

open Grammar

/-! ## Characters at the seams -/

/-- The text of a blank starts and ends with neither code nor a brace. -/
theorem Spelled.blank_text {kind : TokenKind} {text : List Char} (h : Spelled kind text)
    (hblank : kind.isBlank = true) : ∀ c ∈ text, c ∈ [' ', '\t', '\r', '\n'] := by
  intro c hc
  rcases (TokenKind.isBlank_iff _).mp hblank with hkind | hkind
  · have hspace := h.whitespace hkind c hc
    simp only [isSpacing, Bool.or_eq_true, beq_iff_eq] at hspace
    rcases hspace with rfl | rfl <;> decide
  · rcases h.newline hkind with rfl | rfl
    · obtain rfl := List.mem_singleton.mp hc
      decide
    · simp only [List.mem_cons, List.not_mem_nil, or_false] at hc
      rcases hc with rfl | rfl <;> decide

/-- The text of a readable gap holds nothing but blanks. -/
theorem Readable.blank_text {gap : Gap} (hblank : gap.IsBlank) (h : Readable gap.pieces) :
    ∀ c ∈ textOf gap, c ∈ [' ', '\t', '\r', '\n'] := by
  intro c hc
  obtain ⟨t, ht, hc⟩ := List.mem_flatMap.mp hc
  exact (h.spelled_of_mem hblank ht).blank_text (hblank t ht) c hc

/-- The text of a readable gap is empty only where the gap is. -/
theorem Readable.eq_nil_of_textOf {gap : Gap} (h : Readable gap.pieces) (htext : textOf gap = []) :
    gap = [] := by
  cases gap with
  | nil => rfl
  | cons t gap =>
    have hspelled := h.spelled (.ofToken t) List.mem_cons_self
    rw [textOf_cons, List.append_eq_nil_iff] at htext
    rw [GapPiece.text_ofToken] at hspelled
    exact absurd htext.1 hspelled.nonempty

/-- Text behind a readable gap starts with the gap's first piece, if there is one. -/
theorem Readable.head?_textOf_append {gap : Gap} (h : Readable gap.pieces) (ts : List Token) :
    (textOf (gap ++ ts)).head? =
      gap.pieces.head?.elim (textOf ts).head? fun piece => piece.text.toList.head? := by
  cases gap with
  | nil => rfl
  | cons t gap =>
    have hspelled := h.spelled (.ofToken t) List.mem_cons_self
    rw [GapPiece.text_ofToken] at hspelled
    rw [List.cons_append, textOf_cons, List.head?_append_of_ne_nil _ hspelled.nonempty]
    simp [Gap.pieces]

/-- Rows as a run of the lexer leaves them. -/
def Tidy (rows : List Row) : Prop :=
  ∀ row ∈ rows, Spelled row.head.kind row.head.text.toList ∧ Readable row.gap.pieces

theorem Tidy.tail {row : Row} {rows : List Row} (h : Tidy (row :: rows)) : Tidy rows :=
  fun r hr => h r (List.mem_cons_of_mem _ hr)

/-- Respaced content starts with the character it started with. -/
theorem head?_textOf_join {rows rows' : List Row} (h : Respaced rows rows') (htidy : Tidy rows) :
    (textOf (Row.join rows')).head? = (textOf (Row.join rows)).head? := by
  cases h with
  | nil => rfl
  | cons hhead _ _ =>
    have hne := (htidy _ List.mem_cons_self).1.nonempty
    rw [Row.join_cons, Row.join_cons, textOf_cons, textOf_cons, hhead,
      List.head?_append_of_ne_nil _ hne, List.head?_append_of_ne_nil _ hne]

/-! ## What stands behind a token -/

section Behind

variable {row row' : Row} {rows rows' : List Row}

/-- Text behind a gap that is not empty starts with a blank. -/
theorem Readable.exists_blank_head {gap : Gap} (hblank : gap.IsBlank) (h : Readable gap.pieces)
    (hne : gap ≠ []) (ts : List Token) :
    ∃ c cs, textOf (gap ++ ts) = c :: cs ∧ c ∈ [' ', '\t', '\r', '\n'] := by
  cases htext : textOf gap with
  | nil => exact absurd (h.eq_nil_of_textOf htext) hne
  | cons c cs =>
    refine ⟨c, cs ++ textOf ts, by rw [textOf_append, htext]; rfl, ?_⟩
    exact h.blank_text hblank c (htext ▸ List.mem_cons_self)

/-- Behind a token whose gap to a closing brace ends no line there is a space or the brace. -/
theorem exists_head_before_closeBrace (htidy : Tidy (row :: rows))
    (hright : (rows.head?.map fun r => r.head.kind) = some .closeBrace)
    (hline : row.gap.hasNewline = false) :
    ∃ c ∈ (textOf (row.gap ++ Row.join rows)).head?, isSpacing c = true ∨ c = '\x7d' := by
  have hread := (htidy row List.mem_cons_self).2
  cases hgap : row.gap with
  | nil =>
    cases rows with
    | nil => cases hright
    | cons r rows =>
      have hspelled := (htidy r (List.mem_cons_of_mem _ List.mem_cons_self)).1
      refine ⟨'\x7d', ?_, Or.inr rfl⟩
      simp [hspelled.closeBrace (Option.some.inj hright)]
  | cons t gap =>
    have ht : t ∈ row.gap := hgap ▸ List.mem_cons_self
    have hspelled := hread.spelled_of_mem row.blank ht
    have hnot : t.kind ≠ .newline := by simpa using List.any_eq_false.mp hline t ht
    have hspace := ((TokenKind.isBlank_iff _).mp (row.blank t ht)).resolve_right hnot
    cases htext : t.text.toList with
    | nil => exact absurd htext hspelled.nonempty
    | cons c cs =>
      refine ⟨c, by simp [htext], Or.inl ?_⟩
      exact hspelled.whitespace hspace c (htext ▸ List.mem_cons_self)

/-- The text behind a token starts as before, or with a space in place of a blank or of a closing
brace, or the token bears any blank behind it. -/
theorem head?_behind
    (hgap : Rewritten row.head.kind (rows.head?.map fun r => r.head.kind) row.gap row'.gap)
    (hrest : Respaced rows rows') (htidy : Tidy (row :: rows)) :
    (textOf (row'.gap ++ Row.join rows')).head? = (textOf (row.gap ++ Row.join rows)).head? ∨
      ((textOf (row'.gap ++ Row.join rows')).head? = some ' ' ∧
        ∃ c ∈ (textOf (row.gap ++ Row.join rows)).head?, isSpacing c = true ∨ c = '\x7d') ∨
      row.head.kind ∈ edgeKinds := by
  have hread := (htidy row List.mem_cons_self).2
  have hread' := hgap.readable hread
  rcases hgap.head?_pieces with hsame | ⟨hspace, hright, hline⟩ | hedge
  · left
    rw [hread'.head?_textOf_append, hread.head?_textOf_append, hsame,
      head?_textOf_join hrest htidy.tail]
  · right; left
    refine ⟨?_, exists_head_before_closeBrace htidy hright hline⟩
    rw [hread'.head?_textOf_append, hspace]
    rfl
  · exact Or.inr (Or.inr hedge)

/-- The run of code behind code does not grow. -/
theorem takeWhile_isCode_behind
    (hgap : Rewritten row.head.kind (rows.head?.map fun r => r.head.kind) row.gap row'.gap)
    (htidy : Tidy (row :: rows)) (hcode : ∀ c ∈ row.head.text.toList, isCode c = true)
    (hrest : (textOf (Row.join rows')).takeWhile isCode <+:
      (textOf (Row.join rows)).takeWhile isCode) :
    (textOf (row'.gap ++ Row.join rows')).takeWhile isCode <+:
      (textOf (row.gap ++ Row.join rows)).takeWhile isCode := by
  obtain ⟨hspelled, hread⟩ := htidy row List.mem_cons_self
  by_cases hnil : row'.gap = []
  · rw [hnil] at hgap ⊢
    rcases hgap.eq_nil with hsame | hbrace | hbrace
    · rw [hsame]
      exact hrest
    · rw [hspelled.openBrace hbrace] at hcode
      exact absurd (hcode _ List.mem_cons_self) (by decide)
    · rw [hspelled.closeBrace hbrace] at hcode
      exact absurd (hcode _ List.mem_cons_self) (by decide)
  · obtain ⟨c, cs, htext, hc⟩ :=
      (hgap.readable hread).exists_blank_head row'.blank hnil (Row.join rows')
    have hnot : isCode c = false := by
      simp only [List.mem_cons, List.not_mem_nil, or_false] at hc
      rcases hc with rfl | rfl | rfl | rfl <;> decide
    rw [htext, List.takeWhile_cons_of_neg (by simp [hnot])]
    exact List.nil_prefix

/-- The run of code at the front of respaced content does not grow. -/
theorem takeWhile_isCode_join (h : Respaced rows rows') (htidy : Tidy rows) :
    (textOf (Row.join rows')).takeWhile isCode <+: (textOf (Row.join rows)).takeWhile isCode := by
  induction h with
  | nil => exact List.prefix_rfl
  | cons hhead hgap _ ih =>
    rw [Row.join_cons, Row.join_cons, textOf_cons, textOf_cons, hhead, List.takeWhile_append,
      List.takeWhile_append]
    split
    · rename_i hlen
      have hcode := List.takeWhile_eq_self_iff.mp ((List.takeWhile_prefix _).eq_of_length hlen)
      exact (List.prefix_append_right_inj _).mpr
        (takeWhile_isCode_behind hgap htidy hcode (ih htidy.tail))
    · exact List.prefix_rfl

private theorem star_not_mem_blanks {gap : Gap} (hblank : gap.IsBlank)
    (h : Readable gap.pieces) : '*' ∉ textOf gap :=
  fun hmem => absurd (h.blank_text hblank _ hmem) (by decide)

/-- No end of a block comment appears behind a token. -/
theorem hasCommentEnd_behind
    (hgap : Rewritten row.head.kind (rows.head?.map fun r => r.head.kind) row.gap row'.gap)
    (htidy : Tidy (row :: rows))
    (hrest : HasCommentEnd (textOf (Row.join rows')) → HasCommentEnd (textOf (Row.join rows)))
    (h : HasCommentEnd (textOf (row'.gap ++ Row.join rows'))) :
    HasCommentEnd (textOf (row.gap ++ Row.join rows)) := by
  have hstar := star_not_mem_blanks row'.blank
    (hgap.readable (htidy row List.mem_cons_self).2)
  rw [textOf_append, hasCommentEnd_append_iff] at h ⊢
  rcases h with ⟨before, after, hend⟩ | hend | ⟨hlast, _⟩
  · exact absurd (hend ▸ by simp) hstar
  · exact Or.inr (Or.inl (hrest hend))
  · exact absurd (List.mem_of_getLast? hlast) hstar

/-- No end of a block comment appears in respaced content. -/
theorem hasCommentEnd_join (h : Respaced rows rows') (htidy : Tidy rows) :
    HasCommentEnd (textOf (Row.join rows')) → HasCommentEnd (textOf (Row.join rows)) := by
  induction h with
  | nil => exact id
  | @cons row row' rows rows' hhead hgap hrest ih =>
    intro h
    obtain ⟨hspelled, hread⟩ := htidy row List.mem_cons_self
    rw [Row.join_cons, textOf_cons, hasCommentEnd_append_iff] at h ⊢
    rw [hhead] at h
    rcases h with hend | hend | ⟨hlast, hslash⟩
    · exact Or.inl hend
    · exact Or.inr (Or.inl (hasCommentEnd_behind hgap htidy (ih htidy.tail) hend))
    · -- a slash right behind the star: there is no gap, and there was none
      have hnil : row'.gap = [] := by
        by_contra hne
        obtain ⟨c, cs, htext, hc⟩ :=
          (hgap.readable hread).exists_blank_head row'.blank hne (Row.join rows')
        rw [htext] at hslash
        cases hslash
        exact absurd hc (by decide)
      rw [hnil] at hgap hslash
      rcases hgap.eq_nil with hsame | hbrace | hbrace
      · rw [hsame, List.nil_append, ← head?_textOf_join hrest htidy.tail]
        exact Or.inr (Or.inr ⟨hlast, hslash⟩)
      · rw [hspelled.openBrace hbrace] at hlast
        cases hlast
      · rw [hspelled.closeBrace hbrace] at hlast
        cases hlast

private theorem BreaksOff.head? {rest : List Char} (h : BreaksOff rest) :
    rest.head? = none ∨ rest.head? = some '\\' := by
  rcases h with rfl | rfl | ⟨tail, rfl⟩
  · exact Or.inl rfl
  · exact Or.inr rfl
  · exact Or.inr rfl

/-- Content before which a string breaks off still breaks it off. -/
theorem breaksOff_join (h : Respaced rows rows') (htidy : Tidy rows)
    (hoff : BreaksOff (textOf (Row.join rows))) : BreaksOff (textOf (Row.join rows')) := by
  cases h with
  | nil => exact hoff
  | @cons row row' rows rows' hhead hgap hrest =>
    have hspelled := (htidy row List.mem_cons_self).1
    rw [Row.join_cons, textOf_cons] at hoff ⊢
    rw [hhead]
    have hmark : row.head.text.toList.head? = some '\\' := by
      have hh := BreaksOff.head? hoff
      rw [List.head?_append_of_ne_nil _ hspelled.nonempty] at hh
      exact hh.resolve_left fun hnone => hspelled.nonempty (List.head?_eq_none_iff.mp hnone)
    rw [hspelled.backslash hmark, List.singleton_append] at hoff ⊢
    -- the backslash takes no character along: a line feed or nothing stands behind it
    have hbehind : (textOf (row.gap ++ Row.join rows)).head? = none ∨
        (textOf (row.gap ++ Row.join rows)).head? = some '\n' := by
      rcases hoff with hoff | hoff | ⟨tail, hoff⟩
      · cases hoff
      · exact Or.inl (by rw [(List.cons.inj hoff).2]; rfl)
      · exact Or.inr (by rw [(List.cons.inj hoff).2]; rfl)
    rcases head?_behind hgap hrest htidy with hsame | ⟨_, c, hc, hblank⟩ | hedge
    · rw [← hsame] at hbehind
      rcases hbehind with hnone | hfeed
      · exact Or.inr (Or.inl (congrArg _ (List.head?_eq_none_iff.mp hnone)))
      · obtain ⟨tail, htail⟩ := List.head?_eq_some_iff.mp hfeed
        exact Or.inr (Or.inr ⟨tail, congrArg _ htail⟩)
    · rcases hbehind with hnone | hfeed
      · rw [hnone] at hc
        cases hc
      · rw [hfeed] at hc
        cases hc
        exact absurd hblank (by decide)
    · exact absurd (by decide) (hspelled.unmarked hedge '\\' hmark)

/-- A string that breaks off behind its text still does. -/
theorem breaksOff_behind
    (hgap : Rewritten row.head.kind (rows.head?.map fun r => r.head.kind) row.gap row'.gap)
    (hrest : Respaced rows rows') (htidy : Tidy (row :: rows)) (hedge : row.head.kind ∉ edgeKinds)
    (hoff : BreaksOff (textOf (row.gap ++ Row.join rows))) :
    BreaksOff (textOf (row'.gap ++ Row.join rows')) := by
  have hread := (htidy row List.mem_cons_self).2
  have hhead := BreaksOff.head? hoff
  have hnil : row.gap = [] := by
    by_contra hne
    obtain ⟨c, cs, htext, hc⟩ := hread.exists_blank_head row.blank hne (Row.join rows)
    rw [htext] at hhead
    rcases hhead with hnone | hmark
    · cases hnone
    · cases hmark
      exact absurd hc (by decide)
  have hnil' : row'.gap = [] := by
    rcases hgap.head?_pieces with hsame | ⟨_, hright, hline⟩ | hedge'
    · rw [hnil] at hsame
      exact List.map_eq_nil_iff.mp (List.head?_eq_none_iff.mp hsame)
    · obtain ⟨c, hc, hblank⟩ := exists_head_before_closeBrace htidy hright hline
      rcases hhead with hnone | hmark
      · rw [hnone] at hc
        cases hc
      · rw [hmark] at hc
        cases hc
        exact absurd hblank (by decide)
    · exact absurd hedge' hedge
  rw [hnil] at hoff
  rw [hnil']
  exact breaksOff_join hrest htidy.tail hoff

/-- Respacing leaves every token of content undisturbed. -/
theorem undisturbed_behind {here : Position} {opens after : List OpenString}
    (hcut : Cut here opens row.head.kind row.head.text.toList
      (textOf (row.gap ++ Row.join rows)) after)
    (hgap : Rewritten row.head.kind (rows.head?.map fun r => r.head.kind) row.gap row'.gap)
    (hrest : Respaced rows rows') (htidy : Tidy (row :: rows)) :
    Undisturbed row.head.kind row.head.text.toList (textOf (row.gap ++ Row.join rows))
      (textOf (row'.gap ++ Row.join rows')) where
  spacing := fun hkind => by
    have hsolid := row.solid
    rw [hkind] at hsolid
    cases hsolid
  lineComment := fun hmark d hd => by
    have hends := hcut.rest_of_lineComment hmark
    rcases head?_behind hgap hrest htidy with hsame | ⟨_, c, hc, hblank⟩ | hedge
    · exact hends d (hsame ▸ hd)
    · exact absurd (hends c hc) (Bool.eq_false_iff.mp (endsLine_eq_false hblank))
    · exact absurd (by decide) (hcut.spelled.unmarked hedge '#' hmark)
  loneReturn := fun htext => by
    have hfeed := Cut.rest_of_return (htext ▸ hcut)
    rcases head?_behind hgap hrest htidy with hsame | ⟨hspace, _⟩ | hedge
    · rwa [hsame]
    · rw [hspace]
      decide
    · exact absurd (by decide) (hcut.spelled.unmarked hedge '\r' (by rw [htext]; rfl))
  brokenQuote := fun hmark hoff => by
    refine breaksOff_behind hgap hrest htidy (fun hedge => ?_) hoff
    exact absurd (by decide) (hcut.spelled.unmarked hedge '\'' hmark)
  openComment := fun hnone => by
    rw [commentEnd?_eq_none_iff] at hnone ⊢
    exact fun h => hnone (hasCommentEnd_behind hgap htidy (hasCommentEnd_join hrest htidy.tail) h)
  code := fun hcode =>
    takeWhile_isCode_behind hgap htidy hcode (takeWhile_isCode_join hrest htidy.tail)

end Behind

/-! ## Runs over respaced text -/

/-- A run of the lexer leaves its rows tidy. -/
theorem Lexes.tidy {opens : List OpenString} {here : Position} {id : TokenId} {rows : List Row}
    (h : Lexes opens here id (Row.join rows)) : Tidy rows := by
  induction rows generalizing opens here id with
  | nil => simp [Tidy]
  | cons row rows ih =>
    rcases h with _ | ⟨_, _, hcut, hrest⟩
    obtain ⟨hread, here', id', hrows⟩ := hrest.readable row.blank
    intro r hr
    rcases List.mem_cons.mp hr with rfl | hr
    · exact ⟨hcut.spelled, hread⟩
    · exact ih hrows r hr

/-- Respaced content starts with no blank. -/
theorem head?_join_not_spacing {rows rows' : List Row} (h : Respaced rows rows')
    (htidy : Tidy rows) : ∀ c ∈ (textOf (Row.join rows')).head?, isSpacing c = false := by
  rw [head?_textOf_join h htidy]
  cases rows with
  | nil => simp
  | cons row rows =>
    have hspelled := (htidy row List.mem_cons_self).1
    intro c hc
    rw [Row.join_cons, textOf_cons, List.head?_append_of_ne_nil _ hspelled.nonempty] at hc
    exact hspelled.solid row.solid c hc

/-- Respaced content is read as the same tokens with other blanks. -/
theorem rereads_of_respaced {rows rows' : List Row} (h : Respaced rows rows')
    {opens : List OpenString} {here : Position} {id : TokenId}
    (hlexes : Lexes opens here id (Row.join rows)) : Rereads opens (Row.join rows') := by
  -- from the back: behind each token the rest is read again already
  induction h generalizing opens here id with
  | nil =>
    cases hlexes
    exact rereads_nil
  | @cons row row' rows rows' hhead hgap hrest ih =>
    have htidy := hlexes.tidy
    rcases hlexes with _ | ⟨_, _, hcut, htail⟩
    obtain ⟨hread, here', id', hrows⟩ := htail.readable row.blank
    have hbehind : Rereads _ (row'.gap ++ Row.join rows') :=
      (ih hrows).blank row'.blank (hgap.readable hread) (head?_join_not_spacing hrest htidy.tail)
    rw [Row.join_cons, hhead]
    exact Rereads.cons hcut (undisturbed_behind hcut hgap hrest htidy) hbehind

end Lexer

/-- A respaced manifest is lexed to its own tokens. -/
theorem exists_lex_eq_of_respaced {layout layout' : Layout} {id : TokenId}
    (hlexes : Lexer.Lexes [] .start id layout.tokens) (hlead : layout'.lead = layout.lead)
    (h : Respaced layout.rows layout'.rows) : ∃ s, lex (renderTokens layout'.tokens) = .ok s ∧
      s.tokens.map Token.face = layout'.tokens.map Token.face := by
  obtain ⟨hread, here, id', hrows⟩ := Lexer.Lexes.readable layout.blank hlexes
  have hsolid := Lexer.head?_join_not_spacing h hrows.tidy
  have hall : Lexer.Rereads [] layout'.tokens := by
    rw [Layout.tokens, hlead]
    exact (Lexer.rereads_of_respaced h hrows).blank layout.blank hread hsolid
  obtain ⟨us, hus, hfaces⟩ := hall [] .start 0 rfl
  refine ⟨⟨us, us.length⟩, lex_eq_ok_iff.mpr ⟨hus, ?_, rfl⟩, hfaces⟩
  rw [← String.toList_inj, toList_render, toList_renderTokens]
  exact textOf_eq_of_map_face hfaces

end ManifestSpacing
