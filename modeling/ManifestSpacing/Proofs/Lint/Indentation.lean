import ManifestSpacing.Proofs.Lexical.Positions
import ManifestSpacing.Proofs.Lint.GapOrder
import ManifestSpacing.Proofs.Lint.Runs

/-!
# Fixing keeps indentation

The column of a token depends on nothing but the text since the last line feed
before it. A gap with a line end is left alone by every rule behind a closing
brace, and the rule before one keeps what stands after the last line end. So
the first token of a line keeps its column, whatever is repaired before it;
only the name of an inheritance and the brace behind it can be pulled up to
the line before.
-/

namespace ManifestSpacing

/-! ## Columns -/

namespace Position

theorem column_next_congr {p q : Position} (h : p.column = q.column) (c : Char) :
    (p.next c).column = (q.next c).column := by
  unfold next
  split
  · rfl
  · exact congrArg (· + c.utf8Size) h

/-- Text moves a column by the same amount in every line. -/
theorem column_advance_congr {p q : Position} (h : p.column = q.column) (cs : List Char) :
    (p.advance cs).column = (q.advance cs).column := by
  induction cs generalizing p q with
  | nil => exact h
  | cons c cs ih => exact ih (column_next_congr h c)

/-- Text before a line feed does not matter to the column behind it. -/
theorem column_advance_lineFeed (p q : Position) (cs cs' ds : List Char) :
    (p.advance (cs ++ '\n' :: ds)).column = (q.advance (cs' ++ '\n' :: ds)).column := by
  rw [advance_append, advance_append, advance_cons, advance_cons]
  exact column_advance_congr (by simp only [next, if_true]) ds

end Position

/-- A token at its new place, behind the texts before it. -/
theorem TokenStream.getElem?_repositionFrom (here : Position) (xs : List Token) (t : Token)
    (ys : List Token) : (repositionFrom here (xs ++ t :: ys))[xs.length]? =
      some { t with position := here.advance (textOf xs) } := by
  rw [repositionFrom_eq_mapIdx, List.getElem?_mapIdx, List.getElem?_append_right (Nat.le_refl _),
    Nat.sub_self, List.take_left]
  rfl

/-! ## The text after the last line end -/

/-- A gap with a line end splits at its last one. -/
theorem GapRule.exists_last_newline {gap : Gap} (h : gap.hasNewline = true) :
    ∃ front last, gap = front ++ last :: afterLastNewline gap ∧ last.kind = .newline := by
  have hreverse : Gap.hasNewline gap.reverse = true := List.any_reverse.trans h
  obtain ⟨last, rest, hsplit, hlast, _⟩ := exists_first_newline hreverse
  refine ⟨rest.reverse, last, ?_, hlast⟩
  have hgap := congrArg List.reverse hsplit
  rwa [List.reverse_reverse, List.reverse_append, List.reverse_cons, List.append_assoc] at hgap

theorem textOf_eq_of_pieces_eq {gap gap' : Gap} (h : gap.pieces = gap'.pieces) :
    textOf gap = textOf gap' := by
  have htext (gap : Gap) : textOf gap = gap.pieces.flatMap fun piece => piece.text.toList := by
    simp only [Gap.pieces, List.flatMap_map, GapPiece.text_ofToken]
    rfl
  rw [htext, htext, h]

/-- The text of a line end ends with a line feed. -/
theorem Lexer.Spelled.textOf_newline {t : Token} (h : Spelled t.kind t.text.toList)
    (hkind : t.kind = .newline) (front behind : List Token) :
    ∃ cs, textOf (front ++ t :: behind) = cs ++ '\n' :: textOf behind := by
  rw [textOf_append, textOf_cons]
  rcases h.newline hkind with htext | htext
  · exact ⟨textOf front, by rw [htext]; rfl⟩
  · exact ⟨textOf front ++ ['\r'], by rw [htext, List.append_assoc]; rfl⟩

/-- A gap with a line end, left alone or collapsed, ends in the same text behind a line feed. -/
theorem exists_textOf_of_collapse {gap gap' : Gap} (hblank : gap.IsBlank)
    (hread : Lexer.Readable gap.pieces) (hline : gap.hasNewline = true)
    (h : gap'.pieces = gap.pieces ∨ gap'.pieces = GapRule.collapseNewlines gap) :
    ∃ cs cs' ds, textOf gap = cs ++ '\n' :: ds ∧ textOf gap' = cs' ++ '\n' :: ds := by
  obtain ⟨front, last, hlast, hlastKind⟩ := GapRule.exists_last_newline hline
  obtain ⟨first, rest, hfirst, hfirstKind, hcollapse⟩ := GapRule.exists_first_newline hline
  have hspelled {t : Token} (ht : t ∈ gap) := hread.spelled_of_mem hblank ht
  obtain ⟨cs, hcs⟩ := (hspelled (hlast ▸ List.mem_append_right _ List.mem_cons_self)).textOf_newline
    hlastKind front (GapRule.afterLastNewline gap)
  rw [← hlast] at hcs
  rcases h with hsame | hcollapsed
  · exact ⟨cs, cs, _, hcs, (textOf_eq_of_pieces_eq hsame).trans hcs⟩
  · have hmem : first ∈ gap := by
      rw [hfirst]
      exact List.mem_append_right _ List.mem_cons_self
    obtain ⟨cs', hcs'⟩ := (hspelled hmem).textOf_newline hfirstKind
      (gap.takeWhile fun t => t.kind != .newline) (GapRule.afterLastNewline gap)
    exact ⟨cs, cs', _, hcs, (textOf_eq_of_pieces_eq (hcollapsed.trans hcollapse)).trans hcs'⟩

/-! ## First tokens of lines -/

/-- Whether a token of content has nothing but blanks before it on its line. -/
def FirstOnLine (tokens : List Token) (t : Token) : Prop :=
  t.kind.isBlank = false ∧ ∃ front blanks behind, tokens = front ++ (blanks ++ t :: behind) ∧
    Gap.IsBlank blanks ∧ (Gap.hasNewline blanks = true ∨ front = [])

/-- A layout is known by its tokens. -/
theorem Layout.eq_of_tokens_eq {layout layout' : Layout} (h : layout.tokens = layout'.tokens) :
    layout = layout' := by
  rw [← ofTokens_tokens layout, h, ofTokens_tokens]

/-- The first token of a line is that of the first row, or there is a line end in the row before
it. -/
theorem FirstOnLine.exists_row {layout : Layout} {t : Token} (h : FirstOnLine layout.tokens t) :
    (∃ row, layout.rows[0]? = some row ∧ row.head = t) ∨
      ∃ k row next, layout.rows[k]? = some row ∧ layout.rows[k + 1]? = some next ∧
        next.head = t ∧ row.gap.hasNewline = true := by
  obtain ⟨hsolid, front, blanks, behind, htokens, hblank, hfirst⟩ := h
  obtain ⟨⟨lead, rows, hlead⟩, hfront⟩ : ∃ layout : Layout, layout.tokens = front :=
    ⟨_, Layout.tokens_ofTokens front⟩
  obtain ⟨⟨gap, rows', hgap⟩, hbehind⟩ : ∃ layout : Layout, layout.tokens = behind :=
    ⟨_, Layout.tokens_ofTokens behind⟩
  have happend {gap : Gap} (h : gap.IsBlank) : Gap.IsBlank (gap ++ blanks) := fun u hu =>
    (List.mem_append.mp hu).elim (h u) (hblank u)
  subst hfront hbehind
  let next : Row := ⟨t, gap, hsolid, hgap⟩
  rcases List.eq_nil_or_concat rows with rfl | ⟨before, row, rfl⟩
  · -- nothing but blanks stands before the token
    have hlayout : layout = ⟨lead ++ blanks, next :: rows', happend hlead⟩ := by
      apply Layout.eq_of_tokens_eq
      rw [htokens]
      simp [Layout.tokens, next]
    exact Or.inl ⟨next, by rw [hlayout]; rfl, rfl⟩
  · have hlayout : layout = ⟨lead, before ++ row.respace _ (happend row.blank) :: next :: rows',
        hlead⟩ := by
      apply Layout.eq_of_tokens_eq
      rw [htokens]
      simp [Layout.tokens, next, Row.respace]
    have hline : Gap.hasNewline blanks = true := by
      refine hfirst.resolve_right fun hnil => ?_
      simp [Layout.tokens] at hnil
    refine Or.inr ⟨before.length, row.respace _ (happend row.blank), next, ?_, ?_, rfl, ?_⟩
    · simp [hlayout]
    · simp [hlayout]
    · simp only [Row.respace, Gap.hasNewline, List.any_append, Bool.or_eq_true]
      exact Or.inr hline

/-! ## Gaps with a line end -/

/-- A problem that mends a gap with a line end collapses its line ends, unless it is one of an
inheritance. -/
theorem repair_eq_collapseNewlines {layout : Layout} {checks : CheckSet} {settings : Settings}
    (hnodup : (layout.tokens.map Token.id).Nodup) {p : Problem}
    (hp : p ∈ detect layout.tokens checks settings) {k : Nat} {row next : Row}
    (hrow : layout.rows[k]? = some row) (hnext : layout.rows[k + 1]? = some next)
    (hmends : p.Mends row) (hline : row.gap.hasNewline = true) :
    p.rule.repair row.gap = GapRule.collapseNewlines row.gap ∨
      next.head.kind ≠ .closeBrace ∧ p.anchors.right = next.head.id ∧
        (p.check = .inheritsNameBefore ∨ p.check = .inheritsNameAfter) := by
  obtain ⟨v, hv, hvp⟩ := mem_detect_iff.mp hp
  have hfits := fits_of_mem_schedule hv
  obtain ⟨hsite, hrule, hrejects⟩ := Visit.site_eq_of_mends hfits hnodup hvp hrow hmends
  rw [hrule] at hrejects
  rw [hrule]
  cases hdemand : v.site.demand with
  | body afterOpener =>
    simp only [Demand.rule, BodyClass.classify, hline, if_true]
    exact Or.inl rfl
  | follower follower =>
    -- behind a closing brace a line end is always welcome
    rw [hdemand] at hrejects
    cases follower <;> simp [Demand.rule, GapRule.accepts, hline] at hrejects
  | word =>
    right
    obtain ⟨a, ha, hasks⟩ := asks_of_mem_schedule hv
    have hreports := Visit.reports_of_problem?_eq hfits hvp
    obtain ⟨_, b, _, hb, hanchors⟩ := hreports.anchors
    rw [Outline.getElem?_contentPlace, hsite, Layout.getElem?_content, hnext] at hb
    obtain rfl := Option.some.inj hb
    rw [hdemand] at hasks hsite
    refine ⟨?_, congrArg GapAnchors.right hanchors, ?_⟩
    · rw [hsite] at hfits
      cases hfits with
      | word _ hb _ _ hright _ =>
        rw [Layout.getElem?_content, hnext] at hb
        rw [Option.some.inj hb]
        rcases hright with hkind | hkind | hkind <;> rw [hkind] <;> decide
    · rw [hreports.check]
      cases hcheck : v.check <;> rw [hcheck] at hasks <;> simp [Check.Asks] at hasks ⊢

/-- A pass leaves a gap with a line end alone or collapses its line ends, unless it is that before
the right anchor of an inheritance. -/
theorem Progress.pieces_of_hasNewline {layout : Layout} {checks : CheckSet} {settings : Settings}
    {rows : List Row} {s : TokenStream}
    (h : Progress layout (detect layout.tokens checks settings) rows s)
    (hnodup : (layout.tokens.map Token.id).Nodup) {k : Nat} {row next row' : Row}
    (hrow : layout.rows[k]? = some row) (hnext : layout.rows[k + 1]? = some next)
    (hrow' : rows[k]? = some row') (hline : row.gap.hasNewline = true)
    (hkeeps : next.head.kind = .closeBrace ∨ ∀ p ∈ detect layout.tokens checks settings,
      p.fixable = true → p.check = .inheritsNameBefore ∨ p.check = .inheritsNameAfter →
        p.anchors.right ≠ next.head.id) :
    row'.gap.pieces = row.gap.pieces ∨ row'.gap.pieces = GapRule.collapseNewlines row.gap := by
  have hmended := h.mended hrow hrow'
  by_cases hdone : ∃ p ∈ detect layout.tokens checks settings, p.Mends row
  · obtain ⟨p, hp, hmends⟩ := hdone
    rw [hmended.repaired p hp hmends]
    rcases repair_eq_collapseNewlines hnodup hp hrow hnext hmends hline with
      hcollapse | ⟨hkind, hright, hcheck⟩
    · exact Or.inr hcollapse
    · rcases hkeeps with hclose | hkeeps
      · exact absurd hclose hkind
      · exact absurd hright (hkeeps p hp hmends.1 hcheck)
  · rw [hmended.untouched fun p hp hmends => hdone ⟨p, hp, hmends⟩]
    exact Or.inl rfl

/-- What stands before the first token of a line leads to the same column after a pass. -/
theorem Progress.exists_column_eq {layout : Layout} {checks : CheckSet} {settings : Settings}
    {rows : List Row} {s : TokenStream} {id : TokenId}
    (h : Progress layout (detect layout.tokens checks settings) rows s)
    (hlexes : Lexer.Lexes [] .start id layout.tokens) {t : Token}
    (hfirst : FirstOnLine layout.tokens t)
    (hkeeps : t.kind = .closeBrace ∨ ∀ p ∈ detect layout.tokens checks settings,
      p.fixable = true → p.check = .inheritsNameBefore ∨ p.check = .inheritsNameAfter →
        p.anchors.right ≠ t.id) :
    ∃ xs ys xs' ys', layout.tokens = xs ++ t :: ys ∧ s.tokens = xs' ++ t :: ys' ∧
      (Position.start.advance (textOf xs')).column =
        (Position.start.advance (textOf xs)).column := by
  have htokens : s.tokens = Layout.tokens ⟨layout.lead, rows, layout.blank⟩ := h.tokens_eq
  rw [htokens]
  rcases hfirst.exists_row with ⟨row, hrow, rfl⟩ | ⟨k, row, next, hrow, hnext, rfl, hline⟩
  · -- the blanks at the start of a manifest belong to no row
    obtain ⟨row', hrow', hmended⟩ := h.exists_row hrow
    obtain ⟨rest, hrest⟩ := List.head?_eq_some_iff.mp (List.head?_eq_getElem?.trans hrow)
    obtain ⟨rest', hrest'⟩ := List.head?_eq_some_iff.mp (List.head?_eq_getElem?.trans hrow')
    refine ⟨layout.lead, row.gap ++ Row.join rest, layout.lead, row'.gap ++ Row.join rest', ?_, ?_,
      rfl⟩
    · rw [Layout.tokens, hrest, Row.join_cons]
    · rw [Layout.tokens, hrest', Row.join_cons, hmended.head]
  · obtain ⟨row', hrow', hmended⟩ := h.exists_row hrow
    obtain ⟨next', hnext', hmendedNext⟩ := h.exists_row hnext
    obtain ⟨_, _, _, hrows⟩ := hlexes.readable layout.blank
    have hsplit := Layout.tokens_eq_of_getElem? hrow hnext
    have hsplit' :=
      @Layout.tokens_eq_of_getElem? ⟨layout.lead, rows, layout.blank⟩ _ _ _ hrow' hnext'
    rw [hmendedNext.head] at hsplit'
    rw [← List.cons_append, ← List.append_assoc] at hsplit hsplit'
    obtain ⟨cs, cs', ds, hcs, hcs'⟩ := exists_textOf_of_collapse row.blank
      (hrows.tidy row (List.mem_of_getElem? hrow)).2 hline
      (h.pieces_of_hasNewline hlexes.nodup hrow hnext hrow' hline hkeeps)
    refine ⟨_, _, _, _, hsplit, hsplit', ?_⟩
    simp only [textOf_append, textOf_cons, hcs, hcs', ← List.append_assoc]
    exact Position.column_advance_lineFeed _ _ _ _ _

namespace Linter

/-- A run in fix mode keeps indentation. The first token of a line keeps its column in the stream
that the run ends with, whose positions follow from its texts. The only ones that can move are names
of inheritances and the braces behind them; a closing brace at the start of its line stays in its
column even when blank lines before it are collapsed. -/
theorem run_fix_keeps_indentation (linter : Linter) {source : String} {s : TokenStream}
    (hlex : lex source = .ok s) {t : Token} (hfirst : FirstOnLine s.tokens t)
    (hkeeps : t.kind = .closeBrace ∨ ∀ p ∈ linter.detect s, p.fixable = true →
      p.check = .inheritsNameBefore ∨ p.check = .inheritsNameAfter → p.anchors.right ≠ t.id) :
    ∃ report, linter.run source .fix = .ok report ∧
      report.output = (linter.runStream .fix s).1.render ∧
      ∃ i t', (linter.runStream .fix s).1.positionOf? t.id = some i ∧
        (linter.runStream .fix s).1.tokens[i]? = some t' ∧ t'.face = t.face ∧
        t'.position.column = t.position.column := by
  have hstream : (linter.runStream .fix s).1 = (linter.mend s).reposition := rfl
  refine ⟨_, linter.run_fix_eq hlex, by rw [hstream, TokenStream.render_reposition], ?_⟩
  obtain ⟨layout, rows, htokens, hlexes, hprogress⟩ := linter.exists_mended_rows hlex
  rw [detect, htokens] at hkeeps
  rw [htokens] at hfirst
  obtain ⟨xs, ys, xs', ys', hsplit, hsplit', hcolumn⟩ :=
    hprogress.exists_column_eq hlexes hfirst hkeeps
  have hplace : (linter.mend s).tokens[xs'.length]? = some t := by
    rw [hsplit', List.getElem?_append_right (Nat.le_refl _), Nat.sub_self]
    rfl
  rw [hstream]
  refine ⟨xs'.length, { t with position := Position.start.advance (textOf xs') }, ?_, ?_, rfl, ?_⟩
  · rw [TokenStream.positionOf?_reposition]
    exact TokenStream.positionOf?_eq_some hprogress.nodup hplace
  · rw [TokenStream.reposition, hsplit']
    exact TokenStream.getElem?_repositionFrom .start xs' t ys'
  · rw [hsplit] at hlexes
    rw [hlexes.position_of_append]
    exact hcolumn

/-- A closing brace keeps its column when the blank line above it goes. -/
theorem run_fix_keeps_indentation_blank_lines :
    ∃ s t report, lex "\x7b\r\n\n  \x7d" = .ok s ∧ FirstOnLine s.tokens t ∧
      t.kind = .closeBrace ∧ t.position = ⟨3, 3⟩ ∧
      standard.run "\x7b\r\n\n  \x7d" .fix = .ok report ∧
      report.output = (standard.runStream .fix s).1.render ∧
      report.output = "\x7b\r\n  \x7d" ∧
      ∃ i t', (standard.runStream .fix s).1.positionOf? t.id = some i ∧
        (standard.runStream .fix s).1.tokens[i]? = some t' ∧ t'.face = t.face ∧
        t'.position.column = t.position.column := by
  have hlex : lex "\x7b\r\n\n  \x7d" = .ok ⟨[⟨0, .openBrace, "\x7b", ⟨1, 1⟩⟩,
      ⟨1, .newline, "\r\n", ⟨1, 2⟩⟩, ⟨2, .newline, "\n", ⟨2, 1⟩⟩, ⟨3, .whitespace, "  ", ⟨3, 1⟩⟩,
      ⟨4, .closeBrace, "\x7d", ⟨3, 3⟩⟩], 5⟩ := by cbv
  have hfirst : FirstOnLine [⟨0, .openBrace, "\x7b", ⟨1, 1⟩⟩, ⟨1, .newline, "\r\n", ⟨1, 2⟩⟩,
      ⟨2, .newline, "\n", ⟨2, 1⟩⟩, ⟨3, .whitespace, "  ", ⟨3, 1⟩⟩, ⟨4, .closeBrace, "\x7d", ⟨3, 3⟩⟩]
        ⟨4, .closeBrace, "\x7d", ⟨3, 3⟩⟩ :=
    ⟨rfl, [⟨0, .openBrace, "\x7b", ⟨1, 1⟩⟩], [⟨1, .newline, "\r\n", ⟨1, 2⟩⟩,
      ⟨2, .newline, "\n", ⟨2, 1⟩⟩, ⟨3, .whitespace, "  ", ⟨3, 1⟩⟩], [], rfl,
      by simp [Gap.IsBlank, TokenKind.isBlank], Or.inl rfl⟩
  obtain ⟨report, hrun, houtput, hcolumn⟩ :=
    run_fix_keeps_indentation standard hlex hfirst (Or.inl rfl)
  have hrender : report.output = "\x7b\r\n  \x7d" := by
    rw [houtput]
    cbv
  exact ⟨_, _, report, hlex, hfirst, rfl, rfl, hrun, houtput, hrender, hcolumn⟩

end Linter

end ManifestSpacing
