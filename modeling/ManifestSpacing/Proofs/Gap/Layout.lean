import ManifestSpacing.Proofs.Gap.Repairs

/-!
# Layouts

Every token sequence is a run of blanks followed by rows, each a token of
content with the blanks behind it. The gap between two neighbouring tokens of
content is then a field of a row, and rewriting gaps changes these fields and
nothing else.
-/

namespace ManifestSpacing

/-- What a token is apart from its identity and its place. -/
def Token.face (t : Token) : TokenKind × String := (t.kind, t.text)

/-- The tokens that are not blank. -/
def contentOf (tokens : List Token) : List Token := tokens.filter fun t => !t.kind.isBlank

/-- A token of content with the blanks behind it. -/
structure Row where
  /-- The token, which is not blank. -/
  head : Token
  /-- The blanks up to the next token of content. -/
  gap : Gap
  solid : head.kind.isBlank = false
  blank : gap.IsBlank

namespace Row

/-- The tokens of some rows in order. -/
def join (rows : List Row) : List Token := rows.flatMap fun row => row.head :: row.gap

@[simp] theorem join_nil : join [] = [] := rfl

@[simp] theorem join_cons (row : Row) (rows : List Row) :
    join (row :: rows) = row.head :: (row.gap ++ join rows) := rfl

@[simp] theorem join_append (rows rows' : List Row) :
    join (rows ++ rows') = join rows ++ join rows' := by
  simp only [join, List.flatMap_append]

/-- The row with other blanks behind its token. -/
def respace (row : Row) (gap : Gap) (h : gap.IsBlank) : Row := ⟨row.head, gap, row.solid, h⟩

end Row

namespace Gap

theorem isBlank_nil : IsBlank [] := by
  intro t ht
  cases ht

theorem IsBlank.cons {t : Token} {gap : Gap} (ht : t.kind.isBlank = true) (h : gap.IsBlank) :
    IsBlank (t :: gap) := by
  intro u hu
  rcases List.mem_cons.mp hu with rfl | hu
  · exact ht
  · exact h u hu

/-- A blank gap holds no content. -/
theorem IsBlank.filter_eq_nil {gap : Gap} (h : gap.IsBlank) :
    (gap.filter fun t => !t.kind.isBlank) = [] := by
  rw [List.filter_eq_nil_iff]
  intro t ht
  simp [h t ht]

end Gap

/-- A token sequence taken apart into blanks and rows. -/
structure Layout where
  /-- The blanks before the first token of content. -/
  lead : Gap
  /-- The tokens of content with the blanks behind them. -/
  rows : List Row
  blank : lead.IsBlank

namespace Layout

/-- The tokens of a layout in order. -/
def tokens (layout : Layout) : List Token := layout.lead ++ Row.join layout.rows

theorem mem_tokens {layout : Layout} {row : Row} (hrow : row ∈ layout.rows) {t : Token}
    (ht : t ∈ row.head :: row.gap) : t ∈ layout.tokens :=
  List.mem_append_right _ (List.mem_flatMap.mpr ⟨row, hrow, ht⟩)

/-- The layout of a token sequence. -/
def ofTokens : List Token → Layout
  | [] => ⟨[], [], Gap.isBlank_nil⟩
  | t :: ts =>
    if h : t.kind.isBlank = true then
      ⟨t :: (ofTokens ts).lead, (ofTokens ts).rows, (ofTokens ts).blank.cons h⟩
    else
      ⟨[], ⟨t, (ofTokens ts).lead, Bool.eq_false_iff.mpr h, (ofTokens ts).blank⟩ ::
        (ofTokens ts).rows, Gap.isBlank_nil⟩

/-- A layout keeps every token in its place. -/
@[simp] theorem tokens_ofTokens (ts : List Token) : (ofTokens ts).tokens = ts := by
  induction ts with
  | nil => rfl
  | cons t ts ih =>
    unfold ofTokens
    split
    · exact congrArg (t :: ·) ih
    · exact congrArg (t :: ·) ih

/-- The layout of the tokens of a layout is that layout. -/
@[simp] theorem ofTokens_tokens (layout : Layout) : ofTokens layout.tokens = layout := by
  have hblanks {gap : Gap} (hgap : gap.IsBlank) (ts : List Token) :
      ofTokens (gap ++ ts) = ⟨gap ++ (ofTokens ts).lead, (ofTokens ts).rows,
        fun t ht => (List.mem_append.mp ht).elim (hgap t) ((ofTokens ts).blank t)⟩ := by
    induction gap with
    | nil => rfl
    | cons t gap ih =>
      rw [List.cons_append, ofTokens, dif_pos (hgap t List.mem_cons_self)]
      simp only [ih fun u hu => hgap u (List.mem_cons_of_mem t hu), List.cons_append]
  have hrows (rows : List Row) : ofTokens (Row.join rows) = ⟨[], rows, Gap.isBlank_nil⟩ := by
    induction rows with
    | nil => rfl
    | cons row rows ih =>
      rw [Row.join_cons, ofTokens, dif_neg (by simp [row.solid])]
      simp only [hblanks row.blank, ih, List.append_nil]
  rw [tokens, hblanks layout.blank]
  simp only [hrows, List.append_nil]

/-- Sequences with the same faces have rows with the same faces. -/
theorem forall₂_of_map_face {ts us : List Token} (h : ts.map Token.face = us.map Token.face) :
    (ofTokens ts).lead.map Token.face = (ofTokens us).lead.map Token.face ∧
      List.Forall₂ (fun row row' : Row => row.head.face = row'.head.face ∧
          row.gap.map Token.face = row'.gap.map Token.face)
        (ofTokens ts).rows (ofTokens us).rows := by
  induction ts generalizing us with
  | nil =>
    obtain rfl := List.map_eq_nil_iff.mp h.symm
    exact ⟨rfl, .nil⟩
  | cons t ts ih =>
    cases us with
    | nil => cases h
    | cons u us =>
      rw [List.map_cons, List.map_cons, List.cons.injEq] at h
      obtain ⟨hlead, hrows⟩ := ih h.2
      have hkind : t.kind = u.kind := congrArg Prod.fst h.1
      cases hblank : t.kind.isBlank with
      | true =>
        rw [ofTokens, dif_pos hblank, ofTokens, dif_pos (hkind ▸ hblank)]
        exact ⟨by rw [List.map_cons, List.map_cons, h.1, hlead], hrows⟩
      | false =>
        rw [ofTokens, dif_neg (by simp [hblank]), ofTokens, dif_neg (by simp [← hkind, hblank])]
        exact ⟨rfl, .cons ⟨h.1, hlead⟩ hrows⟩

/-- The content of a layout is the heads of its rows. -/
theorem contentOf_tokens (layout : Layout) :
    contentOf layout.tokens = layout.rows.map Row.head := by
  have hrows (rows : List Row) :
      ((Row.join rows).filter fun t => !t.kind.isBlank) = rows.map Row.head := by
    induction rows with
    | nil => rfl
    | cons row rows ih =>
      rw [Row.join_cons, List.filter_cons_of_pos (by simp [row.solid]), List.filter_append,
        row.blank.filter_eq_nil, ih]
      rfl
  rw [tokens, contentOf, List.filter_append, layout.blank.filter_eq_nil, hrows, List.nil_append]

end Layout

end ManifestSpacing
