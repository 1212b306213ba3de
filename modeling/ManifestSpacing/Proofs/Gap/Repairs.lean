import ManifestSpacing.Gap.Rule
import ManifestSpacing.Token.Stream
import Mathlib.Data.List.Chain
import Mathlib.Data.List.TakeWhile

/-!
# What rules ask of gaps and put into them

A blank gap matters to the rules only through its pieces, the kinds and texts
of its tokens. Whatever a rule puts into a gap it accepts there. The governing
rule of a gap is tied to the kinds of the tokens around it, so two rules that
govern one gap and both reject it put the same pieces into it.
-/

namespace ManifestSpacing

namespace Gap

/-- Whether every token of a gap is blank. -/
def IsBlank (gap : Gap) : Prop := ∀ t ∈ gap, t.kind.isBlank = true

/-- The kinds and texts of a gap. -/
def pieces (gap : Gap) : List GapPiece := gap.map GapPiece.ofToken

theorem isNewline_ofToken (t : Token) :
    (GapPiece.ofToken t).isNewline = (t.kind == .newline) := by
  unfold GapPiece.ofToken
  split <;> simp_all [GapPiece.isNewline]

theorem kind_ofToken {t : Token} (h : t.kind.isBlank = true) :
    (GapPiece.ofToken t).kind = t.kind := by
  unfold GapPiece.ofToken
  rcases (TokenKind.isBlank_iff _).mp h with hk | hk <;> simp [hk, GapPiece.kind]

theorem hasNewline_eq (gap : Gap) : gap.hasNewline = gap.pieces.any GapPiece.isNewline := by
  simp only [hasNewline, pieces, List.any_map]
  congr 1
  funext t
  exact (isNewline_ofToken t).symm

theorem newlineCount_eq (gap : Gap) :
    gap.newlineCount = gap.pieces.countP GapPiece.isNewline := by
  simp only [newlineCount, pieces, List.countP_map]
  congr 1
  funext t
  exact (isNewline_ofToken t).symm

/-- A blank gap is a single space exactly when its only piece is one. -/
theorem isSingleSpace_iff_pieces {gap : Gap} (h : gap.IsBlank) :
    gap.isSingleSpace = true ↔ gap.pieces = [.space] := by
  rw [isSingleSpace_iff]
  constructor
  · rintro ⟨t, rfl, hkind, htext⟩
    simp [pieces, GapPiece.ofToken, GapPiece.space, hkind, htext]
  · intro hp
    obtain ⟨t, rfl, ht⟩ := List.map_eq_singleton_iff.mp hp
    refine ⟨t, rfl, ?_, ?_⟩
    · rw [← kind_ofToken (h t List.mem_cons_self), ht]
      rfl
    · rw [← GapPiece.text_ofToken, ht]
      rfl

/-- A blank gap holds no comment. -/
theorem IsBlank.hasComment_eq_false {gap : Gap} (h : gap.IsBlank) : gap.hasComment = false := by
  rw [hasComment, List.any_eq_false]
  intro t ht hcomment
  have hkind := h t ht
  rw [eq_of_beq hcomment] at hkind
  cases hkind

end Gap

@[simp] theorem pieces_freshTokens (position : Position) (id : TokenId) (pieces : List GapPiece) :
    Gap.pieces (TokenStream.freshTokens position id pieces) = pieces := by
  induction pieces generalizing id with
  | nil => rfl
  | cons piece pieces ih =>
    have htail := ih (id + 1)
    simp only [Gap.pieces, TokenStream.freshTokens, List.map_cons] at htail ⊢
    rw [htail]
    cases piece <;> simp [GapPiece.ofToken, GapPiece.kind, GapPiece.text]

theorem isBlank_freshTokens (position : Position) (id : TokenId) (pieces : List GapPiece) :
    Gap.IsBlank (TokenStream.freshTokens position id pieces) :=
  fun _ ht => TokenStream.isBlank_of_mem_freshTokens ht

namespace GapRule

/-- Blank gaps with the same pieces satisfy the same rules. -/
theorem accepts_congr {gap gap' : Gap} (h : gap.IsBlank) (h' : gap'.IsBlank)
    (hpieces : gap.pieces = gap'.pieces) (rule : GapRule) :
    rule.accepts gap = rule.accepts gap' := by
  have hempty : gap.isEmpty = gap'.isEmpty := by
    have hh := congrArg List.isEmpty hpieces
    simpa only [Gap.pieces, List.isEmpty_map] using hh
  have hspace : gap.isSingleSpace = gap'.isSingleSpace := by
    rw [Bool.eq_iff_iff, Gap.isSingleSpace_iff_pieces h, Gap.isSingleSpace_iff_pieces h', hpieces]
  have hnewline : gap.hasNewline = gap'.hasNewline := by
    rw [Gap.hasNewline_eq, Gap.hasNewline_eq, hpieces]
  have hcount : gap.newlineCount = gap'.newlineCount := by
    rw [Gap.newlineCount_eq, Gap.newlineCount_eq, hpieces]
  cases rule with
  | before body => cases body <;> simp only [accepts, hempty, hspace, hcount]
  | after follower => cases follower <;> simp only [accepts, hempty, hspace, hnewline]
  | singleSpace => exact hspace

/-! ## Collapsed line ends -/

private theorem not_newline_of_mem_takeWhile {gap : Gap} {t : Token}
    (h : t ∈ gap.takeWhile fun t => t.kind != .newline) : t.kind ≠ .newline := by
  simpa using List.all_eq_true.mp List.all_takeWhile t h

private theorem not_newline_of_mem_afterLastNewline {gap : Gap} {t : Token}
    (h : t ∈ afterLastNewline gap) : t.kind ≠ .newline :=
  not_newline_of_mem_takeWhile (List.mem_reverse.mp h)

/-- A gap with a line end splits at its first one. -/
theorem exists_first_newline {gap : Gap} (h : gap.hasNewline = true) :
    ∃ first rest, gap = (gap.takeWhile fun t => t.kind != .newline) ++ first :: rest ∧
      first.kind = .newline ∧ collapseNewlines gap =
        ((gap.takeWhile fun t => t.kind != .newline) ++ first :: afterLastNewline gap).map
          GapPiece.ofToken := by
  cases hdrop : gap.dropWhile fun t => t.kind != .newline with
  | nil =>
    obtain ⟨t, ht, hkind⟩ := List.any_eq_true.mp h
    have hall := List.dropWhile_eq_nil_iff.mp hdrop t ht
    rw [eq_of_beq hkind] at hall
    cases hall
  | cons first rest =>
    have hne : (gap.dropWhile fun t => t.kind != .newline) ≠ [] := by
      rw [hdrop]
      exact List.cons_ne_nil _ _
    have hfirst := List.head_dropWhile_not (fun t : Token => t.kind != .newline) hne
    simp only [hdrop, List.head_cons, bne_eq_false_iff_eq] at hfirst
    refine ⟨first, rest, ?_, hfirst, ?_⟩
    · rw [← hdrop, List.takeWhile_append_dropWhile]
    · simp only [collapseNewlines, hdrop]

/-- A gap without a line end becomes one. -/
theorem collapseNewlines_eq_newline {gap : Gap} (h : gap.hasNewline = false) :
    collapseNewlines gap = [.newline "\n"] := by
  have hdrop : (gap.dropWhile fun t => t.kind != .newline) = [] := by
    rw [List.dropWhile_eq_nil_iff]
    intro t ht
    simpa using List.any_eq_false.mp h t ht
  simp only [collapseNewlines, hdrop]

/-- Collapsing leaves exactly one line end. -/
theorem countP_collapseNewlines (gap : Gap) :
    (collapseNewlines gap).countP GapPiece.isNewline = 1 := by
  cases h : gap.hasNewline with
  | false =>
    rw [collapseNewlines_eq_newline h]
    rfl
  | true =>
    obtain ⟨first, rest, _, hfirst, hcollapse⟩ := exists_first_newline h
    have hbefore : (gap.takeWhile fun t => t.kind != .newline).countP
        (GapPiece.isNewline ∘ GapPiece.ofToken) = 0 := by
      rw [List.countP_eq_zero]
      intro t ht
      simpa [Gap.isNewline_ofToken] using not_newline_of_mem_takeWhile ht
    have hafter : (afterLastNewline gap).countP (GapPiece.isNewline ∘ GapPiece.ofToken) = 0 := by
      rw [List.countP_eq_zero]
      intro t ht
      simpa [Gap.isNewline_ofToken] using not_newline_of_mem_afterLastNewline ht
    rw [hcollapse, List.countP_map, List.countP_append, List.countP_cons, hbefore, hafter]
    simp [Gap.isNewline_ofToken, hfirst]

/-- Collapsing adds nothing where a line ends already. -/
theorem length_collapseNewlines_le {gap : Gap} (h : gap.hasNewline = true) :
    (collapseNewlines gap).length ≤ gap.length := by
  obtain ⟨first, rest, hsplit, hfirst, hcollapse⟩ := exists_first_newline h
  have htail : (afterLastNewline gap).length ≤ rest.length := by
    rw [afterLastNewline, hsplit, List.length_reverse, List.reverse_append, List.reverse_cons,
      List.append_assoc, List.takeWhile_append]
    split
    · simp [hfirst]
    · exact (List.takeWhile_prefix _).length_le.trans (Nat.le_of_eq List.length_reverse)
  have hlength := congrArg List.length hsplit
  rw [List.length_append, List.length_cons] at hlength
  rw [hcollapse, List.length_map, List.length_append, List.length_cons]
  omega

/-- A repair puts at most one token more into a gap than it takes out. -/
theorem length_repair_le (rule : GapRule) (gap : Gap) :
    (rule.repair gap).length ≤ gap.length + 1 := by
  cases rule with
  | before body =>
    cases body with
    | emptyPair => exact Nat.zero_le _
    | inlineBody => exact Nat.le_add_left 1 _
    | lineBreakBody =>
      cases hline : gap.hasNewline with
      | true => exact Nat.le_succ_of_le (length_collapseNewlines_le hline)
      | false =>
        rw [repair, collapseNewlines_eq_newline hline]
        exact Nat.le_add_left 1 _
  | after follower =>
    cases follower with
    | tight => exact Nat.zero_le _
    | nested | loose => exact Nat.le_add_left 1 _
  | singleSpace => exact Nat.le_add_left 1 _

/-- Collapsed line ends start with what the gap starts with. -/
theorem head?_collapseNewlines {gap : Gap} (h : gap.hasNewline = true) :
    (collapseNewlines gap).head? = gap.pieces.head? := by
  obtain ⟨first, rest, hsplit, _, hcollapse⟩ := exists_first_newline h
  rw [hcollapse, Gap.pieces]
  generalize (gap.takeWhile fun t => t.kind != .newline) = front at hsplit ⊢
  rw [hsplit]
  cases front <;> rfl

/-- A repair that ends a line does so at once where the gap does, or where there is no gap. -/
theorem repair_eq_newline_cons {rule : GapRule} {gap : Gap}
    (hnewline : (rule.repair gap).any GapPiece.isNewline = true)
    (hfirst : ∀ t ∈ gap.head?, t.kind = .newline) :
    ∃ piece pieces, rule.repair gap = piece :: pieces ∧ piece.isNewline = true := by
  cases rule with
  | before body =>
    cases body with
    | emptyPair => cases hnewline
    | inlineBody => cases hnewline
    | lineBreakBody =>
      cases gap with
      | nil => exact ⟨_, _, rfl, rfl⟩
      | cons t gap =>
        have hkind : t.kind = .newline := hfirst t rfl
        have hline : Gap.hasNewline (t :: gap) = true := by simp [Gap.hasNewline, hkind]
        have hhead := head?_collapseNewlines hline
        obtain ⟨pieces, hpieces⟩ := List.head?_eq_some_iff.mp hhead
        exact ⟨_, pieces, hpieces, by simp [Gap.isNewline_ofToken, hkind]⟩
  | after follower => cases follower <;> cases hnewline
  | singleSpace => cases hnewline

/-- Collapsing line ends looks at the pieces alone. -/
theorem collapseNewlines_eq (gap : Gap) : collapseNewlines gap =
    match gap.pieces.dropWhile fun piece => !piece.isNewline with
    | [] => [.newline "\n"]
    | first :: _ => (gap.pieces.takeWhile fun piece => !piece.isNewline) ++
        first :: (gap.pieces.reverse.takeWhile fun piece => !piece.isNewline).reverse := by
  have htest : (fun t : Token => t.kind != .newline) =
      (fun piece => !piece.isNewline) ∘ GapPiece.ofToken := by
    funext t
    rw [Function.comp_apply, Gap.isNewline_ofToken]
    rfl
  rw [Gap.pieces, ← List.map_reverse, List.dropWhile_map, List.takeWhile_map, List.takeWhile_map,
    ← htest, collapseNewlines]
  cases gap.dropWhile fun t => t.kind != .newline with
  | nil => rfl
  | cons first rest =>
    simp only [afterLastNewline, List.map_append, List.map_cons, List.map_reverse]

/-- Gaps with the same pieces are repaired alike. -/
theorem repair_congr {gap gap' : Gap} (hpieces : gap.pieces = gap'.pieces) (rule : GapRule) :
    rule.repair gap = rule.repair gap' := by
  cases rule with
  | before body =>
    cases body with
    | lineBreakBody => simp only [repair, collapseNewlines_eq, hpieces]
    | emptyPair | inlineBody => rfl
  | after follower => cases follower <;> rfl
  | singleSpace => rfl

/-- Whatever a rule puts into a gap it accepts there. -/
theorem accepts_of_pieces_eq_repair {rule : GapRule} {gap gap' : Gap} (hblank : gap'.IsBlank)
    (h : gap'.pieces = rule.repair gap) : rule.accepts gap' = true := by
  have hempty : gap'.pieces = [] → gap'.isEmpty = true := by
    intro hp
    rw [List.isEmpty_iff]
    exact List.map_eq_nil_iff.mp hp
  cases rule with
  | before body =>
    cases body with
    | emptyPair => exact hempty h
    | lineBreakBody =>
      simp only [accepts, beq_iff_eq]
      rw [Gap.newlineCount_eq, h]
      exact countP_collapseNewlines gap
    | inlineBody => exact (Gap.isSingleSpace_iff_pieces hblank).mpr h
  | after follower =>
    cases follower with
    | tight => simp only [accepts, hempty h, Bool.or_true]
    | nested | loose =>
      simp only [accepts, (Gap.isSingleSpace_iff_pieces hblank).mpr h, Bool.or_true]
  | singleSpace => exact (Gap.isSingleSpace_iff_pieces hblank).mpr h

/-! ## Governing rules -/

/-- Whether a gap between tokens of two kinds can be judged by a rule. -/
def Governs (rule : GapRule) (left right : TokenKind) (gap : Gap) : Prop :=
  match rule with
  | .before .emptyPair => left = .openBrace ∧ right = .closeBrace
  | .before .lineBreakBody => right = .closeBrace ∧ gap.hasNewline = true
  | .before .inlineBody => right = .closeBrace ∧ gap.hasNewline = false
  | .after _ => left = .closeBrace
  | .singleSpace => left = .inheritsWord ∨ left = .name ∨ left = .classRef

end GapRule

end ManifestSpacing
