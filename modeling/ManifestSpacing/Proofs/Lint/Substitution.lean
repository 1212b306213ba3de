import ManifestSpacing.Proofs.Lint.Runs

/-!
# A pass as one substitution

A pass repairs one gap after the other in a stream whose indices move. Its
text is nevertheless that of one substitution in the original tokens: every
gap of a problem that can be repaired is replaced by what the problem's rule
puts there, and every other token keeps its text. Gaps of two problems are
either the same, with the same replacement, or have nothing in common.
-/

namespace ManifestSpacing

/-- The tokens strictly between the anchors of a problem. -/
def Problem.gapIn (p : Problem) (tokens : List Token) : Gap :=
  ((tokens.dropWhile fun t => t.id != p.anchors.left).drop 1).takeWhile fun t =>
    t.id != p.anchors.right

/-! ## Substitution -/

section Substitution

variable (problems : List Problem) (tokens : List Token)

/-- Whether a token stands in the gap of a problem that can be repaired. -/
def isReplaced (t : Token) : Bool :=
  problems.any fun p => p.fixable && (p.gapIn tokens).contains t

/-- The text for the gap behind a token, if a problem that can be repaired starts at the token. -/
def replacementBehind (t : Token) : String :=
  match problems.find? fun p => p.fixable && p.anchors.left == t.id with
  | none => ""
  | some p => String.join ((p.rule.repair (p.gapIn tokens)).map GapPiece.text)

/-- What stands for a token and the gap behind it. -/
def substitute (t : Token) : String :=
  (if isReplaced problems tokens t then "" else t.text) ++ replacementBehind problems tokens t

/-- The text with all replacements made at once. -/
def substituted : String := String.join (tokens.map (substitute problems tokens))

end Substitution

/-- The text around one token. -/
theorem substituted_eq_of_split {problems : List Problem} {tokens xs ys : List Token} {t : Token}
    (h : tokens = xs ++ t :: ys) : substituted problems tokens =
      String.join (xs.map (substitute problems tokens)) ++ substitute problems tokens t ++
        String.join (ys.map (substitute problems tokens)) := by
  rw [substituted]
  generalize substitute problems tokens = f
  rw [h, List.map_append, List.map_cons, String.join_append, String.join_cons,
    String.append_assoc]

theorem renderTokens_eq_join (tokens : List Token) :
    renderTokens tokens = String.join (tokens.map Token.text) := by
  rw [← String.toList_inj, toList_renderTokens, String.toList_join, List.flatMap_map]

theorem Gap.map_text_pieces (gap : Gap) : gap.pieces.map GapPiece.text = gap.map Token.text := by
  rw [pieces, List.map_map]
  exact List.map_congr_left fun t _ => GapPiece.text_ofToken t

/-- Texts of rows are compared row by row. -/
theorem Row.join_map_eq_of_forall₂ {f g : Token → String} {rows rows' : List Row}
    (h : List.Forall₂ (fun row row' : Row => String.join ((row.head :: row.gap).map f) =
      String.join ((row'.head :: row'.gap).map g)) rows rows') :
    String.join ((Row.join rows).map f) = String.join ((Row.join rows').map g) := by
  induction h with
  | nil => rfl
  | cons hrow _ ih =>
    rw [Row.join_cons, Row.join_cons, ← List.cons_append, ← List.cons_append, List.map_append,
      List.map_append, String.join_append, String.join_append, hrow, ih]

/-- Where identities are distinct, the anchors of a problem enclose its gap. -/
theorem Problem.gapIn_append {p : Problem} {xs ys : List Token} {l r : Token} {gap : Gap}
    (hnodup : ((xs ++ l :: (gap ++ r :: ys)).map Token.id).Nodup)
    (hl : l.id = p.anchors.left) (hr : r.id = p.anchors.right) :
    p.gapIn (xs ++ l :: (gap ++ r :: ys)) = gap := by
  rw [List.map_append, List.map_cons, List.map_append, List.map_cons] at hnodup
  obtain ⟨_, hrest, hdisjoint⟩ := List.nodup_append.mp hnodup
  obtain ⟨_, _, hgap⟩ := List.nodup_append.mp (List.nodup_cons.mp hrest).2
  have hbefore : ∀ t ∈ xs, (t.id != p.anchors.left) = true := by
    intro t ht
    rw [← hl, bne_iff_ne]
    exact hdisjoint _ (List.mem_map_of_mem ht) _ List.mem_cons_self
  have hinside : ∀ t ∈ gap, (t.id != p.anchors.right) = true := by
    intro t ht
    rw [← hr, bne_iff_ne]
    exact hgap _ (List.mem_map_of_mem ht) _ List.mem_cons_self
  rw [gapIn, List.dropWhile_append_of_pos hbefore, List.dropWhile_cons_of_neg (by simp [hl]),
    List.drop_one, List.tail_cons, List.takeWhile_append_of_pos hinside,
    List.takeWhile_cons_of_neg (by simp [hr]), List.append_nil]

/-! ## Gaps of a layout -/

section Gaps

variable {layout : Layout} (hnodup : (layout.tokens.map Token.id).Nodup)

include hnodup

/-- A token stands in one gap. -/
theorem row_eq_of_mem_gap {row other : Row} (hrow : row ∈ layout.rows)
    (hother : other ∈ layout.rows) {t : Token} (ht : t ∈ row.gap) (ht' : t ∈ other.gap) :
    row = other := by
  have htokens := List.Nodup.of_map _ hnodup
  rw [Layout.tokens, List.nodup_append] at htokens
  have hpair := (List.nodup_flatMap.mp htokens.2.1).2
  have hsymm : Std.Symm (Function.onFun List.Disjoint fun row : Row => row.head :: row.gap) :=
    ⟨fun _ _ hab _ hb ha => hab ha hb⟩
  by_contra hne
  exact hpair.forall hrow hother hne (List.mem_cons_of_mem _ ht) (List.mem_cons_of_mem _ ht')

/-- No token before the first row stands in a gap of a row. -/
theorem not_mem_gap_of_mem_lead {t : Token} (ht : t ∈ layout.lead) {row : Row}
    (hrow : row ∈ layout.rows) : t ∉ row.gap := by
  intro hmem
  have htokens := List.Nodup.of_map _ hnodup
  rw [Layout.tokens, List.nodup_append] at htokens
  refine htokens.2.2 t ht t ?_ rfl
  exact List.mem_flatMap.mpr ⟨row, hrow, List.mem_cons_of_mem _ hmem⟩

variable {problems : List Problem} (hharm : Harmonious layout problems)

include hharm

/-- A problem that can be repaired mends a row whose gap is its own. -/
theorem exists_row_of_fixable {p : Problem} (hp : p ∈ problems) (hfixable : p.fixable = true) :
    ∃ k row next, p.Repairable layout k row next ∧ p.Mends row ∧
      p.gapIn layout.tokens = row.gap := by
  obtain ⟨k, row, next, hrep⟩ := hharm.repairable p hp hfixable
  refine ⟨k, row, next, hrep, ⟨hfixable, hrep.left⟩, ?_⟩
  rw [Layout.tokens_eq_of_getElem? hrep.row_eq hrep.next_eq] at hnodup ⊢
  exact Problem.gapIn_append hnodup hrep.left.symm hrep.right.symm

/-- The gap of a problem is that of the row it mends. -/
theorem gapIn_eq_of_mends {p : Problem} (hp : p ∈ problems) {row : Row} (hrow : row ∈ layout.rows)
    (hmends : p.Mends row) : p.gapIn layout.tokens = row.gap := by
  obtain ⟨k, other, next, hrep, hother, hgap⟩ := exists_row_of_fixable hnodup hharm hp hmends.1
  obtain ⟨j, hj⟩ := List.mem_iff_getElem?.mp hrow
  have hjk : j = k := eq_of_nodup_map hharm.nodup hj hrep.row_eq (hmends.2.symm.trans hother.2)
  subst hjk
  rw [hgap, Option.some.inj (hj.symm.trans hrep.row_eq)]

/-- Problems whose gaps have anything in common have one gap and one repair. -/
theorem same_gap_of_shared {p q : Problem} (hp : p ∈ problems) (hq : q ∈ problems)
    (hpf : p.fixable = true) (hqf : q.fixable = true)
    (hshared : p.anchors.left = q.anchors.left ∨ p.anchors.right = q.anchors.right ∨
      ∃ t ∈ p.gapIn layout.tokens, t ∈ q.gapIn layout.tokens) :
    p.anchors.left = q.anchors.left ∧ p.anchors.right = q.anchors.right ∧
      p.rule.repair (p.gapIn layout.tokens) = q.rule.repair (q.gapIn layout.tokens) := by
  obtain ⟨k, row, next, hprep, hpmends, hpgap⟩ := exists_row_of_fixable hnodup hharm hp hpf
  obtain ⟨j, other, next', hqrep, hqmends, hqgap⟩ := exists_row_of_fixable hnodup hharm hq hqf
  have hjk : j = k := by
    rcases hshared with hleft | hright | ⟨t, ht, ht'⟩
    · rw [hprep.left, hqrep.left] at hleft
      exact eq_of_nodup_map hharm.nodup hqrep.row_eq hprep.row_eq hleft.symm
    · rw [hprep.right, hqrep.right] at hright
      exact Nat.succ.inj (eq_of_nodup_map hharm.nodup hqrep.next_eq hprep.next_eq hright.symm)
    · rw [hpgap] at ht
      rw [hqgap] at ht'
      have hsame := row_eq_of_mem_gap hnodup (List.mem_of_getElem? hqrep.row_eq)
        (List.mem_of_getElem? hprep.row_eq) ht' ht
      exact eq_of_nodup_map hharm.nodup hqrep.row_eq hprep.row_eq (by rw [hsame])
  subst hjk
  obtain rfl := Option.some.inj (hqrep.row_eq.symm.trans hprep.row_eq)
  obtain rfl := Option.some.inj (hqrep.next_eq.symm.trans hprep.next_eq)
  refine ⟨by rw [hprep.left, hqrep.left], by rw [hprep.right, hqrep.right], ?_⟩
  rw [hpgap, hqgap]
  exact hharm.agree p hp q hq other (List.mem_of_getElem? hqrep.row_eq) hpmends hqmends

/-- The tokens that are replaced are those of the gaps that problems mend. -/
theorem isReplaced_iff {t : Token} : isReplaced problems layout.tokens t = true ↔
    ∃ p ∈ problems, ∃ row ∈ layout.rows, p.Mends row ∧ t ∈ row.gap := by
  simp only [isReplaced, List.any_eq_true, Bool.and_eq_true, List.contains_iff_mem]
  constructor
  · rintro ⟨p, hp, hfixable, ht⟩
    obtain ⟨k, row, next, hrep, hmends, hgap⟩ := exists_row_of_fixable hnodup hharm hp hfixable
    exact ⟨p, hp, row, List.mem_of_getElem? hrep.row_eq, hmends, hgap ▸ ht⟩
  · rintro ⟨p, hp, row, hrow, hmends, ht⟩
    refine ⟨p, hp, hmends.1, ?_⟩
    rwa [gapIn_eq_of_mends hnodup hharm hp hrow hmends]

/-- Nothing is put behind a blank. -/
theorem replacementBehind_of_blank {t : Token} (ht : t ∈ layout.tokens)
    (hblank : t.kind.isBlank = true) : replacementBehind problems layout.tokens t = "" := by
  rw [replacementBehind]
  split
  · rfl
  · rename_i p hfind
    have hp := List.find?_some hfind
    simp only [Bool.and_eq_true, beq_iff_eq] at hp
    obtain ⟨k, row, next, hrep, _, _⟩ :=
      exists_row_of_fixable hnodup hharm (List.mem_of_find?_eq_some hfind) hp.1
    have hhead : row.head ∈ layout.tokens :=
      Layout.mem_tokens (List.mem_of_getElem? hrep.row_eq) List.mem_cons_self
    have hsame : row.head = t :=
      List.inj_on_of_nodup_map hnodup hhead ht (hrep.left.symm.trans hp.2)
    have hsolid := row.solid
    rw [hsame, hblank] at hsolid
    cases hsolid

/-- A blank that is not replaced keeps its text. -/
theorem substitute_of_blank {t : Token} (ht : t ∈ layout.tokens) (hblank : t.kind.isBlank = true)
    (hkept : ¬ isReplaced problems layout.tokens t = true) :
    substitute problems layout.tokens t = t.text := by
  rw [substitute, if_neg hkept, replacementBehind_of_blank hnodup hharm ht hblank,
    String.append_empty]

/-- A row's repair is put behind its token. -/
theorem replacementBehind_head {p : Problem} (hp : p ∈ problems) {row : Row}
    (hrow : row ∈ layout.rows) (hmends : p.Mends row) :
    replacementBehind problems layout.tokens row.head =
      String.join ((p.rule.repair row.gap).map GapPiece.text) := by
  rw [replacementBehind]
  split
  · rename_i hfind
    have hnone := List.find?_eq_none.mp hfind p hp
    simp [hmends.1, hmends.2] at hnone
  · rename_i q hfind
    have hfound := List.find?_some hfind
    simp only [Bool.and_eq_true, beq_iff_eq] at hfound
    have hq := List.mem_of_find?_eq_some hfind
    rw [gapIn_eq_of_mends hnodup hharm hq hrow hfound, hharm.agree q hq p hp row hrow hfound hmends]

omit hnodup hharm in
/-- A row without a problem gets nothing. -/
theorem replacementBehind_head_of_none {row : Row} (hnone : ∀ p ∈ problems, ¬ p.Mends row) :
    replacementBehind problems layout.tokens row.head = "" := by
  rw [replacementBehind]
  split
  · rfl
  · rename_i q hfind
    have hfound := List.find?_some hfind
    simp only [Bool.and_eq_true, beq_iff_eq] at hfound
    exact absurd hfound (hnone q (List.mem_of_find?_eq_some hfind))

/-- Before the first row nothing is substituted. -/
theorem substitute_of_mem_lead {t : Token} (ht : t ∈ layout.lead) :
    substitute problems layout.tokens t = t.text := by
  apply substitute_of_blank hnodup hharm (List.mem_append_left _ ht) (layout.blank t ht)
  rw [isReplaced_iff hnodup hharm]
  rintro ⟨p, _, row, hrow, _, hmem⟩
  exact not_mem_gap_of_mem_lead hnodup ht hrow hmem

/-- Tokens of content keep their texts. -/
theorem isReplaced_head {row : Row} : isReplaced problems layout.tokens row.head = false := by
  rw [Bool.eq_false_iff, ne_eq, isReplaced_iff hnodup hharm]
  rintro ⟨_, _, other, _, _, hmem⟩
  exact Bool.false_ne_true (row.solid.symm.trans (other.blank _ hmem))

/-- A row is substituted by what a pass makes of it. -/
theorem join_substitute_row {row row' : Row} (hrow : row ∈ layout.rows)
    (hmended : Mended problems row row') :
    String.join ((row.head :: row.gap).map (substitute problems layout.tokens)) =
      String.join ((row'.head :: row'.gap).map Token.text) := by
  have hmem : ∀ t ∈ row.gap, t ∈ layout.tokens := fun t ht =>
    Layout.mem_tokens hrow (List.mem_cons_of_mem _ ht)
  have hhead : substitute problems layout.tokens row.head =
      row.head.text ++ replacementBehind problems layout.tokens row.head := by
    rw [substitute, isReplaced_head hnodup hharm]
    rfl
  rw [List.map_cons, List.map_cons, String.join_cons, String.join_cons, hhead, hmended.head,
    String.append_assoc]
  congr 1
  by_cases hdone : ∃ p ∈ problems, p.Mends row
  · obtain ⟨p, hp, hmends⟩ := hdone
    have hgap : row.gap.map (substitute problems layout.tokens) = row.gap.map fun _ => "" := by
      refine List.map_congr_left fun t ht => ?_
      have hreplaced := (isReplaced_iff hnodup hharm).mpr ⟨p, hp, row, hrow, hmends, ht⟩
      rw [substitute, if_pos hreplaced,
        replacementBehind_of_blank hnodup hharm (hmem t ht) (row.blank t ht), String.append_empty]
    have hnothing : String.join (row.gap.map fun _ => "") = "" := by
      rw [← String.toList_inj, String.toList_join]
      simp
    rw [replacementBehind_head hnodup hharm hp hrow hmends, ← hmended.repaired p hp hmends,
      Gap.map_text_pieces, hgap, hnothing, String.append_empty]
  · have hnone : ∀ p ∈ problems, ¬ p.Mends row := fun p hp hmends => hdone ⟨p, hp, hmends⟩
    rw [replacementBehind_head_of_none hnone, String.empty_append, hmended.untouched hnone]
    refine congrArg String.join (List.map_congr_left fun t ht => ?_)
    apply substitute_of_blank hnodup hharm (hmem t ht) (row.blank t ht)
    rw [isReplaced_iff hnodup hharm]
    rintro ⟨p, hp, other, hother, hmends, ht'⟩
    exact hnone p hp (row_eq_of_mem_gap hnodup hrow hother ht ht' ▸ hmends)

/-- The text at the end of a pass is that of the substitution. -/
theorem Progress.render_eq_substituted {rows : List Row} {final : TokenStream}
    (h : Progress layout problems rows final) :
    final.render = substituted problems layout.tokens := by
  have hrows : List.Forall₂ (fun row row' : Row =>
      String.join ((row.head :: row.gap).map (substitute problems layout.tokens)) =
        String.join ((row'.head :: row'.gap).map Token.text)) layout.rows rows := by
    rw [List.forall₂_iff_get]
    refine ⟨h.length_eq.symm, fun k hk hk' => ?_⟩
    exact join_substitute_row hnodup hharm (List.get_mem _ _)
      (h.mended (List.getElem?_eq_getElem hk) (List.getElem?_eq_getElem hk'))
  have hlead : layout.lead.map (substitute problems layout.tokens) =
      layout.lead.map Token.text :=
    List.map_congr_left fun t ht => substitute_of_mem_lead hnodup hharm ht
  rw [TokenStream.render, h.tokens_eq, renderTokens_eq_join, substituted, List.map_append,
    String.join_append, ← Row.join_map_eq_of_forall₂ hrows, ← hlead, ← String.join_append,
    ← List.map_append]
  rfl

end Gaps

/-! ## Runs over a lexed manifest -/

namespace Linter

/-- The text of a run in fix mode is the original with the gap of every problem that can be
repaired replaced by its rule's repair, all at once. The anchors of each such problem enclose its
gap, gaps that touch are one gap with one repair, and blanks in no such gap stay as they are. -/
theorem run_fix_eq_substituted (linter : Linter) {source : String} {s : TokenStream}
    (hlex : lex source = .ok s) :
    ∃ report, linter.run source .fix = .ok report ∧
      report.output = substituted (linter.detect s) s.tokens ∧
      (∀ p ∈ linter.detect s, p.fixable = true → ∃ xs l r ys,
        s.tokens = xs ++ l :: (p.gapIn s.tokens ++ r :: ys) ∧ l.id = p.anchors.left ∧
          r.id = p.anchors.right) ∧
      (∀ p ∈ linter.detect s, ∀ q ∈ linter.detect s, p.fixable = true → q.fixable = true →
        (p.anchors.left = q.anchors.left ∨ p.anchors.right = q.anchors.right ∨
          ∃ t ∈ p.gapIn s.tokens, t ∈ q.gapIn s.tokens) →
        p.anchors.left = q.anchors.left ∧ p.anchors.right = q.anchors.right ∧
          p.rule.repair (p.gapIn s.tokens) = q.rule.repair (q.gapIn s.tokens)) ∧
      ∀ xs t ys, s.tokens = xs ++ t :: ys → t.kind.isBlank = true →
        (∀ p ∈ linter.detect s, p.fixable = true → t ∉ p.gapIn s.tokens) →
        report.output = String.join (xs.map (substitute (linter.detect s) s.tokens)) ++ t.text ++
          String.join (ys.map (substitute (linter.detect s) s.tokens)) := by
  obtain ⟨layout, rows, htokens, hlexes, hprogress⟩ := linter.exists_mended_rows hlex
  have hnodup := hlexes.nodup
  have hharm := @harmonious_detect _ _ hlexes linter.checks linter.settings
  have hrender := hprogress.render_eq_substituted hnodup hharm
  rw [detect, htokens]
  refine ⟨_, linter.run_fix_eq hlex, hrender, ?_, ?_, ?_⟩
  · intro p hp hfixable
    obtain ⟨k, row, next, hrep, _, hgap⟩ := exists_row_of_fixable hnodup hharm hp hfixable
    exact ⟨_, row.head, next.head, _, hgap ▸ Layout.tokens_eq_of_getElem? hrep.row_eq hrep.next_eq,
      hrep.left.symm, hrep.right.symm⟩
  · intro p hp q hq hpf hqf hshared
    exact same_gap_of_shared hnodup hharm hp hq hpf hqf hshared
  · intro xs t ys hsplit hblank houtside
    have hkept : ¬ isReplaced (ManifestSpacing.detect layout.tokens linter.checks linter.settings)
        layout.tokens t = true := by
      simp only [isReplaced, List.any_eq_true, Bool.and_eq_true, List.contains_iff_mem]
      rintro ⟨p, hp, hfixable, hmem⟩
      exact houtside p hp hfixable hmem
    have hsame := substitute_of_blank hnodup hharm (by simp [hsplit]) hblank hkept
    refine hrender.trans ?_
    rw [substituted_eq_of_split hsplit, hsame]

/-- Two problems that share the gap between two closing braces are substituted by one repair. -/
theorem run_fix_eq_substituted_shared_gap :
    ∃ s, lex "\x7b\x7b\x7d\t\x7d" = .ok s ∧ ∃ report,
      standard.run "\x7b\x7b\x7d\t\x7d" .fix = .ok report ∧
      report.output = substituted (standard.detect s) s.tokens ∧
      (∀ p ∈ standard.detect s, p.fixable = true → ∃ xs l r ys,
        s.tokens = xs ++ l :: (p.gapIn s.tokens ++ r :: ys) ∧ l.id = p.anchors.left ∧
          r.id = p.anchors.right) ∧
      (∀ p ∈ standard.detect s, ∀ q ∈ standard.detect s, p.fixable = true → q.fixable = true →
        (p.anchors.left = q.anchors.left ∨ p.anchors.right = q.anchors.right ∨
          ∃ t ∈ p.gapIn s.tokens, t ∈ q.gapIn s.tokens) →
        p.anchors.left = q.anchors.left ∧ p.anchors.right = q.anchors.right ∧
          p.rule.repair (p.gapIn s.tokens) = q.rule.repair (q.gapIn s.tokens)) ∧
      ∀ xs t ys, s.tokens = xs ++ t :: ys → t.kind.isBlank = true →
        (∀ p ∈ standard.detect s, p.fixable = true → t ∉ p.gapIn s.tokens) →
        report.output = String.join (xs.map (substitute (standard.detect s) s.tokens)) ++ t.text ++
          String.join (ys.map (substitute (standard.detect s) s.tokens)) := by
  have hlex : lex "\x7b\x7b\x7d\t\x7d" = .ok ⟨[⟨0, .openBrace, "\x7b", ⟨1, 1⟩⟩,
      ⟨1, .openBrace, "\x7b", ⟨1, 2⟩⟩, ⟨2, .closeBrace, "\x7d", ⟨1, 3⟩⟩,
      ⟨3, .whitespace, "\t", ⟨1, 4⟩⟩, ⟨4, .closeBrace, "\x7d", ⟨1, 5⟩⟩], 5⟩ := by cbv
  exact ⟨_, hlex, run_fix_eq_substituted standard hlex⟩

end Linter

end ManifestSpacing
