import ManifestSpacing.Lint.Linter
import ManifestSpacing.Proofs.Gap.Repairs
import ManifestSpacing.Proofs.Lexical.Places
import ManifestSpacing.Proofs.Structure.Matching
import ManifestSpacing.Proofs.Token.Finding

/-!
# One repair

A repair finds its gap by the identities of the tokens around it. Either it
replaces the blanks between them by fresh tokens, which then stand where the
gap started, or it changes nothing. Where identities are distinct, the anchors
of a problem are found whatever its hint.
-/

namespace ManifestSpacing

namespace Gap

theorem between_append (xs : List Token) (l : Token) (gap : Gap) (r : Token) (ys : List Token) :
    between (xs ++ l :: (gap ++ r :: ys)) xs.length (xs.length + 1 + gap.length) = gap :=
  drop_take_append xs l gap r ys

/-- Tokens split at two of them, with the gap in between. -/
theorem exists_split {tokens : List Token} {left right : Nat} {l r : Token}
    (hl : tokens[left]? = some l) (hr : tokens[right]? = some r) (hlt : left < right) :
    ∃ xs ys, xs.length = left ∧ tokens = xs ++ l :: (between tokens left right ++ r :: ys) ∧
      right = left + 1 + (between tokens left right).length :=
  exists_split_of_lt hl hr hlt

end Gap

namespace TokenStream

theorem map_id_freshTokens (position : Position) (id : TokenId) (pieces : List GapPiece) :
    (freshTokens position id pieces).map Token.id = List.range' id pieces.length := by
  induction pieces generalizing id with
  | nil => rfl
  | cons piece pieces ih => rw [freshTokens, List.map_cons, ih, List.length_cons, List.range'_succ]

/-- A repair that replaces the gap between two tokens. -/
structure Replaces (s : TokenStream) (p : Problem) (xs : List Token) (l : Token) (gap : Gap)
    (r : Token) (ys : List Token) : Prop where
  tokens_eq : s.tokens = xs ++ l :: (gap ++ r :: ys)
  left : l.id = p.anchors.left
  right : r.id = p.anchors.right
  blank : gap.IsBlank
  rejects : p.rule.accepts gap = false
  /-- No line comment loses its line end. -/
  line : l.isLineComment = true → (p.rule.repair gap).any GapPiece.isNewline = true
  /-- Fresh tokens take the position at which the gap started. -/
  fix_eq : s.fix p = ⟨.fixed gap.length (p.rule.repair gap).length,
    ⟨xs ++ l :: (freshTokens (gap.headD r).position s.nextId (p.rule.repair gap) ++ r :: ys),
      s.nextId + (p.rule.repair gap).length⟩, { p with fixed := true }⟩

section Rewriting

variable {s : TokenStream} {p : Problem} {xs ys : List Token} {l r : Token} {gap : Gap}
  (htokens : s.tokens = xs ++ l :: (gap ++ r :: ys))

include htokens

/-- Blanks between two tokens can be replaced by any pieces. -/
theorem replaceGap_append (hblank : gap.IsBlank) (pieces : List GapPiece) :
    s.replaceGap (xs.length + 1) (xs.length + 1 + gap.length) pieces =
      (.ok (), ⟨xs ++ l :: (freshTokens (gap.headD r).position s.nextId pieces ++ r :: ys),
        s.nextId + pieces.length⟩) := by
  have hfind : (Gap.between s.tokens xs.length (xs.length + 1 + gap.length)).find?
      (fun t => !t.kind.isBlank) = none := by
    rw [htokens, Gap.between_append, List.find?_eq_none]
    intro t ht
    simp [hblank t ht]
  have hinside : xs.length + 1 ≤ xs.length + 1 + gap.length ∧
      xs.length + 1 + gap.length ≤ s.tokens.length := by
    rw [htokens]
    simp only [List.length_append, List.length_cons]
    omega
  have htake : s.tokens.take (xs.length + 1) = xs ++ [l] := by
    rw [htokens, show xs ++ l :: (gap ++ r :: ys) = (xs ++ [l]) ++ (gap ++ r :: ys) by simp,
      show xs.length + 1 = (xs ++ [l]).length by simp, List.take_left]
  have hdrop : s.tokens.drop (xs.length + 1 + gap.length) = r :: ys := by
    rw [htokens, show xs ++ l :: (gap ++ r :: ys) = (xs ++ l :: gap) ++ (r :: ys) by simp,
      show xs.length + 1 + gap.length = (xs ++ l :: gap).length by simp; omega, List.drop_left]
  have hspot : s.tokens[xs.length + 1]? = some (gap.headD r) := by
    rw [htokens, List.getElem?_append_right (by omega), Nat.add_sub_cancel_left,
      List.getElem?_cons_succ]
    cases gap <;> rfl
  rw [Gap.between] at hfind
  simp only [replaceGap, if_pos hinside, hfind, htake, hdrop, hspot, Option.elim_some]
  simp

variable (hleft : s.positionNear? p.anchors.left p.anchors.hint = some xs.length)
  (hright : s.positionNear? p.anchors.right (xs.length + 1) = some (xs.length + 1 + gap.length))

include hleft hright

/-- Between anchors that are found, a repair looks at the gap and the token before it alone. -/
private theorem fix_of_found : s.fix p =
    if p.rule.accepts gap then ⟨.alreadyFixed, s, { p with fixed := true }⟩
    else if gap.any fun t => !t.kind.isBlank then ⟨.refused .commentInGap, s, p⟩
    else if l.isLineComment && !(p.rule.repair gap).any GapPiece.isNewline then
      ⟨.refused .wouldJoinLineComment, s, p⟩
    else ⟨.fixed gap.length (p.rule.repair gap).length,
      ⟨xs ++ l :: (freshTokens (gap.headD r).position s.nextId (p.rule.repair gap) ++ r :: ys),
        s.nextId + (p.rule.repair gap).length⟩, { p with fixed := true }⟩ := by
  have hgap : Gap.between s.tokens xs.length (xs.length + 1 + gap.length) = gap := by
    rw [htokens, Gap.between_append]
  have horder : ¬ xs.length + 1 + gap.length ≤ xs.length := by omega
  have hget : s.tokens[xs.length]? = some l := by simp [htokens]
  by_cases haccepts : p.rule.accepts gap = true
  · simp only [fix, rewriteGap, hleft, hright, if_neg horder, hgap, haccepts, if_true,
      RepairOutcome.isFixed]
  by_cases hcontent : (gap.any fun t => !t.kind.isBlank) = true
  · simp only [fix, rewriteGap, hleft, hright, if_neg horder, hgap, if_neg haccepts, hcontent,
      if_true, RepairOutcome.isFixed, Bool.false_eq_true, if_false]
  by_cases hjoin : (l.isLineComment && !(p.rule.repair gap).any GapPiece.isNewline) = true
  · simp only [fix, rewriteGap, hleft, hright, if_neg horder, hgap, if_neg haccepts,
      if_neg hcontent, hget, Option.any_some, hjoin, if_true, RepairOutcome.isFixed,
      Bool.false_eq_true, if_false]
  have hblank : gap.IsBlank := by
    intro t ht
    simpa using List.any_eq_false.mp (Bool.eq_false_iff.mpr hcontent) t ht
  simp only [fix, rewriteGap, hleft, hright, if_neg horder, hgap, if_neg haccepts,
    if_neg hcontent, hget, Option.any_some, if_neg hjoin, replaceGap_append htokens hblank,
    RepairOutcome.isFixed, if_true]
  rw [show xs.length + 1 + gap.length - xs.length - 1 = gap.length by omega]

/-- Between anchors that are found, blanks that break the rule are replaced. -/
private theorem replaces_of_found (hl : l.id = p.anchors.left) (hr : r.id = p.anchors.right)
    (hrejects : p.rule.accepts gap = false) (hblank : gap.IsBlank)
    (hline : l.isLineComment = true → (p.rule.repair gap).any GapPiece.isNewline = true) :
    s.Replaces p xs l gap r ys := by
  have hcontent : (gap.any fun t => !t.kind.isBlank) = false := by
    rw [List.any_eq_false]
    intro t ht
    simp [hblank t ht]
  have hjoin : (l.isLineComment && !(p.rule.repair gap).any GapPiece.isNewline) = false := by
    cases hcomment : l.isLineComment with
    | false => rfl
    | true => simp [hline hcomment]
  refine ⟨htokens, hl, hr, hblank, hrejects, hline, ?_⟩
  simp only [fix_of_found htokens hleft hright, hrejects, hcontent, hjoin, Bool.false_eq_true,
    if_false]

end Rewriting

/-! ## Anchors in a stream with distinct identities -/

section Distinct

variable {s : TokenStream} {p : Problem} {xs ys : List Token} {l r : Token} {gap : Gap}
  (htokens : s.tokens = xs ++ l :: (gap ++ r :: ys)) (hnodup : (s.tokens.map Token.id).Nodup)
  (hl : l.id = p.anchors.left) (hr : r.id = p.anchors.right)

include htokens hnodup hl hr

private theorem find_anchors (hint : Nat) :
    s.positionNear? p.anchors.left p.anchors.hint = some xs.length ∧
      s.positionNear? p.anchors.right hint = some (xs.length + 1 + gap.length) := by
  rw [← hl, ← hr]
  constructor
  · exact positionNear?_eq_some hnodup (by simp [htokens]) _
  · apply positionNear?_eq_some hnodup
    rw [htokens, List.getElem?_append_right (by omega),
      show xs.length + 1 + gap.length - xs.length = gap.length + 1 by omega,
      List.getElem?_cons_succ, List.getElem?_append_right (by omega), Nat.sub_self]
    rfl

/-- Between its anchors a repair looks at the gap and the token before it alone, whatever the
hint. -/
theorem fix_of_distinct : s.fix p =
    if p.rule.accepts gap then ⟨.alreadyFixed, s, { p with fixed := true }⟩
    else if gap.any fun t => !t.kind.isBlank then ⟨.refused .commentInGap, s, p⟩
    else if l.isLineComment && !(p.rule.repair gap).any GapPiece.isNewline then
      ⟨.refused .wouldJoinLineComment, s, p⟩
    else ⟨.fixed gap.length (p.rule.repair gap).length,
      ⟨xs ++ l :: (freshTokens (gap.headD r).position s.nextId (p.rule.repair gap) ++ r :: ys),
        s.nextId + (p.rule.repair gap).length⟩, { p with fixed := true }⟩ := by
  obtain ⟨hleft, hright⟩ := find_anchors htokens hnodup hl hr (xs.length + 1)
  exact fix_of_found htokens hleft hright

/-- A problem whose rule the gap satisfies is marked as fixed and nothing is changed. -/
theorem fix_of_accepts (haccepts : p.rule.accepts gap = true) :
    s.fix p = ⟨.alreadyFixed, s, { p with fixed := true }⟩ := by
  rw [fix_of_distinct htokens hnodup hl hr, if_pos haccepts]

/-- A blank gap that the rule rejects is replaced, unless this would lengthen a line comment. -/
theorem replaces_of_rejects (hrejects : p.rule.accepts gap = false) (hblank : gap.IsBlank)
    (hline : l.isLineComment = true → (p.rule.repair gap).any GapPiece.isNewline = true) :
    s.Replaces p xs l gap r ys := by
  obtain ⟨hleft, hright⟩ := find_anchors htokens hnodup hl hr (xs.length + 1)
  exact replaces_of_found htokens hleft hright hl hr hrejects hblank hline

end Distinct

/-! ## Any problem in any stream -/

/-- A repair finds both anchors in order, or it is refused for want of them. -/
theorem fix_found_or_missing (s : TokenStream) (p : Problem) :
    s.fix p = ⟨.refused .anchorMissing, s, p⟩ ∨
      ∃ xs l gap r ys, s.tokens = xs ++ l :: (gap ++ r :: ys) ∧
        l.id = p.anchors.left ∧ r.id = p.anchors.right ∧
        s.positionNear? p.anchors.left p.anchors.hint = some xs.length ∧
        s.positionNear? p.anchors.right (xs.length + 1) = some (xs.length + 1 + gap.length) := by
  cases hleft : s.positionNear? p.anchors.left p.anchors.hint with
  | none => exact Or.inl (by simp [fix, rewriteGap, hleft, RepairOutcome.isFixed])
  | some left =>
    cases hright : s.positionNear? p.anchors.right (left + 1) with
    | none => exact Or.inl (by simp [fix, rewriteGap, hleft, hright, RepairOutcome.isFixed])
    | some right =>
      by_cases horder : right ≤ left
      · exact Or.inl (by simp [fix, rewriteGap, hleft, hright, horder, RepairOutcome.isFixed])
      obtain ⟨l, hl, hlid⟩ := exists_token_of_positionNear? hleft
      obtain ⟨r, hr, hrid⟩ := exists_token_of_positionNear? hright
      obtain ⟨xs, ys, rfl, htokens, hlen⟩ := Gap.exists_split hl hr (Nat.lt_of_not_le horder)
      exact Or.inr ⟨xs, l, _, r, ys, htokens, hlid, hrid, rfl, hlen ▸ hright⟩

/-- Every repair replaces a gap or leaves the stream as it is. -/
theorem fix_cases (s : TokenStream) (p : Problem) :
    ((s.fix p).stream = s ∧ Linter.growth (s.fix p).outcome = 0) ∨
      ∃ xs l gap r ys, s.Replaces p xs l gap r ys := by
  rcases s.fix_found_or_missing p with hmissing |
    ⟨xs, l, gap, r, ys, htokens, hl, hr, hleft, hright⟩
  · rw [hmissing]
    exact Or.inl ⟨rfl, rfl⟩
  have hfix := fix_of_found htokens hleft hright
  split at hfix
  · rw [hfix]
    exact Or.inl ⟨rfl, rfl⟩
  rename_i haccepts
  split at hfix
  · rw [hfix]
    exact Or.inl ⟨rfl, rfl⟩
  rename_i hcontent
  split at hfix
  · rw [hfix]
    exact Or.inl ⟨rfl, rfl⟩
  rename_i hjoin
  refine Or.inr ⟨xs, l, gap, r, ys, htokens, hl, hr, fun t ht => ?_, Bool.eq_false_iff.mpr haccepts,
    fun hcomment => ?_, hfix⟩
  · simpa using List.any_eq_false.mp (Bool.eq_false_iff.mpr hcontent) t ht
  · simpa [hcomment] using hjoin

/-- Repairs some problems in turn, each under the hint that it has. -/
def fixEach (s : TokenStream) : List Problem → TokenStream × List Problem
  | [] => (s, [])
  | p :: ps =>
    let repair := s.fix p
    let (final, rest) := repair.stream.fixEach ps
    (final, repair.problem :: rest)

theorem fixEach_cons (s : TokenStream) (p : Problem) (ps : List Problem) :
    s.fixEach (p :: ps) = (((s.fix p).stream.fixEach ps).1,
      (s.fix p).problem :: ((s.fix p).stream.fixEach ps).2) := rfl

/-! ## Identities -/

/-- Words of 32 bits tell identities apart that are below their number. -/
theorem toUInt32_inj {i j : TokenId} (hi : i < UInt32.size) (hj : j < UInt32.size) :
    i.toUInt32 = j.toUInt32 ↔ i = j := by
  rw [← UInt32.toNat_inj]
  simp only [Nat.toUInt32, UInt32.toNat_ofNat_of_lt' hi, UInt32.toNat_ofNat_of_lt' hj]

/-- Whether identities in use are distinct and have all been handed out. -/
structure Numbered (s : TokenStream) : Prop where
  nodup : (s.tokens.map Token.id).Nodup
  below : ∀ t ∈ s.tokens, t.id < s.nextId

/-- A lexed stream is numbered. -/
theorem Numbered.of_lex {source : String} {s : TokenStream} (hlex : lex source = .ok s) :
    s.Numbered := by
  obtain ⟨hlexes, _, hid⟩ := lex_eq_ok_iff.mp hlex
  refine ⟨hlexes.nodup, fun t ht => ?_⟩
  have hlt := hlexes.id_lt t ht
  rwa [Nat.zero_add, ← hid] at hlt

/-- A token of a stream with fresh tokens in it is fresh or was there before. -/
theorem mem_replace {xs ys : List Token} {position : Position} {id : TokenId}
    {pieces : List GapPiece} (gap : Gap) {t : Token}
    (ht : t ∈ xs ++ (freshTokens position id pieces ++ ys)) :
    (id ≤ t.id ∧ t.id < id + pieces.length) ∨ t ∈ xs ++ (gap ++ ys) := by
  simp only [List.mem_append] at ht ⊢
  rcases ht with ht | ht | ht
  · exact Or.inr (Or.inl ht)
  · have hid := List.mem_map_of_mem (f := Token.id) ht
    rw [map_id_freshTokens, List.mem_range'_1] at hid
    exact Or.inl hid
  · exact Or.inr (Or.inr (Or.inr ht))

/-- Fresh tokens in the place of others keep a stream numbered. -/
theorem Numbered.replace {s : TokenStream} (h : s.Numbered) {xs ys : List Token} {gap : Gap}
    (htokens : s.tokens = xs ++ (gap ++ ys)) (position : Position) (pieces : List GapPiece) :
    Numbered ⟨xs ++ (freshTokens position s.nextId pieces ++ ys), s.nextId + pieces.length⟩ := by
  have hbelow := h.below
  have hnodup := h.nodup
  rw [htokens] at hbelow hnodup
  constructor
  · have hkept : ((xs ++ ys).map Token.id).Nodup :=
      hnodup.sublist (List.Sublist.map _ ((List.sublist_append_right gap ys).append_left xs))
    -- moving the fresh tokens to the front leaves two lists that share no identity
    have hperm : (xs ++ (freshTokens position s.nextId pieces ++ ys)).Perm
        (freshTokens position s.nextId pieces ++ (xs ++ ys)) := by
      rw [← List.append_assoc, ← List.append_assoc]
      exact List.perm_append_comm.append_right _
    rw [(hperm.map Token.id).nodup_iff, List.map_append, List.nodup_append, map_id_freshTokens]
    refine ⟨List.nodup_range', hkept, fun i hi j hj heq => ?_⟩
    obtain ⟨t, ht, rfl⟩ := List.mem_map.mp hj
    have hold : t.id < s.nextId := by
      apply hbelow
      simp only [List.mem_append] at ht ⊢
      exact ht.imp_right Or.inr
    rw [List.mem_range'_1] at hi
    exact absurd heq.symm (Nat.ne_of_lt (Nat.lt_of_lt_of_le hold hi.1))
  · intro t ht
    rcases mem_replace gap ht with hid | hold
    · exact hid.2
    · exact Nat.lt_of_lt_of_le (hbelow t hold) (Nat.le_add_right _ _)

/-- A repair keeps a stream numbered. -/
theorem Replaces.numbered {s : TokenStream} {p : Problem} {xs ys : List Token} {l r : Token}
    {gap : Gap} (h : s.Replaces p xs l gap r ys) (hs : s.Numbered) :
    (s.fix p).stream.Numbered := by
  rw [h.fix_eq, List.append_cons]
  exact hs.replace (h.tokens_eq.trans (List.append_cons _ _ _)) _ _

end TokenStream

end ManifestSpacing
