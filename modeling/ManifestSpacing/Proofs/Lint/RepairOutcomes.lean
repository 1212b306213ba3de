import Mathlib.Data.List.Nodup
import ManifestSpacing.Proofs.Lint.OneRepair

/-!
# What the outcome of a repair tells

On a stream with distinct identities the outcome of a repair is decided by the
tokens between the anchors and the token before them, whatever the problem
and its hint. A refusal leaves everything as it was. Any other outcome means
that the rule holds between the anchors afterwards, so that a second repair
has nothing left to do.
-/

namespace ManifestSpacing

namespace TokenStream

/-- A gap of a stream between the anchors of a problem. -/
structure Frames (s : TokenStream) (p : Problem) (xs : List Token) (l : Token) (gap : Gap)
    (r : Token) (ys : List Token) : Prop where
  tokens_eq : s.tokens = xs ++ l :: (gap ++ r :: ys)
  left : l.id = p.anchors.left
  right : r.id = p.anchors.right

namespace Frames

variable {s : TokenStream} {p : Problem} {xs ys : List Token} {l r : Token} {gap : Gap}
  (h : s.Frames p xs l gap r ys)

include h

theorem getElem?_left : s.tokens[xs.length]? = some l := by
  simp [h.tokens_eq]

theorem getElem?_right : s.tokens[xs.length + 1 + gap.length]? = some r := by
  rw [h.tokens_eq, List.getElem?_append_right (by omega),
    show xs.length + 1 + gap.length - xs.length = gap.length + 1 by omega,
    List.getElem?_cons_succ, List.getElem?_append_right (by omega), Nat.sub_self]
  rfl

end Frames

/-- Whether an anchor of a problem is absent, or the left one does not precede the right one. -/
def LacksAnchors (s : TokenStream) (p : Problem) : Prop :=
  (∀ t ∈ s.tokens, t.id ≠ p.anchors.left) ∨ (∀ t ∈ s.tokens, t.id ≠ p.anchors.right) ∨
    ∃ (i j : Nat) (l r : Token), s.tokens[i]? = some l ∧ l.id = p.anchors.left ∧
      s.tokens[j]? = some r ∧ r.id = p.anchors.right ∧ j ≤ i

/-- The anchors of a problem stand around a gap unless the stream lacks them. -/
theorem exists_frames_of_not_lacksAnchors {s : TokenStream} {p : Problem}
    (h : ¬ s.LacksAnchors p) : ∃ xs l gap r ys, s.Frames p xs l gap r ys := by
  simp only [LacksAnchors, not_or, not_forall, not_exists, not_and, not_not] at h
  obtain ⟨⟨l, hl, hlid⟩, ⟨r, hr, hrid⟩, horder⟩ := h
  obtain ⟨i, hi⟩ := List.getElem?_of_mem hl
  obtain ⟨j, hj⟩ := List.getElem?_of_mem hr
  have hlt : i < j := Nat.lt_of_not_le (horder i j l r hi hlid hj hrid)
  obtain ⟨xs, ys, _, htokens, _⟩ := Gap.exists_split hi hj hlt
  exact ⟨xs, l, _, r, ys, htokens, hlid, hrid⟩

/-- Where identities are distinct, anchors around a gap are nowhere else. -/
theorem Frames.not_lacksAnchors {s : TokenStream} {p : Problem} {xs ys : List Token} {l r : Token}
    {gap : Gap} (h : s.Frames p xs l gap r ys) (hnodup : (s.tokens.map Token.id).Nodup) :
    ¬ s.LacksAnchors p := by
  rintro (habsent | habsent | ⟨i, j, l', r', hl, hlid, hr, hrid, hle⟩)
  · exact habsent l (List.mem_of_getElem? h.getElem?_left) h.left
  · exact habsent r (List.mem_of_getElem? h.getElem?_right) h.right
  · have hi := eq_of_nodup_map hnodup hl h.getElem?_left (hlid.trans h.left.symm)
    have hj := eq_of_nodup_map hnodup hr h.getElem?_right (hrid.trans h.right.symm)
    omega

/-- Without its anchors a repair is refused. -/
theorem fix_of_lacksAnchors {s : TokenStream} {p : Problem}
    (hnodup : (s.tokens.map Token.id).Nodup) (h : s.LacksAnchors p) :
    s.fix p = ⟨.refused .anchorMissing, s, p⟩ := by
  rcases s.fix_found_or_missing p with hmissing | ⟨xs, l, gap, r, ys, htokens, hl, hr, _⟩
  · exact hmissing
  · exact absurd h (Frames.not_lacksAnchors ⟨htokens, hl, hr⟩ hnodup)

/-- Whether the identities of a gap, as words of 32 bits, are distinct and are none of those that a
stream has handed out. -/
structure FreshWords (s : TokenStream) (gap : Gap) : Prop where
  nodup : (gap.map fun t => t.id.toUInt32).Nodup
  fresh : ∀ id < s.nextId, id.toUInt32 ∉ gap.map fun t => t.id.toUInt32

/-- Consecutive identities from the next one on are fresh words while there are enough words. -/
theorem freshWords_of_range' {s : TokenStream} {gap : Gap} {inserted : Nat}
    (hids : gap.map Token.id = List.range' s.nextId inserted)
    (hfits : s.nextId + inserted < UInt32.size) : s.FreshWords gap := by
  have hwords : (gap.map fun t => t.id.toUInt32) =
      (List.range' s.nextId inserted).map Nat.toUInt32 := by
    rw [← hids, List.map_map]
    rfl
  have hsmall {i : Nat} (hi : i ∈ List.range' s.nextId inserted) : i < UInt32.size :=
    Nat.lt_trans (List.mem_range'_1.mp hi).2 hfits
  constructor
  · rw [hwords]
    exact (List.nodup_range' 1).map_on fun i hi j hj heq =>
      (toUInt32_inj (hsmall hi) (hsmall hj)).mp heq
  · intro id hid hmem
    rw [hwords] at hmem
    obtain ⟨i, hi, heq⟩ := List.mem_map.mp hmem
    have hbelow : id < UInt32.size :=
      Nat.lt_trans hid (Nat.lt_of_le_of_lt (Nat.le_add_right _ _) hfits)
    rw [(toUInt32_inj (hsmall hi) hbelow).mp heq] at hi
    exact absurd hid (Nat.not_lt_of_le (List.mem_range'_1.mp hi).1)

/-- What a repair of a problem promises. -/
structure Honours (s : TokenStream) (p : Problem) (repair : Repair) : Prop where
  /-- A refusal changes neither the stream nor the problem, and never comes from the stream. -/
  refused : ∀ reason, repair.outcome = .refused reason →
    repair.stream = s ∧ repair.problem = p ∧ ∀ error, reason ≠ .gap error
  /-- Anchors are missing exactly if one is absent or the left one does not precede the right. -/
  missing : repair.outcome = .refused .anchorMissing ↔ s.LacksAnchors p
  /-- Nothing is done where the rule holds already. -/
  alreadyFixed : repair.outcome = .alreadyFixed → repair.stream = s ∧
    ∃ xs l gap r ys, s.Frames p xs l gap r ys ∧ p.rule.accepts gap = true
  /-- Blanks that break the rule give way to fresh blanks that satisfy it, and nothing else
  changes. -/
  fixed : ∀ removed inserted, repair.outcome = .fixed removed inserted → repair.stream.Fits →
    ∃ (xs : List Token) (l : Token) (gap new : Gap) (r : Token) (ys : List Token),
      s.Frames p xs l gap r ys ∧ gap.length = removed ∧ gap.IsBlank ∧
      repair.stream.tokens = xs ++ l :: (new ++ r :: ys) ∧ new.length = inserted ∧
      new.IsBlank ∧ new.map Token.id = List.range' s.nextId inserted ∧ s.FreshWords new ∧
      repair.stream.nextId = s.nextId + inserted ∧
      p.rule.accepts gap = false ∧ p.rule.accepts new = true
  /-- The counter of identities overflows only if the words left are too few for the fresh
  blanks. -/
  overflows : s.Fits → ¬ repair.stream.Fits → ∃ removed inserted,
    repair.outcome = .fixed removed inserted ∧ UInt32.size ≤ s.nextId + inserted
  /-- A problem that is not refused is marked as fixed and otherwise kept. -/
  marked : repair.outcome.isFixed = true → repair.problem = { p with fixed := true }
  /-- A second repair has nothing to do, provided identities still to be handed out are not in
  use. -/
  again : repair.outcome.isFixed = true → repair.stream.Fits →
    (∀ t ∈ s.tokens, t.id < s.nextId) →
    repair.stream.fix repair.problem = ⟨.alreadyFixed, repair.stream, repair.problem⟩
  /-- Only content in the gap and a line comment before it keep blanks from being replaced. -/
  replaced : ∀ xs l gap r ys, s.Frames p xs l gap r ys → p.rule.accepts gap = false →
    gap.IsBlank → (l.isLineComment = true → (p.rule.repair gap).any GapPiece.isNewline = true) →
    repair.outcome = .fixed gap.length (p.rule.repair gap).length

section Distinct

variable {s : TokenStream} {p : Problem} (hnodup : (s.tokens.map Token.id).Nodup)

include hnodup

/-- A repair is refused with nothing changed, finds its rule satisfied, or replaces the gap. -/
theorem fix_outcomes :
    (∃ reason, s.fix p = ⟨.refused reason, s, p⟩ ∧ (∀ error, reason ≠ .gap error) ∧
      (reason = .anchorMissing ↔ s.LacksAnchors p)) ∨
    (s.fix p = ⟨.alreadyFixed, s, { p with fixed := true }⟩ ∧
      ∃ xs l gap r ys, s.Frames p xs l gap r ys ∧ p.rule.accepts gap = true) ∨
    ∃ xs l gap r ys, s.Replaces p xs l gap r ys := by
  by_cases hlacks : s.LacksAnchors p
  · exact Or.inl ⟨_, fix_of_lacksAnchors hnodup hlacks, nofun, iff_of_true rfl hlacks⟩
  obtain ⟨xs, l, gap, r, ys, hframes⟩ := exists_frames_of_not_lacksAnchors hlacks
  have hfix := fix_of_distinct hframes.tokens_eq hnodup hframes.left hframes.right
  by_cases haccepts : p.rule.accepts gap = true
  · rw [if_pos haccepts] at hfix
    exact Or.inr (Or.inl ⟨hfix, xs, l, gap, r, ys, hframes, haccepts⟩)
  rw [if_neg haccepts] at hfix
  by_cases hcontent : (gap.any fun t => !t.kind.isBlank) = true
  · rw [if_pos hcontent] at hfix
    exact Or.inl ⟨_, hfix, nofun, iff_of_false nofun hlacks⟩
  rw [if_neg hcontent] at hfix
  by_cases hjoin : (l.isLineComment && !(p.rule.repair gap).any GapPiece.isNewline) = true
  · rw [if_pos hjoin] at hfix
    exact Or.inl ⟨_, hfix, nofun, iff_of_false nofun hlacks⟩
  refine Or.inr (Or.inr ⟨xs, l, gap, r, ys, replaces_of_rejects hframes.tokens_eq hnodup
    hframes.left hframes.right (Bool.eq_false_iff.mpr haccepts) (fun t ht => ?_)
    fun hcomment => ?_⟩)
  · simpa using List.any_eq_false.mp (Bool.eq_false_iff.mpr hcontent) t ht
  · simpa [hcomment] using hjoin

/-- Only content in the gap and a line comment before it keep blanks from being replaced. -/
theorem outcome_fix_of_rejects (xs : List Token) (l : Token) (gap : Gap) (r : Token)
    (ys : List Token) (hframes : s.Frames p xs l gap r ys) (hrejects : p.rule.accepts gap = false)
    (hblank : gap.IsBlank)
    (hline : l.isLineComment = true → (p.rule.repair gap).any GapPiece.isNewline = true) :
    (s.fix p).outcome = .fixed gap.length (p.rule.repair gap).length := by
  rw [(replaces_of_rejects hframes.tokens_eq hnodup hframes.left hframes.right hrejects hblank
    hline).fix_eq]

private theorem honours_of_refused {reason : Refusal} (hfix : s.fix p = ⟨.refused reason, s, p⟩)
    (hgap : ∀ error, reason ≠ .gap error) (hmissing : reason = .anchorMissing ↔ s.LacksAnchors p) :
    s.Honours p (s.fix p) := by
  have hreplaced := outcome_fix_of_rejects (p := p) hnodup
  rw [hfix] at hreplaced ⊢
  refine ⟨fun reason' hreason => ?_, ?_, nofun, nofun, fun hfits hover => absurd hfits hover, nofun,
    nofun, hreplaced⟩
  · cases hreason
    exact ⟨rfl, rfl, hgap⟩
  · rw [← hmissing, RepairOutcome.refused.injEq]

private theorem Frames.honours_of_accepts {xs ys : List Token} {l r : Token} {gap : Gap}
    (h : s.Frames p xs l gap r ys) (haccepts : p.rule.accepts gap = true) :
    s.Honours p (s.fix p) := by
  have hreplaced := outcome_fix_of_rejects (p := p) hnodup
  have hagain : s.fix { p with fixed := true } = ⟨.alreadyFixed, s, { p with fixed := true }⟩ :=
    fix_of_accepts h.tokens_eq hnodup h.left h.right haccepts
  rw [fix_of_accepts h.tokens_eq hnodup h.left h.right haccepts] at hreplaced ⊢
  exact ⟨nofun, iff_of_false nofun (h.not_lacksAnchors hnodup),
    fun _ => ⟨rfl, xs, l, gap, r, ys, h, haccepts⟩, nofun, fun hfits hover => absurd hfits hover,
    fun _ => rfl, fun _ _ _ => hagain, hreplaced⟩

private theorem Replaces.honours {xs ys : List Token} {l r : Token} {gap : Gap}
    (h : s.Replaces p xs l gap r ys) : s.Honours p (s.fix p) := by
  have hframes : s.Frames p xs l gap r ys := ⟨h.tokens_eq, h.left, h.right⟩
  have hreplaced := outcome_fix_of_rejects (p := p) hnodup
  have hdistinct := fun hbelow => (h.numbered ⟨hnodup, hbelow⟩).nodup
  rw [h.fix_eq] at hreplaced hdistinct ⊢
  have hblank := isBlank_freshTokens (gap.headD r).position s.nextId (p.rule.repair gap)
  have haccepts := GapRule.accepts_of_pieces_eq_repair hblank (pieces_freshTokens _ _ _)
  refine ⟨nofun, iff_of_false nofun (hframes.not_lacksAnchors hnodup), nofun,
    fun removed inserted hfixed hfits => ?_, fun _ hover => ⟨_, _, rfl, Nat.le_of_not_lt hover⟩,
    fun _ => rfl, fun _ _ hbelow => ?_, hreplaced⟩
  · cases hfixed
    have hids := map_id_freshTokens (gap.headD r).position s.nextId (p.rule.repair gap)
    exact ⟨xs, l, gap, _, r, ys, hframes, rfl, h.blank, rfl, length_freshTokens _ _ _, hblank,
      hids, freshWords_of_range' hids hfits, rfl, h.rejects, haccepts⟩
  · exact fix_of_accepts rfl (hdistinct hbelow) h.left h.right haccepts

end Distinct

end TokenStream

end ManifestSpacing
