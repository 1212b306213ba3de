import ManifestSpacing.Proofs.Gap.Layout
import ManifestSpacing.Proofs.Lexical.Spelling

/-!
# Reading blanks back

The lexer never leaves two stretches of whitespace side by side. Blanks that
keep this and are spelled as their kinds demand are read back one by one
wherever the text behind them starts with no blank. Every repair of a gap that
was read is of this form.
-/

namespace ManifestSpacing

theorem textOf_eq_of_map_face {ts us : List Token} (h : ts.map Token.face = us.map Token.face) :
    textOf ts = textOf us := by
  have htext (ts : List Token) :
      textOf ts = (ts.map Token.face).flatMap fun face => face.2.toList := by
    rw [List.flatMap_map]
    rfl
  rw [htext, htext, h]

namespace Lexer

open Grammar

/-- Every token of a run is spelled as its kind demands. -/
theorem Lexes.spelled {opens : List OpenString} {here : Position} {id : TokenId}
    {ts : List Token} (h : Lexes opens here id ts) :
    ∀ t ∈ ts, Spelled t.kind t.text.toList := by
  induction h with
  | nil => simp
  | cons _ _ hcut _ ih =>
    intro u hu
    rcases List.mem_cons.mp hu with rfl | hu
    · exact hcut.spelled
    · exact ih u hu

/-- Pieces of a gap that the lexer reads back one by one. -/
structure Readable (pieces : List GapPiece) : Prop where
  /-- Every piece is spelled as its kind demands. -/
  spelled : ∀ piece ∈ pieces, Spelled piece.kind piece.text.toList
  /-- Of two neighbours one ends a line. -/
  apart : pieces.IsChain fun p q => p.isNewline = true ∨ q.isNewline = true

/-- The tokens of a readable gap are spelled as their kinds demand. -/
theorem Readable.spelled_of_mem {gap : Gap} (h : Readable gap.pieces) (hblank : gap.IsBlank)
    {t : Token} (ht : t ∈ gap) : Spelled t.kind t.text.toList := by
  have hspelled := h.spelled (.ofToken t) (List.mem_map_of_mem ht)
  rwa [Gap.kind_ofToken (hblank t ht), GapPiece.text_ofToken] at hspelled

/-- The pieces of a gap that was read are readable, and the run goes on behind the gap with the
same strings open. -/
theorem Lexes.readable {opens : List OpenString} {here : Position} {id : TokenId} {gap : Gap}
    {ts : List Token} (hblank : gap.IsBlank) (h : Lexes opens here id (gap ++ ts)) :
    Readable gap.pieces ∧ ∃ here' id', Lexes opens here' id' ts := by
  induction gap generalizing here id with
  | nil => exact ⟨⟨by simp [Gap.pieces], .nil⟩, here, id, h⟩
  | cons t gap ih =>
    rcases h with _ | ⟨_, _, hcut, hrest⟩
    have ht : t.kind.isBlank = true := hblank t List.mem_cons_self
    rw [hcut.after_of_isBlank ht] at hrest
    have htail : Gap.IsBlank gap := fun u hu => hblank u (List.mem_cons_of_mem _ hu)
    obtain ⟨hread, hbehind⟩ := ih htail hrest
    refine ⟨⟨?_, List.isChain_cons.mpr ⟨?_, hread.apart⟩⟩, hbehind⟩
    · intro piece hpiece
      rcases List.mem_cons.mp hpiece with rfl | hpiece
      · rw [Gap.kind_ofToken ht, GapPiece.text_ofToken]
        exact hcut.spelled
      · exact hread.spelled piece hpiece
    · intro q hq
      rw [Gap.isNewline_ofToken]
      rcases (TokenKind.isBlank_iff _).mp ht with hkind | hkind
      · -- whitespace ends where no blank follows, so the next piece is not whitespace
        right
        cases gap with
        | nil => cases hq
        | cons u gap =>
          obtain rfl := Option.some.inj hq
          have hu : u.kind.isBlank = true := htail u List.mem_cons_self
          rw [Gap.isNewline_ofToken, beq_iff_eq]
          refine ((TokenKind.isBlank_iff _).mp hu).resolve_left fun hspace => ?_
          have hspelled := hrest.spelled u List.mem_cons_self
          rw [hkind] at hcut
          cases htext : u.text.toList with
          | nil => exact hspelled.nonempty htext
          | cons c cs =>
            have hc := hspelled.whitespace hspace c (htext ▸ List.mem_cons_self)
            have hnot := hcut.rest_of_whitespace c (by simp [htext])
            rw [hc] at hnot
            cases hnot
      · left
        simp [hkind]

/-! ## What repairs put into a gap -/

theorem readable_nil : Readable [] := ⟨by simp, .nil⟩

theorem readable_space : Readable [.space] := by
  refine ⟨?_, List.isChain_singleton _⟩
  intro piece hpiece
  obtain rfl := List.mem_singleton.mp hpiece
  have htext : GapPiece.space.text.toList = [' '] := by decide
  have hkind : GapPiece.space.kind = .whitespace := rfl
  rw [htext, hkind]
  refine ⟨List.cons_ne_nil _ _, fun _ c hc => ?_, nofun, nofun, nofun, nofun, nofun, ?_⟩
  · obtain rfl := List.mem_singleton.mp hc
    rfl
  · simp [edgeKinds]

/-- Collapsing the line ends of a readable gap leaves a readable gap. -/
theorem Readable.collapseNewlines {gap : Gap} (h : Readable gap.pieces)
    (hnewline : gap.hasNewline = true) : Readable (GapRule.collapseNewlines gap) := by
  obtain ⟨first, rest, hsplit, hfirst, hcollapse⟩ := GapRule.exists_first_newline hnewline
  have hsuffix : GapRule.afterLastNewline gap <:+ gap := by
    have hprefix := List.takeWhile_prefix (fun t : Token => t.kind != .newline) (l := gap.reverse)
    rw [← List.reverse_suffix, List.reverse_reverse] at hprefix
    exact hprefix
  have hends : (GapPiece.ofToken first).isNewline = true := by
    rw [Gap.isNewline_ofToken, hfirst]
    rfl
  rw [hcollapse, List.map_append, List.map_cons]
  constructor
  · intro piece hpiece
    apply h.spelled
    rw [List.mem_append, List.mem_cons] at hpiece
    rcases hpiece with hpiece | rfl | hpiece
    · obtain ⟨t, ht, rfl⟩ := List.mem_map.mp hpiece
      exact List.mem_map_of_mem ((List.takeWhile_prefix _).subset ht)
    · exact List.mem_map_of_mem (hsplit ▸ by simp)
    · obtain ⟨t, ht, rfl⟩ := List.mem_map.mp hpiece
      exact List.mem_map_of_mem (hsuffix.subset ht)
  · -- both parts are parts of the gap, and the line end between them goes with anything
    have hbefore := h.apart
    have hafter := h.apart
    rw [Gap.pieces, hsplit, List.map_append, List.map_cons] at hbefore
    obtain ⟨front, hfront⟩ := hsuffix
    rw [Gap.pieces, ← hfront, List.map_append] at hafter
    rw [List.isChain_append, List.isChain_cons]
    exact ⟨hbefore.left_of_append, ⟨fun _ _ => Or.inl hends, hafter.right_of_append⟩,
      fun _ _ q hq => Or.inr (Option.some.inj hq ▸ hends)⟩

/-- Whatever a rule puts into a gap that was read is read back. -/
theorem Readable.repair {rule : GapRule} {left right : TokenKind} {gap : Gap}
    (h : Readable gap.pieces) (hrule : rule.Governs left right gap) :
    Readable (rule.repair gap) := by
  cases rule with
  | before body =>
    cases body with
    | emptyPair => exact readable_nil
    | lineBreakBody => exact h.collapseNewlines hrule.2
    | inlineBody => exact readable_space
  | after follower =>
    cases follower with
    | tight => exact readable_nil
    | nested | loose => exact readable_space
  | singleSpace => exact readable_space

/-! ## Tokens that are read again -/

/-- Whether tokens of the kinds and texts of some tokens are read wherever their text stands, as
long as the same number of braces is open in every open string. -/
def Rereads (opens : List OpenString) (ts : List Token) : Prop :=
  ∀ (opens' : List OpenString) (here : Position) (id : TokenId), SameDepths opens opens' →
    ∃ us, Lexes opens' here id us ∧ us.map Token.face = ts.map Token.face

theorem rereads_nil : Rereads [] [] := by
  intro opens' here id hdepths
  obtain rfl := List.map_eq_nil_iff.mp hdepths.symm
  exact ⟨[], .nil, rfl⟩

/-- A token is read again before text that leaves it undisturbed. -/
theorem Rereads.cons {here : Position} {opens after : List OpenString} {t : Token}
    {rest : List Char} {ts : List Token}
    (hcut : Cut here opens t.kind t.text.toList rest after)
    (hrest : Undisturbed t.kind t.text.toList rest (textOf ts)) (h : Rereads after ts) :
    Rereads opens (t :: ts) := by
  intro opens' here' id hdepths
  obtain ⟨after', hcut', hdepths'⟩ := hcut.transfer here' hdepths hrest
  obtain ⟨us, hus, hfaces⟩ := h after' (here'.advance t.text.toList) (id + 1) hdepths'
  rw [← textOf_eq_of_map_face hfaces] at hcut'
  refine ⟨⟨id, t.kind, t.text, here'⟩ :: us, .cons rfl rfl hcut' hus, ?_⟩
  rw [List.map_cons, List.map_cons, hfaces]
  rfl

/-- A blank is cut off before everything that does not continue it. -/
theorem cut_of_isBlank {here : Position} {opens : List OpenString} {kind : TokenKind}
    {text rest : List Char} (hblank : kind.isBlank = true) (hspelled : Spelled kind text)
    (hrest : kind = .whitespace → ∀ d ∈ rest.head?, isSpacing d = false) :
    Cut here opens kind text rest opens := by
  rcases (TokenKind.isBlank_iff _).mp hblank with rfl | rfl
  · cases text with
    | nil => exact absurd rfl hspelled.nonempty
    | cons c cs => exact .blanks (hspelled.whitespace rfl) (hrest rfl)
  · rcases hspelled.newline rfl with rfl | rfl
    · exact .lineFeed
    · exact .returnLineFeed

/-- The text of a line end does not start with a space. -/
theorem Spelled.not_spacing_of_newline {kind : TokenKind} {text : List Char}
    (h : Spelled kind text) (hkind : kind = .newline) :
    ∀ c ∈ text.head?, isSpacing c = false := by
  intro c hc
  rcases h.newline hkind with rfl | rfl <;> cases hc <;> decide

/-- Readable blanks are read again before text that starts with no blank. -/
theorem Rereads.blank {opens : List OpenString} {gap : Gap} {ts : List Token}
    (hblank : gap.IsBlank) (hread : Readable gap.pieces)
    (hsolid : ∀ c ∈ (textOf ts).head?, isSpacing c = false) (h : Rereads opens ts) :
    Rereads opens (gap ++ ts) := by
  induction gap with
  | nil => exact h
  | cons t gap ih =>
    have ht : t.kind.isBlank = true := hblank t List.mem_cons_self
    have htail : Gap.IsBlank gap := fun u hu => hblank u (List.mem_cons_of_mem _ hu)
    obtain ⟨hchain, hapart⟩ := List.isChain_cons.mp hread.apart
    have hspelled := hread.spelled_of_mem hblank List.mem_cons_self
    have hnext : t.kind = .whitespace →
        ∀ c ∈ (textOf (gap ++ ts)).head?, isSpacing c = false := by
      intro hkind
      cases gap with
      | nil => exact hsolid
      | cons u gap =>
        have hu := hread.spelled_of_mem hblank (List.mem_cons_of_mem t List.mem_cons_self)
        have hnewline : u.kind = .newline := by
          have hone := hchain (.ofToken u) rfl
          rw [Gap.isNewline_ofToken, Gap.isNewline_ofToken, hkind] at hone
          simpa using hone
        intro c hc
        rw [List.cons_append, textOf_cons, List.head?_append_of_ne_nil _ hu.nonempty] at hc
        exact hu.not_spacing_of_newline hnewline c hc
    have hrest := ih htail ⟨fun p hp => hread.spelled p (List.mem_cons_of_mem _ hp), hapart⟩
    intro opens' here id hdepths
    obtain ⟨us, hus, hfaces⟩ := hrest opens' (here.advance t.text.toList) (id + 1) hdepths
    rw [← textOf_eq_of_map_face hfaces] at hnext
    refine ⟨⟨id, t.kind, t.text, here⟩ :: us,
      .cons rfl rfl (cut_of_isBlank ht hspelled hnext) hus, ?_⟩
    rw [List.cons_append, List.map_cons, List.map_cons, hfaces]
    rfl

end Lexer

end ManifestSpacing
