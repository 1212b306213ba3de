import Mathlib
import ManifestSpacing.Proofs.Gap.Layout
import ManifestSpacing.Proofs.Lint.OneRepair

/-!
# Edits of a stream

A stream changes by pushing tokens, replacing gaps, repairing problems and
computing positions anew. Whatever edits are made to it, no identity is given
twice, none that has gone comes back, and the tokens of content are those that
were lexed or pushed, in their order. A replacement that is refused changes
nothing, and it is refused only where its range is none or holds content.
-/

namespace ManifestSpacing

/-- What a token keeps for life: all but its position. -/
def Token.lasting (t : Token) : TokenId × TokenKind × String := (t.id, t.kind, t.text)

/-- A change to a stream. -/
inductive Edit where
  | push (kind : TokenKind) (text : String) (position : Position)
  | replaceGap (start stop : Nat) (pieces : List GapPiece)
  | reposition
  | fix (p : Problem)
  deriving DecidableEq, Repr

namespace TokenStream

/-- The stream after an edit. -/
def apply (s : TokenStream) : Edit → TokenStream
  | .push kind text position => s.push kind text position
  | .replaceGap start stop pieces => (s.replaceGap start stop pieces).2
  | .reposition => s.reposition
  | .fix p => (s.fix p).stream

/-- The stream after some edits in turn. -/
def edit (s : TokenStream) (edits : List Edit) : TokenStream := edits.foldl apply s

/-- The token that an edit pushes. -/
def pushedBy (s : TokenStream) : Edit → List Token
  | .push kind text position => [⟨s.nextId, kind, text, position⟩]
  | .replaceGap .. | .reposition | .fix _ => []

/-- The tokens that some edits push, in order. -/
def pushed (s : TokenStream) : List Edit → List Token
  | [] => []
  | e :: edits => s.pushedBy e ++ (s.apply e).pushed edits

/-! ## Replacing a range -/

/-- The first token of content in a range, by its index in the stream. -/
theorem exists_first_content {tokens : List Token} {start stop : Nat} {t : Token}
    (h : (((tokens.take stop).drop start).find? fun t => !t.kind.isBlank) = some t) :
    ∃ i, start ≤ i ∧ i < stop ∧ tokens[i]? = some t ∧ t.kind.isBlank = false ∧
      ∀ (j : Nat) (u : Token), start ≤ j → j < i → tokens[j]? = some u →
        u.kind.isBlank = true := by
  have hget (k : Nat) : ((tokens.take stop).drop start)[k]? =
      if start + k < stop then tokens[start + k]? else none := by
    rw [List.getElem?_drop, List.getElem?_take]
  obtain ⟨hcontent, k, hk, hkt, hfirst⟩ := List.find?_eq_some_iff_getElem.mp h
  have ht := List.getElem?_eq_some_iff.mpr ⟨hk, hkt⟩
  rw [hget] at ht
  split at ht
  · rename_i hlt
    refine ⟨start + k, Nat.le_add_right _ _, hlt, ht, by simpa using hcontent, ?_⟩
    intro j u hj hjk hu
    obtain ⟨m, rfl⟩ := Nat.exists_eq_add_of_le hj
    have hm : ((tokens.take stop).drop start)[m]? = some u := by rw [hget, if_pos (by omega), hu]
    obtain ⟨_, rfl⟩ := List.getElem?_eq_some_iff.mp hm
    simpa using hfirst m (by omega)
  · cases ht

/-- A replacement is refused for its range, or for the first token of content in it, or it puts
fresh tokens in the place of blanks. -/
theorem replaceGap_cases (s : TokenStream) (start stop : Nat) (pieces : List GapPiece) :
    (¬ (start ≤ stop ∧ stop ≤ s.tokens.length) ∧
      s.replaceGap start stop pieces = (.error (.outOfBounds start stop s.tokens.length), s)) ∨
    (∃ (i : Nat) (t : Token), start ≤ i ∧ i < stop ∧ s.tokens[i]? = some t ∧
      t.kind.isBlank = false ∧
      (∀ (j : Nat) (u : Token), start ≤ j → j < i → s.tokens[j]? = some u →
        u.kind.isBlank = true) ∧
      s.replaceGap start stop pieces = (.error (.nonWhitespace t.id t.kind), s)) ∨
    ∃ (xs : List Token) (gap : Gap) (ys : List Token) (position : Position),
      s.tokens = xs ++ (gap ++ ys) ∧ xs.length = start ∧ xs.length + gap.length = stop ∧
      gap.IsBlank ∧ s.replaceGap start stop pieces =
        (.ok (),
          ⟨xs ++ (freshTokens position s.nextId pieces ++ ys), s.nextId + pieces.length⟩) := by
  by_cases hrange : start ≤ stop ∧ stop ≤ s.tokens.length
  · cases hfind : ((s.tokens.take stop).drop start).find? fun t => !t.kind.isBlank with
    | some t =>
      obtain ⟨i, hi, hlt, ht, hcontent, hfirst⟩ := exists_first_content hfind
      refine Or.inr (Or.inl ⟨i, t, hi, hlt, ht, hcontent, hfirst, ?_⟩)
      simp only [replaceGap, if_pos hrange, hfind]
    | none =>
      have hsplit : s.tokens = s.tokens.take start ++
          ((s.tokens.take stop).drop start ++ s.tokens.drop stop) := by
        conv_lhs => rw [← List.take_append_drop stop s.tokens,
          ← List.take_append_drop start (s.tokens.take stop), List.take_take,
          Nat.min_eq_left hrange.1, List.append_assoc]
      refine Or.inr (Or.inr ⟨_, _, _, (s.tokens[start]?).elim ⟨0, 0⟩ Token.position, hsplit,
        ?_, ?_, fun t ht => ?_, ?_⟩)
      · rw [List.length_take]
        omega
      · rw [List.length_drop, List.length_take, List.length_take]
        omega
      · simpa using List.find?_eq_none.mp hfind t ht
      · simp only [replaceGap, if_pos hrange, hfind, List.append_assoc]
  · exact Or.inl ⟨hrange, by simp only [replaceGap, if_neg hrange]⟩

/-! ## What edits keep -/

/-- What a stream keeps while tokens are added to its content. -/
structure Extends (s : TokenStream) (added : List Token) (s' : TokenStream) : Prop where
  nextId_le : s.nextId ≤ s'.nextId
  numbered : s.Numbered → s'.Numbered
  /-- An identity that had been handed out is still in use, or it stays away. -/
  old : ∀ t' ∈ s'.tokens, t'.id < s.nextId → ∃ t ∈ s.tokens, t.id = t'.id
  content : (contentOf s'.tokens).map Token.lasting =
    (contentOf (s.tokens ++ added)).map Token.lasting

namespace Extends

theorem refl (s : TokenStream) : s.Extends [] s :=
  ⟨Nat.le_refl _, id, fun t' ht' _ => ⟨t', ht', rfl⟩, by rw [List.append_nil]⟩

theorem trans {s s' s'' : TokenStream} {added added' : List Token} (h : s.Extends added s')
    (h' : s'.Extends added' s'') : s.Extends (added ++ added') s'' := by
  refine ⟨Nat.le_trans h.nextId_le h'.nextId_le, h'.numbered ∘ h.numbered, fun t'' ht'' hid => ?_,
    ?_⟩
  · obtain ⟨t', ht', hid'⟩ := h'.old t'' ht'' (Nat.lt_of_lt_of_le hid h.nextId_le)
    obtain ⟨t, ht, hsame⟩ := h.old t' ht' (hid'.symm ▸ hid)
    exact ⟨t, ht, hsame.trans hid'⟩
  · have hcontent := h.content
    have hcontent' := h'.content
    simp only [contentOf, List.filter_append, List.map_append] at hcontent hcontent' ⊢
    rw [hcontent', hcontent, List.append_assoc]

end Extends

/-- A pushed token takes the next identity. -/
theorem extends_push (s : TokenStream) (kind : TokenKind) (text : String) (position : Position) :
    s.Extends [⟨s.nextId, kind, text, position⟩] (s.push kind text position) := by
  refine ⟨Nat.le_succ _, fun h => ⟨?_, fun t ht => ?_⟩, fun t' ht' hid => ?_, rfl⟩
  · have hnew : s.nextId ∉ s.tokens.map Token.id := by
      intro hmem
      obtain ⟨t, ht, hid⟩ := List.mem_map.mp hmem
      exact absurd hid (Nat.ne_of_lt (h.below t ht))
    have hconcat := h.nodup.concat hnew
    rw [List.concat_eq_append] at hconcat
    simpa only [push, List.map_append, List.map_cons, List.map_nil] using hconcat
  · rcases List.mem_append.mp ht with ht | ht
    · exact Nat.lt_succ_of_lt (h.below t ht)
    · rw [List.mem_singleton.mp ht]
      exact Nat.lt_succ_self _
  · rcases List.mem_append.mp ht' with ht' | ht'
    · exact ⟨t', ht', rfl⟩
    · rw [List.mem_singleton.mp ht'] at hid
      exact absurd hid (Nat.lt_irrefl _)

/-- Fresh tokens may stand in the place of any blanks. -/
theorem extends_replace {s : TokenStream} {xs ys : List Token} {gap : Gap}
    (htokens : s.tokens = xs ++ (gap ++ ys)) (hblank : gap.IsBlank) (position : Position)
    (pieces : List GapPiece) : s.Extends []
      ⟨xs ++ (freshTokens position s.nextId pieces ++ ys), s.nextId + pieces.length⟩ := by
  refine ⟨Nat.le_add_right _ _, fun h => h.replace htokens position pieces, fun t ht hid => ?_, ?_⟩
  · rcases mem_replace gap ht with hfresh | hold
    · exact absurd hid (Nat.not_lt_of_le hfresh.1)
    · exact ⟨t, htokens ▸ hold, rfl⟩
  · have hfresh := (isBlank_freshTokens position s.nextId pieces).filter_eq_nil
    rw [htokens]
    simp only [contentOf, List.filter_append, hfresh, hblank.filter_eq_nil, List.nil_append,
      List.append_nil]

/-- Computing positions anew touches nothing else. -/
theorem map_lasting_repositionFrom (here : Position) (tokens : List Token) :
    (repositionFrom here tokens).map Token.lasting = tokens.map Token.lasting := by
  induction tokens generalizing here with
  | nil => rfl
  | cons t tokens ih =>
    rw [repositionFrom, List.map_cons, List.map_cons, ih]
    rfl

theorem map_lasting_contentOf_repositionFrom (here : Position) (tokens : List Token) :
    (contentOf (repositionFrom here tokens)).map Token.lasting =
      (contentOf tokens).map Token.lasting := by
  have hkind : (fun t : Token => !t.kind.isBlank) =
      (fun x : TokenId × TokenKind × String => !x.2.1.isBlank) ∘ Token.lasting := rfl
  rw [contentOf, contentOf, hkind, ← List.filter_map, ← List.filter_map,
    map_lasting_repositionFrom]

theorem extends_reposition (s : TokenStream) : s.Extends [] s.reposition := by
  have hids : s.reposition.tokens.map Token.id = s.tokens.map Token.id := by
    have hlasting := congrArg (List.map Prod.fst) (map_lasting_repositionFrom .start s.tokens)
    rwa [List.map_map, List.map_map] at hlasting
  have hold {t' : Token} (ht' : t' ∈ s.reposition.tokens) : ∃ t ∈ s.tokens, t.id = t'.id :=
    List.mem_map.mp (hids ▸ List.mem_map_of_mem ht')
  refine ⟨Nat.le_refl _, fun h => ⟨hids ▸ h.nodup, fun t' ht' => ?_⟩, fun t' ht' _ => hold ht', ?_⟩
  · obtain ⟨t, ht, hid⟩ := hold ht'
    exact hid ▸ h.below t ht
  · rw [List.append_nil]
    exact map_lasting_contentOf_repositionFrom .start s.tokens

/-- An edit gives no identity twice and changes content by what it pushes. -/
theorem extends_apply (s : TokenStream) (e : Edit) : s.Extends (s.pushedBy e) (s.apply e) := by
  cases e with
  | push kind text position => exact s.extends_push kind text position
  | reposition => exact s.extends_reposition
  | replaceGap start stop pieces =>
    rcases s.replaceGap_cases start stop pieces with
      ⟨_, herror⟩ | ⟨_, _, _, _, _, _, _, herror⟩ | ⟨xs, gap, ys, _, htokens, _, _, hblank, hok⟩
    · simp only [apply, herror]
      exact .refl s
    · simp only [apply, herror]
      exact .refl s
    · simp only [apply, hok]
      exact extends_replace htokens hblank _ _
  | fix p =>
    rcases s.fix_cases p with ⟨hsame, _⟩ | ⟨xs, l, gap, r, ys, h⟩
    · simp only [apply, hsame]
      exact .refl s
    · simp only [apply, h.fix_eq]
      rw [List.append_cons]
      exact extends_replace (h.tokens_eq.trans (List.append_cons _ _ _)) h.blank _ _

/-- So do any number of edits. -/
theorem extends_edit (s : TokenStream) (edits : List Edit) :
    s.Extends (s.pushed edits) (s.edit edits) := by
  induction edits generalizing s with
  | nil => exact .refl s
  | cons e edits ih => exact (s.extends_apply e).trans (ih (s.apply e))

theorem edit_append (s : TokenStream) (edits edits' : List Edit) :
    s.edit (edits ++ edits') = (s.edit edits).edit edits' := List.foldl_append

/-- Below the largest word, distinct identities are distinct words. -/
theorem Numbered.words {s : TokenStream} (h : s.Numbered) (hsize : s.Fits) :
    (s.tokens.map fun t => t.id.toUInt32).Nodup ∧
      ∀ t ∈ s.tokens, t.id.toUInt32 < s.nextId.toUInt32 := by
  have hsmall : ∀ t ∈ s.tokens, t.id < UInt32.size := fun t ht => Nat.lt_trans (h.below t ht) hsize
  constructor
  · have hmap :
        (s.tokens.map fun t => t.id.toUInt32) = (s.tokens.map Token.id).map Nat.toUInt32 := by
      rw [List.map_map]
      rfl
    rw [hmap]
    refine h.nodup.map_on fun i hi j hj heq => ?_
    obtain ⟨t, ht, rfl⟩ := List.mem_map.mp hi
    obtain ⟨u, hu, rfl⟩ := List.mem_map.mp hj
    exact (toUInt32_inj (hsmall t ht) (hsmall u hu)).mp heq
  · intro t ht
    have hword : ∀ {n : Nat}, n < UInt32.size → n.toUInt32.toNat = n := UInt32.toNat_ofNat_of_lt'
    rw [UInt32.lt_iff_toNat_lt, hword (hsmall t ht), hword hsize]
    exact h.below t ht

/-- What edits keep of the identities and the content of a stream, and when a replacement is made
in the stream that they lead to. -/
structure KeepsArena (s : TokenStream) (edits : List Edit) : Prop where
  nodup : ((s.edit edits).tokens.map Token.id).Nodup
  below : ∀ t ∈ (s.edit edits).tokens, t.id < (s.edit edits).nextId
  /-- While the identities handed out fit into 32 bits, all this holds of them as words. -/
  words : (s.edit edits).Fits →
    ((s.edit edits).tokens.map fun t => t.id.toUInt32).Nodup ∧
      ∀ t ∈ (s.edit edits).tokens, t.id.toUInt32 < (s.edit edits).nextId.toUInt32
  /-- An identity that has left the stream never comes back. -/
  gone : ∀ first second third id, edits = first ++ second ++ third →
    id ∈ (s.edit first).tokens.map Token.id →
    id ∉ (s.edit (first ++ second)).tokens.map Token.id →
    id ∉ (s.edit edits).tokens.map Token.id
  /-- The content is what was there at first and what has been pushed, in order. -/
  content : (contentOf (s.edit edits).tokens).map Token.lasting =
    (contentOf (s.tokens ++ s.pushed edits)).map Token.lasting
  /-- Exactly blanks in a range of the stream can be replaced. -/
  replaces : ∀ start stop pieces,
    ((s.edit edits).replaceGap start stop pieces).1 = .ok () ↔
      start ≤ stop ∧ stop ≤ (s.edit edits).tokens.length ∧
        ∀ (i : Nat) (t : Token), start ≤ i → i < stop → (s.edit edits).tokens[i]? = some t →
          t.kind.isBlank = true
  /-- A replacement that is refused changes nothing, and it names the range or the first token of
  content in it. -/
  refuses : ∀ start stop pieces error,
    ((s.edit edits).replaceGap start stop pieces).1 = .error error →
      ((s.edit edits).replaceGap start stop pieces).2 = s.edit edits ∧
        (error = .outOfBounds start stop (s.edit edits).tokens.length ∧
            ¬ (start ≤ stop ∧ stop ≤ (s.edit edits).tokens.length) ∨
          ∃ (i : Nat) (t : Token), error = .nonWhitespace t.id t.kind ∧ start ≤ i ∧ i < stop ∧
            (s.edit edits).tokens[i]? = some t ∧ t.kind.isBlank = false ∧
            ∀ (j : Nat) (u : Token), start ≤ j → j < i → (s.edit edits).tokens[j]? = some u →
              u.kind.isBlank = true)

/-- Exactly blanks in a range of the stream can be replaced. -/
theorem replaceGap_eq_ok_iff (s : TokenStream) (start stop : Nat) (pieces : List GapPiece) :
    (s.replaceGap start stop pieces).1 = .ok () ↔
      start ≤ stop ∧ stop ≤ s.tokens.length ∧
        ∀ (i : Nat) (t : Token), start ≤ i → i < stop → s.tokens[i]? = some t →
          t.kind.isBlank = true := by
  rcases s.replaceGap_cases start stop pieces with
    ⟨hrange, herror⟩ | ⟨i, t, hi, hlt, ht, hcontent, _, herror⟩ |
      ⟨xs, gap, ys, position, htokens, rfl, rfl, hblank, hok⟩
  · rw [herror]
    exact iff_of_false nofun fun h => hrange ⟨h.1, h.2.1⟩
  · rw [herror]
    refine iff_of_false nofun fun h => ?_
    exact Bool.false_ne_true (hcontent.symm.trans (h.2.2 i t hi hlt ht))
  · rw [hok]
    refine iff_of_true rfl ⟨Nat.le_add_right _ _, ?_, fun i t hi hlt ht => ?_⟩
    · rw [htokens, List.length_append, List.length_append]
      omega
    · rw [htokens, List.getElem?_append_right hi, List.getElem?_append_left (by omega)] at ht
      exact hblank t (List.mem_of_getElem? ht)

/-- A replacement that is refused changes nothing and names its cause. -/
theorem replaceGap_of_error {s : TokenStream} {start stop : Nat} {pieces : List GapPiece}
    {error : GapError} (h : (s.replaceGap start stop pieces).1 = .error error) :
    (s.replaceGap start stop pieces).2 = s ∧
      (error = .outOfBounds start stop s.tokens.length ∧
          ¬ (start ≤ stop ∧ stop ≤ s.tokens.length) ∨
        ∃ (i : Nat) (t : Token), error = .nonWhitespace t.id t.kind ∧ start ≤ i ∧ i < stop ∧
          s.tokens[i]? = some t ∧ t.kind.isBlank = false ∧
          ∀ (j : Nat) (u : Token), start ≤ j → j < i → s.tokens[j]? = some u →
            u.kind.isBlank = true) := by
  rcases s.replaceGap_cases start stop pieces with
    ⟨hrange, herror⟩ | ⟨i, t, hi, hlt, ht, hcontent, hfirst, herror⟩ | ⟨_, _, _, _, _, _, _, _, hok⟩
  · rw [herror] at h ⊢
    exact ⟨rfl, Or.inl ⟨(Except.error.inj h).symm, hrange⟩⟩
  · rw [herror] at h ⊢
    exact ⟨rfl, Or.inr ⟨i, t, (Except.error.inj h).symm, hi, hlt, ht, hcontent, hfirst⟩⟩
  · rw [hok] at h
    cases h

/-- Whatever edits are made to an empty or a lexed stream, identities stay distinct and never come
back, and content changes by what is pushed alone. -/
theorem edit_keepsArena {s : TokenStream} (hstart : s = .empty ∨ ∃ source, lex source = .ok s)
    (edits : List Edit) : s.KeepsArena edits := by
  have hs : s.Numbered := by
    rcases hstart with rfl | ⟨source, hlex⟩
    · exact ⟨List.nodup_nil, nofun⟩
    · exact .of_lex hlex
  have hextends := s.extends_edit edits
  have hnumbered := hextends.numbered hs
  refine ⟨hnumbered.nodup, hnumbered.below, hnumbered.words, ?_, hextends.content,
    (s.edit edits).replaceGap_eq_ok_iff, fun _ _ _ _ => replaceGap_of_error⟩
  rintro first second third id rfl hthere hgone hback
  obtain ⟨t, ht, rfl⟩ := List.mem_map.mp hthere
  obtain ⟨t'', ht'', hid⟩ := List.mem_map.mp hback
  rw [edit_append] at ht'' hgone
  -- the identity was handed out before it left, and later edits take none of those
  have hbelow : t.id < ((s.edit first).edit second).nextId :=
    Nat.lt_of_lt_of_le (((s.extends_edit first).numbered hs).below t ht)
      ((s.edit first).extends_edit second).nextId_le
  rw [edit_append] at ht''
  obtain ⟨t', ht', hid'⟩ := (((s.edit first).edit second).extends_edit third).old t'' ht''
    (hid.symm ▸ hbelow)
  exact hgone (List.mem_map.mpr ⟨t', ht', hid'.trans hid⟩)

/-- Replacing content and replacing a reversed range are refused between edits that succeed. -/
theorem edit_keepsArena_refused_between :
    ∃ s, lex "\x7b \x7d" = .ok s ∧ s.KeepsArena
      [.replaceGap 1 2 [.newline "\n", .whitespace "  "], .replaceGap 0 2 [], .reposition,
        .push .comment "#" .start, .fix ⟨.error, .start, .closingBraceBefore, false, true,
          ⟨0, 2, 9⟩, .before .emptyPair⟩, .replaceGap 3 2 [.space]] := by
  have hlex : lex "\x7b \x7d" = .ok ⟨[⟨0, .openBrace, "\x7b", ⟨1, 1⟩⟩,
      ⟨1, .whitespace, " ", ⟨1, 2⟩⟩, ⟨2, .closeBrace, "\x7d", ⟨1, 3⟩⟩], 3⟩ := by cbv
  exact ⟨_, hlex, edit_keepsArena (Or.inr ⟨_, hlex⟩) _⟩

end TokenStream

end ManifestSpacing
