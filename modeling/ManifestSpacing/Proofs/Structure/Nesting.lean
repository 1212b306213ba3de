import ManifestSpacing.Proofs.Structure.Matching

/-!
# The nesting of interpolated strings

The kinds of a manifest are a sequence of items. An item is a token of its own
or a whole interpolated string, whose interpolations hold items again, with
braces that are balanced once the strings inside are left out. Matching does
not know about strings, but where strings nest it cannot go wrong: a pair of
braces holds whole items, and every brace of an interpolation has its partner
in the same interpolation, at the same level of strings.
-/

namespace ManifestSpacing

/-- Whether the kind belongs to an interpolated string: its start, its middle or its end. -/
def TokenKind.isQuote : TokenKind → Bool
  | quoteOpen | quoteMid | quoteClose => true
  | _ => false

/-- What a stretch of token kinds can be in the nesting of strings. -/
inductive Phrase where
  /-- Whole items; `level` are the kinds outside their strings. -/
  | items (level : List TokenKind)
  /-- What one interpolation holds. -/
  | code
  /-- An interpolated string behind its start, through its end. -/
  | tail
  deriving DecidableEq, Repr

namespace Phrase

/-- The kinds that form a phrase. -/
inductive Generates : Phrase → List TokenKind → Prop where
  | nil : Generates (items []) []
  /-- A token that is no part of an interpolated string. -/
  | token {kind : TokenKind} {level kinds : List TokenKind} (hkind : kind.isQuote = false)
      (hrest : Generates (items level) kinds) : Generates (items (kind :: level)) (kind :: kinds)
  /-- A whole interpolated string, which leaves no kinds outside it. -/
  | string {level inside kinds : List TokenKind} (hinside : Generates tail inside)
      (hrest : Generates (items level) kinds) :
      Generates (items level) (.quoteOpen :: (inside ++ kinds))
  /-- Items whose braces are balanced, those inside their strings left out. -/
  | code {level kinds : List TokenKind} (hitems : Generates (items level) kinds)
      (hbalanced : Family.brace.Balanced level) : Generates code kinds
  /-- The last interpolation, with the end of the string. -/
  | close {kinds : List TokenKind} (hcode : Generates code kinds) :
      Generates tail (kinds ++ [.quoteClose])
  /-- An interpolation before a further one. -/
  | next {kinds rest : List TokenKind} (hcode : Generates code kinds)
      (hrest : Generates tail rest) : Generates tail (kinds ++ .quoteMid :: rest)

theorem Generates.append {level level' xs ys : List TokenKind}
    (hx : (items level).Generates xs) (hy : (items level').Generates ys) :
    (items (level ++ level')).Generates (xs ++ ys) := by
  generalize hphrase : items level = phrase at hx
  induction hx generalizing level with
  | nil => cases hphrase; exact hy
  | token hkind _ ih => cases hphrase; exact .token hkind (ih rfl)
  | string hinside _ _ ih =>
    cases hphrase
    rw [List.cons_append, List.append_assoc]
    exact .string hinside (ih rfl)
  | code | close | next => cases hphrase

end Phrase

/-- Whether some kinds are a sequence of whole items. -/
def IsItems (kinds : List TokenKind) : Prop := ∃ level, (Phrase.items level).Generates kinds

namespace IsItems

open Phrase

variable {kind : TokenKind} {inside kinds xs ys : List TokenKind}

theorem nil : IsItems [] := ⟨[], .nil⟩

theorem token (hkind : kind.isQuote = false) : IsItems kinds → IsItems (kind :: kinds) :=
  fun ⟨level, h⟩ => ⟨kind :: level, .token hkind h⟩

theorem string (hinside : tail.Generates inside) :
    IsItems kinds → IsItems (.quoteOpen :: (inside ++ kinds)) :=
  fun ⟨level, h⟩ => ⟨level, .string hinside h⟩

/-- Items are taken off one by one. -/
@[elab_as_elim]
theorem itemwise {motive : (kinds : List TokenKind) → IsItems kinds → Prop}
    (nil : motive [] IsItems.nil)
    (token : ∀ {kind kinds} (hkind : kind.isQuote = false) (hrest : IsItems kinds),
      motive kinds hrest → motive (kind :: kinds) (hrest.token hkind))
    (string : ∀ {inside kinds} (hinside : tail.Generates inside) (hrest : IsItems kinds),
      motive kinds hrest → motive (.quoteOpen :: (inside ++ kinds)) (hrest.string hinside))
    (h : IsItems kinds) : motive kinds h := by
  have hlevel : ∃ level, (items level).Generates kinds := h
  obtain ⟨level, hlevel⟩ := hlevel
  generalize hphrase : items level = phrase at hlevel
  induction hlevel generalizing level with
  | nil => exact nil
  | token hkind hrest ih => exact token hkind ⟨_, hrest⟩ (ih ⟨_, hrest⟩ _ rfl)
  | string hinside hrest _ ih => exact string hinside ⟨_, hrest⟩ (ih ⟨_, hrest⟩ _ rfl)
  | code | close | next => cases hphrase

theorem append (hx : IsItems xs) (hy : IsItems ys) : IsItems (xs ++ ys) := by
  obtain ⟨level, hx⟩ := hx
  obtain ⟨level', hy⟩ := hy
  exact ⟨level ++ level', hx.append hy⟩

end IsItems

open Family

/-- In a phrase as a whole, the braces inside its strings included, the same braces are left to
close as at its own level; an interpolation and a string leave none. -/
private theorem Phrase.Generates.closes {phrase : Phrase} {kinds : List TokenKind}
    (h : phrase.Generates kinds) :
    match phrase with
    | .items level => ∀ depth, brace.Closes depth level ↔ brace.Closes depth kinds
    | .code | .tail => brace.Balanced kinds := by
  induction h with
  | nil => exact fun depth => Iff.rfl
  | token _ _ ih => exact fun depth => closes_cons_congr ih
  | string _ _ hinside ih =>
    intro depth
    rw [closes_other_iff (by decide) (by decide), hinside.append_iff]
    exact ih depth
  | code _ hbalanced ih => exact closes_zero_iff.mp ((ih 0).mp (closes_zero_iff.mpr hbalanced))
  | close _ hcode =>
    rw [← closes_zero_iff, hcode.append_iff, closes_other_iff (by decide) (by decide)]
    exact closes_nil_iff.mpr rfl
  | next _ _ hcode ih =>
    rw [← closes_zero_iff, hcode.append_iff, closes_other_iff (by decide) (by decide)]
    exact closes_zero_iff.mpr ih

theorem Phrase.Generates.balanced_code {kinds : List TokenKind}
    (h : Phrase.code.Generates kinds) : brace.Balanced kinds :=
  h.closes

theorem Phrase.Generates.balanced_tail {kinds : List TokenKind}
    (h : Phrase.tail.Generates kinds) : brace.Balanced kinds :=
  h.closes

namespace IsItems

open Phrase

variable {kinds mid xs ys : List TokenKind}

/-- A closing brace stands outside the strings of some items if whatever opens before it is closed
before it. -/
theorem split_closeBrace {depth : Nat} (h : IsItems kinds)
    (hkinds : kinds = mid ++ brace.closer :: ys) (hmid : brace.Closes depth mid) :
    IsItems mid ∧ IsItems ys := by
  induction h using itemwise generalizing mid depth with
  | nil => simp at hkinds
  | @token kind kinds hkind hrest ih =>
    cases mid with
    | nil =>
      obtain ⟨_, rfl⟩ := List.cons.inj hkinds
      exact ⟨.nil, hrest⟩
    | cons first mid =>
      obtain ⟨rfl, hrow⟩ := List.cons.inj hkinds
      obtain ⟨opened, hopened⟩ := Closes.exists_of_append (u := [kind]) hmid
      obtain ⟨hfront, hback⟩ := ih hrow hopened
      exact ⟨hfront.token hkind, hback⟩
  | @string inside kinds hinside _ ih =>
    cases mid with
    | nil => cases hkinds
    | cons first mid =>
      obtain ⟨rfl, hrow⟩ := List.cons.inj hkinds
      rw [closes_other_iff (by decide) (by decide)] at hmid
      -- no closer of the string itself can stand behind what is closed
      rcases append_cons_cases hrow with ⟨m, rfl, _⟩ | ⟨m, rfl, hm⟩
      · exact absurd hinside.balanced_tail hmid.not_balanced_append
      · obtain ⟨hfront, hback⟩ := ih hm (hinside.balanced_tail.append_iff.mp hmid)
        exact ⟨hfront.string hinside, hback⟩

/-- An opening brace stands outside the strings of some items if what follows it is balanced. -/
theorem split_openBrace (h : IsItems kinds) (hkinds : kinds = xs ++ brace.opener :: mid)
    (hmid : brace.Balanced mid) : IsItems xs ∧ IsItems mid := by
  induction h using itemwise generalizing xs with
  | nil => simp at hkinds
  | @token kind kinds hkind hrest ih =>
    cases xs with
    | nil =>
      obtain ⟨_, rfl⟩ := List.cons.inj hkinds
      exact ⟨.nil, hrest⟩
    | cons first xs =>
      obtain ⟨rfl, hrow⟩ := List.cons.inj hkinds
      obtain ⟨hfront, hback⟩ := ih hrow
      exact ⟨hfront.token hkind, hback⟩
  | @string inside kinds hinside _ ih =>
    cases xs with
    | nil => cases hkinds
    | cons first xs =>
      obtain ⟨rfl, hrow⟩ := List.cons.inj hkinds
      rcases append_cons_cases hrow with ⟨m, rfl, rfl⟩ | ⟨m, rfl, hm⟩
      · -- an opener of the string would be closed in it, so what follows would not be balanced
        obtain ⟨inner, w, rfl, hinner⟩ := hinside.balanced_tail.exists_closer
        rw [List.append_assoc, List.cons_append] at hmid
        exact absurd hmid (closes_zero_iff.mpr hinner).not_balanced_append
      · obtain ⟨hfront, hback⟩ := ih hm
        exact ⟨hfront.string hinside, hback⟩

end IsItems

/-- Two matched braces of a phrase have whole items between them. -/
theorem Phrase.Generates.items_between {phrase : Phrase} {kinds xs mid ys : List TokenKind}
    (h : phrase.Generates kinds)
    (hkinds : kinds = xs ++ brace.opener :: (mid ++ brace.closer :: ys))
    (hmid : brace.Balanced mid) : IsItems mid := by
  induction h generalizing xs ys with
  | nil => simp at hkinds
  | @token kind level kinds _ hrest ih =>
    cases xs with
    | nil =>
      obtain ⟨_, rfl⟩ := List.cons.inj hkinds
      exact (IsItems.split_closeBrace ⟨level, hrest⟩ rfl (closes_zero_iff.mpr hmid)).1
    | cons first xs => exact ih (List.cons.inj hkinds).2
  | string hinside _ ihinside ih =>
    cases xs with
    | nil => cases hkinds
    | cons first xs =>
      rcases hinside.balanced_tail.pair_cases hmid (List.cons.inj hkinds).2 with
        ⟨w, hw⟩ | ⟨w, hw⟩
      · exact ihinside hw
      · exact ih hw
  | code _ _ ih => exact ih hkinds
  | close hcode ih =>
    rcases hcode.balanced_code.pair_cases hmid hkinds with ⟨w, hw⟩ | ⟨w, hw⟩
    · exact ih hw
    · cases w with
      | nil => cases hw
      | cons first w => simp at hw
  | next hcode _ ihcode ih =>
    rcases hcode.balanced_code.pair_cases hmid hkinds with ⟨w, hw⟩ | ⟨w, hw⟩
    · exact ihcode hw
    · cases w with
      | nil => cases hw
      | cons first w => exact ih (List.cons.inj hw).2

/-! ## The partners of braces -/

/-- Whether two kinds are the opener and the closer of a family, in either order. -/
def Family.Faces (family : Family) (kind facing : TokenKind) : Prop :=
  kind = family.opener ∧ facing = family.closer ∨ kind = family.closer ∧ facing = family.opener

/-- Every brace of an interpolation has its partner there, and outside the strings in it if the
brace itself stands outside them. -/
theorem Phrase.Generates.exists_partner {xs a b ys : List TokenKind} {kind : TokenKind}
    (h : Phrase.code.Generates (a ++ kind :: b)) (hkind : kind = .openBrace ∨ kind = .closeBrace) :
    ∃ a' facing b', a ++ kind :: b = a' ++ facing :: b' ∧ brace.Faces kind facing ∧
      (Pairing.ofKinds (xs ++ (a ++ kind :: b) ++ ys)).partner? (xs.length + a.length) =
        some (xs.length + a'.length) ∧
      (IsItems a → IsItems b → IsItems a' ∧ IsItems b') := by
  rcases hkind with rfl | rfl
  · obtain ⟨mid, w, rfl, hmid⟩ := h.balanced_code.exists_closer
    refine ⟨a ++ brace.opener :: mid, brace.closer, w, ?_, Or.inl ⟨rfl, rfl⟩, ?_, ?_⟩
    · rw [List.append_assoc, List.cons_append]
      rfl
    · refine Pairing.partner?_eq_some_iff.mpr ⟨brace, Or.inl (mem_pairs_iff.mpr
        ⟨xs ++ a, mid, w ++ ys, ?_, ?_, ?_, hmid⟩)⟩
      · simp only [List.append_assoc, List.cons_append]
        rfl
      · rw [List.length_append]
      · simp only [List.length_append, List.length_cons]
        omega
    · intro ha hb
      obtain ⟨hfront, hback⟩ := hb.split_closeBrace rfl (closes_zero_iff.mpr hmid)
      exact ⟨ha.append (hfront.token rfl), hback⟩
  · obtain ⟨w, mid, rfl, hmid⟩ := h.balanced_code.exists_opener
    refine ⟨w, brace.opener, mid ++ brace.closer :: b, ?_, Or.inr ⟨rfl, rfl⟩, ?_, ?_⟩
    · rw [List.append_assoc, List.cons_append]
      rfl
    · refine Pairing.partner?_eq_some_iff.mpr ⟨brace, Or.inr (mem_pairs_iff.mpr
        ⟨xs ++ w, mid, b ++ ys, ?_, ?_, ?_, hmid⟩)⟩
      · simp only [List.append_assoc, List.cons_append]
        rfl
      · rw [List.length_append]
      · simp only [List.length_append, List.length_cons]
        omega
    · intro ha hb
      obtain ⟨hfront, hback⟩ := ha.split_openBrace rfl hmid
      exact ⟨hfront, hback.append (hb.token rfl)⟩

/-- The partner of a brace among some items is the other brace, and whole items stand between. -/
theorem IsItems.between_partners {kinds : List TokenKind} {kind : TokenKind} {i j : Nat}
    (h : IsItems kinds) (hi : kinds[i]? = some kind)
    (hkind : kind = .openBrace ∨ kind = .closeBrace)
    (hj : (Pairing.ofKinds kinds).partner? i = some j) :
    ∃ xs mid ys, kinds = xs ++ .openBrace :: (mid ++ .closeBrace :: ys) ∧
      min i j = xs.length ∧ max i j = xs.length + 1 + mid.length ∧ IsItems mid := by
  obtain ⟨level, h⟩ := h
  have hmatched {a b : Nat} (hpair : (a, b) ∈ brace.pairs kinds) :
      ∃ xs mid ys, kinds = xs ++ .openBrace :: (mid ++ .closeBrace :: ys) ∧
        min a b = xs.length ∧ max a b = xs.length + 1 + mid.length ∧ IsItems mid := by
    obtain ⟨xs, mid, ys, rfl, rfl, rfl, hmid⟩ := mem_pairs_iff.mp hpair
    exact ⟨xs, mid, ys, rfl, by omega, by omega, h.items_between rfl hmid⟩
  obtain ⟨family, hpair | hpair⟩ := Pairing.partner?_eq_some_iff.mp hj
  · have hopener : family.opener = kind :=
      Option.some.inj ((getElem?_of_mem_pairs hpair).1.symm.trans hi)
    rcases hkind with hkind | hkind
    · have hsame : family.opener = brace.opener := hopener.trans hkind
      exact hmatched (opener_inj hsame ▸ hpair)
    · exact absurd (hopener.trans hkind) (opener_ne_closer family brace)
  · have hcloser : family.closer = kind :=
      Option.some.inj ((getElem?_of_mem_pairs hpair).2.symm.trans hi)
    rcases hkind with hkind | hkind
    · exact absurd (hcloser.trans hkind).symm (opener_ne_closer brace family)
    · have hsame : family.closer = brace.closer := hcloser.trans hkind
      rw [Nat.min_comm, Nat.max_comm]
      exact hmatched (closer_inj hsame ▸ hpair)

end ManifestSpacing
