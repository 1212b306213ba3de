import Mathlib
import ManifestSpacing.Proofs.Lint.Edits
import ManifestSpacing.Proofs.Token.Finding

/-!
# The search from a hint is the search from the front

A hint saves steps and decides nothing. Whatever it is, the outward search only
looks at places that hold a token, and where identities are distinct it finds a
token at the index that the search from the front finds, and misses one that
has gone. Identities are distinct in every stream that edits can lead to, also
as the words in which they are counted, for as long as there are words left.
-/

namespace ManifestSpacing

namespace TokenStream

/-- Whether the token at an index has an identity; where there is no token, there is no answer. -/
def compareAt? (tokens : List Token) (id : TokenId) (i : Nat) : Option Bool :=
  (tokens[i]?).map fun t => t.id == id

/-- The outward search that stops without a result if it looks at a place that holds no token. Of
the two places at a distance it looks at the later one if that lies in front of the end, and at the
earlier one if there is one and it is not the same. -/
def searchByIndex? (tokens : List Token) (id : TokenId) (hint : Nat) :
    Nat → Nat → Option (Option Nat)
  | 0, _ => some none
  | rounds + 1, distance =>
    let after := hint + distance
    let before := hint - distance
    if tokens.length ≤ after ∧ hint < distance then some none
    else
      (if after < tokens.length then compareAt? tokens id after else some false).bind fun found =>
        if found then some (some after)
        else
          (if distance ≤ hint ∧ before ≠ after then compareAt? tokens id before
            else some false).bind fun found =>
              if found then some (some before)
              else searchByIndex? tokens id hint rounds (distance + 1)

/-- The index of the token with an identity, searched outward from `hint` by looks that may fail. A
stream without a last place is not searched. -/
def positionByIndex? (s : TokenStream) (id : TokenId) (hint : Nat) : Option (Option Nat) :=
  if s.tokens.length = 0 then some none
  else searchByIndex? s.tokens id (min hint (s.tokens.length - 1)) s.tokens.length 0

section Looks

variable {tokens : List Token} {id : TokenId} {hint distance i : Nat}

/-- A place inside the stream can be looked at. -/
theorem compareAt?_eq (hi : i < tokens.length) :
    compareAt? tokens id i = some (holdsAt tokens id i) := by
  rw [compareAt?, holdsAt, dif_pos hi, List.getElem?_eq_getElem hi, Option.map_some]

/-- The look at the later place never fails. -/
theorem look_after_eq : (if hint + distance < tokens.length then
      compareAt? tokens id (hint + distance) else some false) =
    some (holdsAt tokens id (hint + distance)) := by
  split
  · rename_i hlt
    exact compareAt?_eq hlt
  · rename_i hge
    rw [holdsAt, dif_neg hge]

/-- The look at the earlier place never fails once the hint lies inside the stream. -/
theorem look_before_eq (hhint : hint < tokens.length) :
    (if distance ≤ hint ∧ hint - distance ≠ hint + distance then
      compareAt? tokens id (hint - distance) else some false) =
    some (decide (distance ≠ 0 ∧ distance ≤ hint ∧ holdsAt tokens id (hint - distance))) := by
  by_cases hlook : distance ≤ hint ∧ hint - distance ≠ hint + distance
  · have hdistance : distance ≠ 0 := by omega
    rw [if_pos hlook, compareAt?_eq (by omega)]
    simp [hdistance, hlook.1]
  · have hsame : ¬ (distance ≠ 0 ∧ distance ≤ hint ∧ holdsAt tokens id (hint - distance)) :=
      fun h => hlook ⟨h.2.1, by omega⟩
    rw [if_neg hlook, decide_eq_false hsame]

/-- From a hint inside the stream every look is at a token. -/
theorem searchByIndex?_eq (hhint : hint < tokens.length) (rounds : Nat) :
    searchByIndex? tokens id hint rounds distance =
      some (searchOutward tokens id hint rounds distance) := by
  induction rounds generalizing distance with
  | zero => rfl
  | succ rounds ih =>
    rw [searchByIndex?, searchOutward]
    simp only [look_after_eq, look_before_eq hhint, Option.bind_some, ih, decide_eq_true_eq]
    split_ifs <;> rfl

end Looks

/-- The search from a hint never looks at a place that holds no token. -/
theorem positionByIndex?_eq (s : TokenStream) (id : TokenId) (hint : Nat) :
    s.positionByIndex? id hint = some (s.positionNear? id hint) := by
  rw [positionByIndex?]
  split
  · rename_i hempty
    rw [positionNear?, hempty, searchOutward]
  · exact searchByIndex?_eq (by omega) _

/-- Where identities are distinct, a token is found from every hint where it is found from the
front, and nothing is found in its stead. -/
theorem positionNear?_eq_of_nodup {s : TokenStream} (hnodup : (s.tokens.map Token.id).Nodup)
    (id : TokenId) (hint : Nat) : s.positionNear? id hint = s.positionOf? id := by
  cases hnear : s.positionNear? id hint with
  | some i =>
    obtain ⟨t, ht, rfl⟩ := exists_token_of_positionNear? hnear
    exact (positionOf?_eq_some hnodup ht).symm
  | none =>
    symm
    rw [positionOf?, List.findIdx?_eq_none_iff]
    intro t ht
    rw [beq_eq_false_iff_ne]
    rintro rfl
    -- a token of the stream would have been found
    obtain ⟨i, hi⟩ := List.getElem?_of_mem ht
    rw [positionNear?_eq_some hnodup hi hint] at hnear
    cases hnear

/-- Wherever edits of an empty or a lexed stream lead, identities are distinct. -/
theorem numbered_edit {s : TokenStream} (hstart : s = .empty ∨ ∃ source, lex source = .ok s)
    (edits : List Edit) : (s.edit edits).Numbered := by
  have hs : s.Numbered := by
    rcases hstart with rfl | ⟨source, hlex⟩
    · exact ⟨List.nodup_nil, nofun⟩
    · exact .of_lex hlex
  exact (s.extends_edit edits).numbered hs

/-- The outward search looks at places inside the stream alone. In a stream with distinct identities
it gives the answer of the search from the front, for every identity and every hint. All streams
that edits can lead to are of this kind while their identities fit into 32 bits. -/
theorem positionNear?_eq_positionOf? :
    (∀ (s : TokenStream) (id : TokenId) (hint : Nat),
      s.positionByIndex? id hint = some (s.positionNear? id hint)) ∧
    (∀ s : TokenStream, (s.tokens.map Token.id).Nodup → ∀ (id : TokenId) (hint : Nat),
      s.positionNear? id hint = s.positionOf? id) ∧
    ∀ (s : TokenStream) (edits : List Edit), (s = .empty ∨ ∃ source, lex source = .ok s) →
      (s.edit edits).Fits →
      ((s.edit edits).tokens.map fun t => t.id.toUInt32).Nodup ∧
      ∀ (id : TokenId) (hint : Nat),
        (s.edit edits).positionNear? id hint = (s.edit edits).positionOf? id := by
  refine ⟨positionByIndex?_eq, fun _ => positionNear?_eq_of_nodup, fun s edits hstart hfits => ?_⟩
  have hnumbered := numbered_edit hstart edits
  exact ⟨(hnumbered.words hfits).1, positionNear?_eq_of_nodup hnumbered.nodup⟩

/-- A token is found from a hint past the end, and a blank that has been replaced is found from no
hint. -/
theorem positionNear?_eq_positionOf?_past_end :
    ∃ s, lex "\x7b  \x7d" = .ok s ∧ (s.tokens.map Token.id).Nodup ∧
      s.positionNear? 0 (2 ^ 64 - 1) = s.positionOf? 0 ∧ s.positionOf? 0 = some 0 ∧
      (s.edit [.replaceGap 1 2 []]).Fits ∧
      (s.edit [.replaceGap 1 2 []]).positionNear? 2 (2 ^ 64 - 1) =
        (s.edit [.replaceGap 1 2 []]).positionOf? 2 ∧
      (s.edit [.replaceGap 1 2 []]).positionOf? 2 = some 1 ∧
      (s.edit [.replaceGap 1 2 []]).positionNear? 1 0 =
        (s.edit [.replaceGap 1 2 []]).positionOf? 1 ∧
      (s.edit [.replaceGap 1 2 []]).positionOf? 1 = none := by
  have hlex : lex "\x7b  \x7d" = .ok ⟨[⟨0, .openBrace, "\x7b", ⟨1, 1⟩⟩,
      ⟨1, .whitespace, "  ", ⟨1, 2⟩⟩, ⟨2, .closeBrace, "\x7d", ⟨1, 4⟩⟩], 3⟩ := by cbv
  have hnodup : ([0, 1, 2] : List TokenId).Nodup := by decide
  have hedited := positionNear?_eq_positionOf?.2.2 _ [.replaceGap 1 2 []] (Or.inr ⟨_, hlex⟩)
    (by decide)
  refine ⟨_, hlex, hnodup, ?_, by decide, by decide, hedited.2 2 _, by decide, hedited.2 1 0,
    by decide⟩
  apply positionNear?_eq_positionOf?.2.1
  exact hnodup

end TokenStream

end ManifestSpacing
