import ManifestSpacing.Token.Stream
import Mathlib.Data.List.Nodup

/-!
# Finding a token again

The outward search looks at every place once, in the order of the distance
from where it starts. Where identities are distinct it therefore finds the
token that is looked for, whatever the hint.
-/

namespace ManifestSpacing

/-- Where values are distinct, a value has one index. -/
theorem eq_of_nodup_map {α β : Type} {f : α → β} {as : List α} (hnodup : (as.map f).Nodup)
    {i j : Nat} {a b : α} (ha : as[i]? = some a) (hb : as[j]? = some b) (h : f a = f b) :
    i = j := by
  have hi : (as.map f)[i]? = some (f a) := by rw [List.getElem?_map, ha, Option.map_some]
  have hj : (as.map f)[j]? = some (f b) := by rw [List.getElem?_map, hb, Option.map_some]
  have hlt := (List.getElem?_eq_some_iff.mp hi).1
  exact (List.getElem?_inj hlt hnodup).mp (by rw [hi, hj, h])

namespace TokenStream

theorem holdsAt_iff {tokens : List Token} {id : TokenId} {i : Nat} :
    holdsAt tokens id i = true ↔ ∃ t, tokens[i]? = some t ∧ t.id = id := by
  unfold holdsAt
  split
  · rename_i hi
    simp [List.getElem?_eq_getElem hi]
  · rename_i hi
    simp [List.getElem?_eq_none (Nat.le_of_not_lt hi)]

/-- The search finds the one place that holds the identity, once that place is neither closer than
the distance reached nor further than the rounds left. -/
theorem searchOutward_eq_some {tokens : List Token} {id : TokenId} {hint i : Nat}
    (hi : holdsAt tokens id i = true) (hunique : ∀ j, holdsAt tokens id j = true → j = i)
    {rounds distance : Nat} (hfar : distance ≤ (i - hint) + (hint - i))
    (hnear : (i - hint) + (hint - i) < distance + rounds) :
    searchOutward tokens id hint rounds distance = some i := by
  have hlt : i < tokens.length := by
    obtain ⟨t, ht, _⟩ := holdsAt_iff.mp hi
    exact (List.getElem?_eq_some_iff.mp ht).1
  induction rounds generalizing distance with
  | zero => omega
  | succ rounds ih =>
    rw [searchOutward, if_neg (by omega)]
    split
    · rename_i hright
      rw [hunique _ hright]
    · rename_i hright
      split
      · rename_i hleft
        rw [hunique _ hleft.2.2]
      · rename_i hleft
        apply ih
        · -- the place is at neither end of this round
          have hne : i ≠ hint + distance := fun h => hright (h ▸ hi)
          have hne' : distance = 0 ∨ hint < distance ∨ i ≠ hint - distance := by
            by_contra hall
            exact hleft ⟨by omega, by omega, by rwa [show hint - distance = i by omega]⟩
          omega
        · omega

/-- Whatever the search finds holds the identity. -/
theorem holdsAt_of_searchOutward {tokens : List Token} {id : TokenId} {hint rounds distance i : Nat}
    (h : searchOutward tokens id hint rounds distance = some i) : holdsAt tokens id i = true := by
  induction rounds generalizing distance with
  | zero => cases h
  | succ rounds ih =>
    rw [searchOutward] at h
    split at h
    · cases h
    split at h
    · rename_i hright
      exact Option.some.inj h ▸ hright
    split at h
    · rename_i hleft
      exact Option.some.inj h ▸ hleft.2.2
    · exact ih h

/-- An index that is found holds a token with the identity. -/
theorem exists_token_of_positionNear? {s : TokenStream} {id : TokenId} {hint i : Nat}
    (h : s.positionNear? id hint = some i) : ∃ t, s.tokens[i]? = some t ∧ t.id = id :=
  holdsAt_iff.mp (holdsAt_of_searchOutward h)

/-- The index of a token is found from every hint. -/
theorem positionNear?_eq_some {s : TokenStream} (hnodup : (s.tokens.map Token.id).Nodup) {i : Nat}
    {t : Token} (ht : s.tokens[i]? = some t) (hint : Nat) :
    s.positionNear? t.id hint = some i := by
  have hlt := (List.getElem?_eq_some_iff.mp ht).1
  have hunique : ∀ j, holdsAt s.tokens t.id j = true → j = i := by
    intro j hj
    obtain ⟨u, hu, hid⟩ := holdsAt_iff.mp hj
    exact eq_of_nodup_map hnodup hu ht hid
  apply searchOutward_eq_some (holdsAt_iff.mpr ⟨t, ht, rfl⟩) hunique
  · omega
  · omega

/-- Where identities are distinct, a token is found at its index. -/
theorem positionOf?_eq_some {s : TokenStream} (hnodup : (s.tokens.map Token.id).Nodup) {i : Nat}
    {t : Token} (ht : s.tokens[i]? = some t) : s.positionOf? t.id = some i := by
  obtain ⟨hi, rfl⟩ := List.getElem?_eq_some_iff.mp ht
  rw [positionOf?, List.findIdx?_eq_some_iff_getElem]
  refine ⟨hi, beq_self_eq_true _, fun j hj => ?_⟩
  intro hid
  have hjlt : j < s.tokens.length := Nat.lt_trans hj hi
  have hsame := eq_of_nodup_map hnodup (List.getElem?_eq_getElem hjlt)
    (List.getElem?_eq_getElem hi) (eq_of_beq hid)
  exact absurd hsame (Nat.ne_of_lt hj)

/-- Repositioning moves no token. -/
theorem positionOf?_reposition (s : TokenStream) (id : TokenId) :
    s.reposition.positionOf? id = s.positionOf? id := by
  have hfind (here : Position) (ts : List Token) :
      (repositionFrom here ts).findIdx? (fun t => t.id == id) =
        ts.findIdx? fun t => t.id == id := by
    induction ts generalizing here with
    | nil => rfl
    | cons t ts ih => rw [repositionFrom, List.findIdx?_cons, List.findIdx?_cons, ih]
  exact hfind .start s.tokens

end TokenStream

end ManifestSpacing
