import ManifestSpacing.Proofs.Lexical.Blanks
import Mathlib.Data.List.Nodup

/-!
# Identities and places of lexed tokens

The lexer numbers its tokens from zero and locates each behind the texts of
those before it. So identities are distinct, positions strictly increase, and
computing positions anew changes nothing. Positions depend on the texts alone.
-/

namespace ManifestSpacing

namespace Position

/-- Whether a place comes before another. -/
def Before (p q : Position) : Prop := p.line < q.line ∨ p.line = q.line ∧ p.column < q.column

theorem Before.trans {p q r : Position} (hpq : p.Before q) (hqr : q.Before r) : p.Before r := by
  unfold Before at *
  omega

theorem before_next (p : Position) (c : Char) : p.Before (p.next c) := by
  unfold Before next
  split
  · exact Or.inl (Nat.lt_succ_self _)
  · exact Or.inr ⟨rfl, Nat.lt_add_of_pos_right c.utf8Size_pos⟩

/-- Text moves the place forward. -/
theorem before_advance (p : Position) {cs : List Char} (h : cs ≠ []) : p.Before (p.advance cs) := by
  induction cs generalizing p with
  | nil => exact absurd rfl h
  | cons c cs ih =>
    rw [advance_cons]
    by_cases hcs : cs = []
    · rw [hcs, advance_nil]
      exact before_next p c
    · exact (before_next p c).trans (ih (p.next c) hcs)

end Position

namespace Lexer

variable {opens : List OpenString} {here : Position} {id : TokenId} {ts : List Token}

/-- A run numbers its tokens in order. -/
theorem Lexes.map_id (h : Lexes opens here id ts) : ts.map Token.id = List.range' id ts.length := by
  induction h with
  | nil => rfl
  | cons hid _ _ _ ih => rw [List.map_cons, ih, hid, List.length_cons, List.range'_succ]

/-- The identity of a token of a run tells its place. -/
theorem Lexes.id_of_getElem? (h : Lexes opens here id ts) {i : Nat} {t : Token}
    (ht : ts[i]? = some t) : t.id = id + i := by
  have hid : (ts.map Token.id)[i]? = some t.id := by rw [List.getElem?_map, ht, Option.map_some]
  have hi := (List.getElem?_eq_some_iff.mp ht).1
  rw [h.map_id, List.getElem?_range' hi, Nat.one_mul] at hid
  exact (Option.some.inj hid).symm

/-- A run gives no identity twice. -/
theorem Lexes.nodup (h : Lexes opens here id ts) : (ts.map Token.id).Nodup := by
  rw [h.map_id]
  exact List.nodup_range'

/-- Identities of a run stay below the next one. -/
theorem Lexes.id_lt (h : Lexes opens here id ts) : ∀ t ∈ ts, t.id < id + ts.length := by
  intro t ht
  have hmem := List.mem_map_of_mem (f := Token.id) ht
  rw [h.map_id, List.mem_range'_1] at hmem
  exact hmem.2

/-- Computing the positions of a run anew changes nothing. -/
theorem Lexes.repositionFrom_eq (h : Lexes opens here id ts) :
    TokenStream.repositionFrom here ts = ts := by
  induction h with
  | nil => rfl
  | @cons _ _ _ _ t _ _ hposition _ _ ih =>
    rw [TokenStream.repositionFrom, ih, ← hposition]

/-- A token of a run lies behind the texts of those before it. -/
theorem Lexes.position_of_append {xs ys : List Token} {t : Token}
    (h : Lexes opens here id (xs ++ t :: ys)) : t.position = here.advance (textOf xs) := by
  induction xs generalizing opens here id with
  | nil =>
    cases h with
    | cons _ hposition _ _ => exact hposition
  | cons u xs ih =>
    cases h with
    | cons _ _ _ hrest => rw [ih hrest, textOf_cons, Position.advance_append]

/-- Tokens of a run lie at or behind its start. -/
private theorem Lexes.not_before (h : Lexes opens here id ts) :
    ∀ t ∈ ts, t.position = here ∨ here.Before t.position := by
  induction h with
  | nil => simp
  | @cons _ _ here _ t _ _ hposition hcut _ ih =>
    intro u hu
    rcases List.mem_cons.mp hu with rfl | hu
    · exact Or.inl hposition
    · have hahead := here.before_advance hcut.ne_nil
      rcases ih u hu with heq | hbefore
      · exact Or.inr (heq ▸ hahead)
      · exact Or.inr (hahead.trans hbefore)

/-- The positions of a run strictly increase. -/
theorem Lexes.pairwise_before (h : Lexes opens here id ts) :
    ts.Pairwise fun t u => t.position.Before u.position := by
  induction h with
  | nil => exact .nil
  | @cons _ _ here _ t _ _ hposition hcut hrest ih =>
    refine List.pairwise_cons.mpr ⟨?_, ih⟩
    intro u hu
    have hahead := here.before_advance hcut.ne_nil
    rw [hposition]
    rcases hrest.not_before u hu with heq | hbefore
    · exact heq ▸ hahead
    · exact hahead.trans hbefore

/-- A later token of a run lies behind an earlier one. -/
theorem Lexes.before_of_lt (h : Lexes opens here id ts) {i j : Nat} (hij : i < j) {t u : Token}
    (ht : ts[i]? = some t) (hu : ts[j]? = some u) : t.position.Before u.position := by
  obtain ⟨hi, rfl⟩ := List.getElem?_eq_some_iff.mp ht
  obtain ⟨hj, rfl⟩ := List.getElem?_eq_some_iff.mp hu
  exact List.pairwise_iff_getElem.mp h.pairwise_before i j hi hj hij

end Lexer

/-- New positions depend on nothing but the texts. -/
theorem map_place_repositionFrom {ts us : List Token}
    (h : ts.map Token.face = us.map Token.face) (here : Position) :
    (TokenStream.repositionFrom here ts).map (fun t => (t.kind, t.text, t.position)) =
      (TokenStream.repositionFrom here us).map fun t => (t.kind, t.text, t.position) := by
  induction ts generalizing us here with
  | nil =>
    obtain rfl := List.map_eq_nil_iff.mp h.symm
    rfl
  | cons t ts ih =>
    cases us with
    | nil => cases h
    | cons u us =>
      obtain ⟨hface, htail⟩ := List.cons.inj h
      have hkind : t.kind = u.kind := congrArg Prod.fst hface
      have htext : t.text = u.text := congrArg Prod.snd hface
      rw [TokenStream.repositionFrom, TokenStream.repositionFrom, List.map_cons, List.map_cons,
        htext, hkind, ih htail]

end ManifestSpacing
