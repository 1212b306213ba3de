import ManifestSpacing.Proofs.Lexical.Cutting

/-!
# Runs of the lexer

A run cuts off token after token until nothing is left and no string is open.
The tokens of a run carry all of its text, so a run is a property of the tokens
alone: each is cut off before the text of those that follow. Identities count
up, positions follow from the texts, and kinds of blanks and braces fix the
spelling of their tokens.
-/

namespace ManifestSpacing

/-- The characters of a run of tokens. -/
def textOf (tokens : List Token) : List Char := tokens.flatMap fun t => t.text.toList

@[simp] theorem textOf_nil : textOf [] = [] := rfl

@[simp] theorem textOf_cons (t : Token) (ts : List Token) :
    textOf (t :: ts) = t.text.toList ++ textOf ts := rfl

@[simp] theorem textOf_append (ts us : List Token) :
    textOf (ts ++ us) = textOf ts ++ textOf us := by
  simp only [textOf, List.flatMap_append]

theorem toList_render (s : TokenStream) : s.render.toList = textOf s.tokens :=
  toList_renderTokens s.tokens

namespace Lexer

open Grammar

/-- Tokens that the lexer cuts off one after the other, from a position and an identity on, where
some strings are open. -/
inductive Lexes : List OpenString → Position → TokenId → List Token → Prop where
  | nil {here : Position} {id : TokenId} : Lexes [] here id []
  | cons {opens after : List OpenString} {here : Position} {id : TokenId} {t : Token}
      {ts : List Token} (hid : t.id = id) (hposition : t.position = here)
      (hcut : Cut here opens t.kind t.text.toList (textOf ts) after)
      (hrest : Lexes after (here.advance t.text.toList) (id + 1) ts) :
      Lexes opens here id (t :: ts)

/-- No token is empty. -/
theorem Cut.ne_nil {here : Position} {opens after : List OpenString} {kind : TokenKind}
    {text rest : List Char} (h : Cut here opens kind text rest after) : text ≠ [] := by
  cases h <;> exact List.cons_ne_nil _ _

/-- A step cuts off as many characters as it says. -/
theorem cut_take_of_step {opens : List OpenString} {here : Position} {c : Char} {cs : List Char}
    {found : Step} (h : step opens here (c :: cs) = .ok found) :
    Cut here opens found.kind (c :: cs.take (found.length - 1)) (cs.drop (found.length - 1))
      found.opens := by
  obtain ⟨text, rest, hsplit, hlength, hcut⟩ := cut_of_step h
  have hpos : found.length = (found.length - 1) + 1 := by
    have hne := List.length_pos_iff.mpr hcut.ne_nil
    omega
  have hparts : text ++ rest =
      (c :: cs.take (found.length - 1)) ++ cs.drop (found.length - 1) := by
    rw [← hsplit, List.cons_append, List.take_append_drop]
  have htext : text.length = (c :: cs.take (found.length - 1)).length := by
    have hle := congrArg List.length hsplit
    rw [List.length_append, List.length_cons] at hle
    rw [List.length_cons, List.length_take]
    omega
  obtain ⟨rfl, rfl⟩ := List.append_inj hparts htext
  exact hcut

/-- The lexer goes on behind a cut, and fails if it fails there. -/
theorem tokensFrom_cut {here : Position} {opens after : List OpenString} {kind : TokenKind}
    {text rest : List Char} (h : Cut here opens kind text rest after) (id : TokenId) :
    tokensFrom opens here id (text ++ rest) =
      (tokensFrom after (here.advance text) (id + 1) rest).map
        (⟨id, kind, String.ofList text, here⟩ :: ·) := by
  have hstep := step_of_cut h
  cases text with
  | nil => exact absurd rfl h.ne_nil
  | cons c cs =>
    rw [List.cons_append] at hstep ⊢
    rw [tokensFrom]
    simp only [hstep, List.length_cons, Nat.add_sub_cancel, List.take_left, List.drop_left]
    cases tokensFrom after (here.advance (c :: cs)) (id + 1) rest <;> rfl

/-- A run of the lexer cuts its whole text into tokens, and it finds every such cut. -/
theorem tokensFrom_eq_ok_iff {opens : List OpenString} {here : Position} {id : TokenId}
    {source : List Char} {tokens : List Token} :
    tokensFrom opens here id source = .ok tokens ↔
      Lexes opens here id tokens ∧ source = textOf tokens := by
  constructor
  · intro h
    fun_induction tokensFrom opens here id source generalizing tokens with
    | case1 opens here id hopens =>
      cases h
      rw [List.getLast?_eq_none_iff.mp hopens]
      exact ⟨.nil, rfl⟩
    | case2 => cases h
    | case3 => cases h
    | case4 => cases h
    | case5 opens here id c cs found hstep text tail hrest =>
      rename_i ih
      cases h
      obtain ⟨htail, htext⟩ := ih hrest
      have hcut := cut_take_of_step hstep
      rw [htext] at hcut
      refine ⟨@Lexes.cons opens found.opens here id _ tail rfl rfl ?_ ?_, ?_⟩
      · simpa only [String.toList_ofList] using hcut
      · simpa only [String.toList_ofList] using htail
      · rw [textOf_cons, String.toList_ofList, ← htext, List.cons_append, List.take_append_drop]
  · rintro ⟨h, rfl⟩
    induction h with
    | nil => rw [textOf_nil, tokensFrom]; rfl
    | @cons opens after here id t ts hid hposition hcut hrest ih =>
      rw [textOf_cons, tokensFrom_cut hcut, ih, String.ofList_toList, ← hid, ← hposition]
      rfl

end Lexer

/-- A manifest gives the error of the run over its text. -/
theorem lex_eq_error_iff {source : String} {e : LexError} :
    lex source = .error e ↔ Lexer.tokensFrom [] .start 0 source.toList = .error e := by
  unfold lex
  cases Lexer.tokensFrom [] .start 0 source.toList with
  | error => simp only [Except.error.injEq]
  | ok => simp only [reduceCtorEq]

/-- A manifest is lexed into the tokens of a run over its text. -/
theorem lex_eq_ok_iff {source : String} {s : TokenStream} :
    lex source = .ok s ↔
      Lexer.Lexes [] .start 0 s.tokens ∧ s.render = source ∧ s.nextId = s.tokens.length := by
  have hrender : ∀ tokens : List Token, source.toList = textOf tokens ↔
      renderTokens tokens = source := by
    intro tokens
    rw [← String.toList_inj, toList_renderTokens]
    exact eq_comm
  unfold lex
  cases htokens : Lexer.tokensFrom [] .start 0 source.toList with
  | error e =>
    simp only [reduceCtorEq, false_iff]
    rintro ⟨hlexes, htext, _⟩
    rw [Lexer.tokensFrom_eq_ok_iff.mpr ⟨hlexes, (hrender _).mpr htext⟩] at htokens
    cases htokens
  | ok tokens =>
    obtain ⟨hlexes, htext⟩ := Lexer.tokensFrom_eq_ok_iff.mp htokens
    constructor
    · intro h
      cases h
      exact ⟨hlexes, (hrender _).mp htext, rfl⟩
    · rintro ⟨hother, hsource, hid⟩
      have hsame := Lexer.tokensFrom_eq_ok_iff.mpr ⟨hother, (hrender _).mpr hsource⟩
      rw [hsame] at htokens
      cases htokens
      exact congrArg Except.ok (congrArg (TokenStream.mk s.tokens) hid.symm)

end ManifestSpacing
