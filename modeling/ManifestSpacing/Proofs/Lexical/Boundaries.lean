import Mathlib
import ManifestSpacing.Proofs.Lexical.Blanks
import ManifestSpacing.Proofs.Lexical.OpenStrings

/-!
# Cutting a manifest in two

Between two tokens the lexer knows of the past no more than which strings are
open. Where none is, it reads the text behind as it would read it alone, and
since no token depends on more of the text behind it than is left after a cut,
it reads the text before as it would alone. Some string is open exactly where
more of them have been opened than closed, and there the text before is no
manifest.
-/

namespace ManifestSpacing

namespace Lexer

variable {here : Position} {opens after : List OpenString} {id : TokenId} {kind : TokenKind}
  {text rest : List Char} {ts : List Token}

/-! ## Counting open strings -/

/-- A token changes the number of open strings by the quote that it is. -/
theorem Cut.length_opens (h : Cut here opens kind text rest after) :
    after.length + [kind].count .quoteClose = opens.length + [kind].count .quoteOpen := by
  have hlength (os : List OpenString) : (os.map OpenString.start).length = os.length :=
    List.length_map ..
  rcases h.starts with ⟨rfl, hstarts⟩ | ⟨rfl, p, hstarts⟩ | ⟨hsame, hstarts⟩
  · have hafter := congrArg List.length hstarts
    rwa [hlength, List.length_cons, hlength] at hafter
  · have hopens := congrArg List.length hstarts
    rw [hlength, List.length_cons, hlength] at hopens
    exact hopens.symm
  · have hafter := congrArg List.length hstarts
    rw [hlength, hlength] at hafter
    have hopen : kind ≠ .quoteOpen := by
      rintro rfl
      cases hsame 0
    have hclose : kind ≠ .quoteClose := by
      rintro rfl
      cases hsame 0
    rw [hafter, List.count_singleton, List.count_singleton, beq_false_of_ne hopen,
      beq_false_of_ne hclose]

/-- As many strings are open behind a run as it opens and does not close. -/
theorem Passes.length_opens (h : Passes rest after opens here id ts) :
    after.length + (ts.map Token.kind).count .quoteClose =
      opens.length + (ts.map Token.kind).count .quoteOpen := by
  induction h with
  | nil => rfl
  | @cons opens mid here id t ts _ _ hcut _ ih =>
    have htoken := hcut.length_opens
    rw [List.map_cons, ← List.singleton_append, List.count_append, List.count_append]
    omega

/-- No string is open behind a run from outside all strings exactly where the quotes balance. -/
theorem Passes.after_eq_nil_iff (h : Passes rest after [] here id ts) : after = [] ↔
    (ts.map Token.kind).count .quoteOpen = (ts.map Token.kind).count .quoteClose := by
  have hlength := h.length_opens
  rw [← List.length_eq_zero_iff]
  simp only [List.length_nil] at hlength
  omega

/-! ## Both sides of a cut -/

/-- The tokens of a run are read wherever their text stands. -/
theorem Lexes.rereads (h : Lexes opens here id ts) : Rereads opens ts := by
  induction h with
  | nil => exact rereads_nil
  | @cons opens after here id t ts _ _ hcut _ ih =>
    intro opens' here' id' hdepths
    obtain ⟨after', hcut', hdepths'⟩ := hcut.relocate here' hdepths
    obtain ⟨us, hus, hfaces⟩ := ih after' (here'.advance t.text.toList) (id' + 1) hdepths'
    rw [← textOf_eq_of_map_face hfaces] at hcut'
    refine ⟨⟨id', t.kind, t.text, here'⟩ :: us, .cons rfl rfl hcut' hus, ?_⟩
    rw [List.map_cons, List.map_cons, hfaces]
    rfl

/-- Tokens that leave no string open behind them make a manifest of their own. -/
theorem Passes.lex_eq (h : Passes rest [] [] .start 0 ts) :
    lex (renderTokens ts) = .ok ⟨ts, ts.length⟩ :=
  lex_eq_ok_iff.mpr ⟨lexes_iff_passes.mpr (Passes.truncate h), rfl, rfl⟩

/-- Tokens that leave a string open make none. -/
theorem Passes.lex_ne_ok (h : Passes rest after [] .start 0 ts) (hopen : after ≠ [])
    (s : TokenStream) : lex (renderTokens ts) ≠ .ok s := by
  have hfront : Passes [] after [] .start 0 ts := Passes.truncate h
  have hgo := hfront.tokensFrom_eq
  have herror : lex (renderTokens ts) = .error ⟨(after.getLast hopen).start⟩ := by
    rw [lex_eq_error_iff, toList_renderTokens]
    rw [List.append_nil, tokensFrom, List.getLast?_eq_some_getLast hopen] at hgo
    exact hgo
  intro hlex
  rw [herror] at hlex
  cases hlex

/-- Tokens of a run make a manifest wherever they were read, if no string is open around them. -/
theorem Lexes.exists_lex_eq (h : Lexes [] here id ts) : ∃ s, lex (renderTokens ts) = .ok s ∧
    s.tokens.map Token.face = ts.map Token.face := by
  obtain ⟨us, hus, hfaces⟩ := h.rereads [] .start 0 rfl
  refine ⟨⟨us, us.length⟩, lex_eq_ok_iff.mpr ⟨hus, ?_, rfl⟩, hfaces⟩
  rw [TokenStream.render, ← String.toList_inj, toList_renderTokens, toList_renderTokens]
  exact textOf_eq_of_map_face hfaces

end Lexer

open Lexer

/-- A manifest may be cut between any two tokens, or in front of the first or behind the last,
where as many interpolations have been closed as opened: the texts before and behind the cut are
manifests, and their tokens are those of the whole. Where fewer have been closed, the text before
is none. -/
theorem lex_cut_outside_interpolations {source : String} {s : TokenStream}
    (hlex : lex source = .ok s) {front back : List Token} (htokens : s.tokens = front ++ back) :
    source = renderTokens front ++ renderTokens back ∧
    ((∃ s₁, lex (renderTokens front) = .ok s₁) ↔
      (front.map Token.kind).count .quoteOpen = (front.map Token.kind).count .quoteClose) ∧
    ((front.map Token.kind).count .quoteOpen = (front.map Token.kind).count .quoteClose →
      ∃ s₁ s₂, lex (renderTokens front) = .ok s₁ ∧ lex (renderTokens back) = .ok s₂ ∧
        (s₁.tokens ++ s₂.tokens).map Token.face = s.tokens.map Token.face) := by
  obtain ⟨hlexes, hrender, _⟩ := lex_eq_ok_iff.mp hlex
  rw [htokens] at hlexes
  obtain ⟨mid, hfront, hback⟩ := Passes.append_iff.mp (lexes_iff_passes.mp hlexes)
  have hclosed := hfront.after_eq_nil_iff
  refine ⟨?_, ⟨?_, ?_⟩, ?_⟩
  · rw [← hrender, TokenStream.render, htokens, ← String.toList_inj, String.toList_append,
      toList_renderTokens, toList_renderTokens, toList_renderTokens, List.flatMap_append]
  · rintro ⟨s₁, hlex₁⟩
    rw [← hclosed]
    by_contra hopen
    exact hfront.lex_ne_ok hopen s₁ hlex₁
  · intro hcount
    obtain rfl := hclosed.mpr hcount
    exact ⟨_, hfront.lex_eq⟩
  · intro hcount
    obtain rfl := hclosed.mpr hcount
    obtain ⟨s₂, hlex₂, hfaces⟩ := (lexes_iff_passes.mpr hback).exists_lex_eq
    refine ⟨_, s₂, hfront.lex_eq, hlex₂, ?_⟩
    rw [List.map_append, hfaces, htokens, List.map_append]

/-- A number and the letter behind it are cut apart although they could begin an exponent. -/
theorem lex_cut_outside_interpolations_before_exponent :
    ∃ s, lex "'\\\n/*\"$\x7bx\x7d\"1e" = .ok s ∧
      s.tokens = s.tokens.take 8 ++ s.tokens.drop 8 ∧
      "'\\\n/*\"$\x7bx\x7d\"1e" = renderTokens (s.tokens.take 8) ++ renderTokens (s.tokens.drop 8) ∧
      ((s.tokens.take 8).map Token.kind).count .quoteOpen =
        ((s.tokens.take 8).map Token.kind).count .quoteClose ∧
      ∃ s₁ s₂, lex (renderTokens (s.tokens.take 8)) = .ok s₁ ∧
        lex (renderTokens (s.tokens.drop 8)) = .ok s₂ ∧
        (s₁.tokens ++ s₂.tokens).map Token.face = s.tokens.map Token.face := by
  have hlex : lex "'\\\n/*\"$\x7bx\x7d\"1e" = .ok ⟨[⟨0, .other, "'", ⟨1, 1⟩⟩,
      ⟨1, .other, "\\", ⟨1, 2⟩⟩, ⟨2, .newline, "\n", ⟨1, 3⟩⟩, ⟨3, .other, "/*", ⟨2, 1⟩⟩,
      ⟨4, .quoteOpen, "\"$\x7b", ⟨2, 3⟩⟩, ⟨5, .name, "x", ⟨2, 6⟩⟩,
      ⟨6, .quoteClose, "\x7d\"", ⟨2, 7⟩⟩, ⟨7, .number, "1", ⟨2, 9⟩⟩,
      ⟨8, .name, "e", ⟨2, 10⟩⟩], 9⟩ := by cbv
  refine ⟨_, hlex, rfl, ?_⟩
  obtain ⟨htext, _, hcut⟩ := lex_cut_outside_interpolations hlex
    (List.take_append_drop 8 _).symm
  exact ⟨htext, rfl, hcut rfl⟩

end ManifestSpacing
