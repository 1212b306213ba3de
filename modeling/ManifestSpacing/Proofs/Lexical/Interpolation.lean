import ManifestSpacing.Proofs.Lexical.Spelling
import ManifestSpacing.Proofs.Structure.Nesting

/-!
# Interpolated strings in a lexed manifest

The lexer counts the braces of each open string to tell the end of an
interpolation from a brace in it. What follows a place completes the strings
that are open there: each gets the closing braces it counts, then its end. A
token goes in front of what completes the strings open behind it, so a run
completes the strings that are open before it.
-/

namespace ManifestSpacing

namespace Lexer

open Family Grammar

/-- Kinds that complete the strings that are open before them, given the number of braces open in
each, innermost first. -/
inductive Completes : List Nat → List TokenKind → Prop where
  | outside {kinds : List TokenKind} (h : IsItems kinds) : Completes [] kinds
  | close {depth : Nat} {depths : List Nat} {level code rest : List TokenKind}
      (hcode : (Phrase.items level).Generates code) (hcloses : brace.Closes depth level)
      (hrest : Completes depths rest) : Completes (depth :: depths) (code ++ .quoteClose :: rest)
  | next {depth : Nat} {depths : List Nat} {level code rest : List TokenKind}
      (hcode : (Phrase.items level).Generates code) (hcloses : brace.Closes depth level)
      (hrest : Completes (0 :: depths) rest) :
      Completes (depth :: depths) (code ++ .quoteMid :: rest)

namespace Completes

variable {depth opened : Nat} {depths : List Nat} {kind : TokenKind}
  {level front kinds : List TokenKind}

/-- Items in front of an interpolation change how many braces it has to close. -/
theorem prepend (hfront : (Phrase.items level).Generates front)
    (hcloses : ∀ {word}, brace.Closes opened word → brace.Closes depth (level ++ word))
    (h : Completes (opened :: depths) kinds) : Completes (depth :: depths) (front ++ kinds) := by
  cases h with
  | close hcode hword hrest =>
    rw [← List.append_assoc]
    exact .close (hfront.append hcode) (hcloses hword) hrest
  | next hcode hword hrest =>
    rw [← List.append_assoc]
    exact .next (hfront.append hcode) (hcloses hword) hrest

/-- Items without braces of their own can stand in front anywhere. -/
theorem prepend_settled (hfront : (Phrase.items level).Generates front)
    (hlevel : brace.Balanced level) (h : Completes depths kinds) :
    Completes depths (front ++ kinds) := by
  cases depths with
  | nil =>
    cases h with
    | outside h => exact .outside (IsItems.append ⟨level, hfront⟩ h)
  | cons depth depths => exact h.prepend hfront hlevel.append_iff.mpr

theorem other (hkind : kind.isQuote = false) (hopener : kind ≠ .openBrace)
    (hcloser : kind ≠ .closeBrace) (h : Completes depths kinds) :
    Completes depths (kind :: kinds) := by
  apply h.prepend_settled (.token hkind .nil)
  rw [← closes_zero_iff, closes_other_iff hopener hcloser]
  exact closes_nil_iff.mpr rfl

/-- What completes an open string has its tail in front. -/
theorem exists_tail (h : Completes (0 :: depths) kinds) :
    ∃ inside rest, kinds = inside ++ rest ∧ Phrase.tail.Generates inside ∧
      Completes depths rest := by
  generalize hopen : 0 :: depths = opens at h
  induction h with
  | outside => cases hopen
  | @close _ _ level code rest hcode hcloses hrest =>
    cases hopen
    refine ⟨code ++ [.quoteClose], rest, ?_, .close (.code hcode (closes_zero_iff.mp hcloses)),
      hrest⟩
    rw [List.append_assoc, List.singleton_append]
  | @next _ _ level code _ hcode hcloses _ ih =>
    cases hopen
    obtain ⟨inside, rest, rfl, hinside, hrest⟩ := ih rfl
    refine ⟨code ++ .quoteMid :: inside, rest, ?_,
      .next (.code hcode (closes_zero_iff.mp hcloses)) hinside, hrest⟩
    rw [List.append_assoc, List.cons_append]

theorem quoteOpen (h : Completes (0 :: depths) kinds) :
    Completes depths (.quoteOpen :: kinds) := by
  obtain ⟨inside, rest, rfl, hinside, hrest⟩ := h.exists_tail
  have hstring : (Phrase.items []).Generates (.quoteOpen :: (inside ++ [])) :=
    .string hinside .nil
  rw [List.append_nil] at hstring
  exact hrest.prepend_settled hstring (closes_zero_iff.mp (closes_nil_iff.mpr rfl))

end Completes

/-- The kinds of quotes. -/
def quoteKinds : List TokenKind := [.quoteOpen, .quoteMid, .quoteClose]

theorem isQuote_eq_false {kind : TokenKind} (h : kind ∉ quoteKinds) : kind.isQuote = false := by
  revert h
  cases kind <;> decide

/-- No rule of the grammar makes a quote; that takes the open strings. -/
theorem isQuote_of_firstLexeme {source : List Char} {kind : TokenKind} {n : Nat}
    (h : firstLexeme source = (.plain kind, n)) : kind.isQuote = false := by
  have hrules : ∀ rule ∈ rules, ∀ quote ∈ quoteKinds, rule.lexeme ≠ .plain quote := by decide
  unfold firstLexeme at h
  split at h
  · rename_i found hbest
    obtain ⟨rule, hrule, hlexeme, _⟩ := exists_of_bestMatch_eq_some (h ▸ hbest)
    exact isQuote_eq_false fun hmem => hrules rule hrule kind hmem hlexeme
  · cases h
    rfl

theorem isQuote_wordKind (text : String) : (wordKind text).isQuote = false := by
  unfold wordKind
  (repeat' split) <;> rfl

/-- A token goes in front of what completes the strings that are open behind it. -/
theorem Cut.completes {here : Position} {opens after : List OpenString} {kind : TokenKind}
    {text rest : List Char} (h : Cut here opens kind text rest after) {kinds : List TokenKind}
    (hrest : Completes (after.map OpenString.braces) kinds) :
    Completes (opens.map OpenString.braces) (kind :: kinds) := by
  cases h with
  | quoteOpen => exact hrest.quoteOpen
  | openBrace =>
    cases opens with
    | nil =>
      cases hrest with
      | outside h => exact .outside (h.token rfl)
    | cons o os => exact hrest.prepend (.token rfl .nil) closes_opener_iff.mpr
  | closeBrace =>
    cases hrest with
    | outside h => exact .outside (h.token rfl)
  | @innerBrace o os _ hpos =>
    obtain ⟨depth, hdepth⟩ := Nat.exists_eq_add_of_lt hpos
    rw [Nat.zero_add] at hdepth
    rw [List.map_cons, hdepth] at hrest ⊢
    exact hrest.prepend (.token rfl .nil) closes_closer_iff.mpr
  | quoteClose hzero => exact .close .nil (closes_nil_iff.mpr hzero) hrest
  | @quoteMid o os _ _ hzero =>
    rw [List.map_cons, hzero] at hrest ⊢
    exact .next .nil (closes_nil_iff.mpr rfl) hrest
  | plain hc hfirst =>
    have hseparate := plain_kind_not_mem hc hfirst
    exact hrest.other (isQuote_of_firstLexeme hfirst) (fun h => hseparate (h ▸ by decide))
      fun h => hseparate (h ▸ by decide)
  | @word _ c cs =>
    have hseparate := wordKind_not_mem (String.ofList (c :: cs))
    exact hrest.other (isQuote_wordKind _) (fun h => hseparate (h ▸ by decide))
      fun h => hseparate (h ▸ by decide)
  | _ => exact hrest.other rfl (by decide) (by decide)

/-- The tokens of a run complete the strings that are open before it. -/
theorem Lexes.completes {opens : List OpenString} {here : Position} {id : TokenId}
    {tokens : List Token} (h : Lexes opens here id tokens) :
    Completes (opens.map OpenString.braces) (tokens.map Token.kind) := by
  induction h with
  | nil => exact .outside .nil
  | cons _ _ hcut _ ih => exact hcut.completes ih

end Lexer

end ManifestSpacing
