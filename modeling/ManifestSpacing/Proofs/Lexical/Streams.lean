import Mathlib
import ManifestSpacing.Proofs.Lexical.Interpolation
import ManifestSpacing.Proofs.Lexical.Places

/-!
# The stream of a manifest

Lexing keeps every character of a manifest. The tokens nest as its strings do,
and the matching of braces, which knows of no strings, agrees with the lexer,
which counts them for each string.
-/

namespace ManifestSpacing

/-- Lexing loses nothing and adds nothing: the texts of the tokens, none of them empty, make up the
manifest, and the tokens are numbered from zero in their order. -/
theorem lex_lossless {source : String} {s : TokenStream} (hlex : lex source = .ok s) :
    s.render = source ∧ (∀ t ∈ s.tokens, t.text ≠ "") ∧
      s.tokens.map Token.id = List.range s.tokens.length ∧ s.nextId = s.tokens.length := by
  obtain ⟨hlexes, hrender, hnext⟩ := lex_eq_ok_iff.mp hlex
  refine ⟨hrender, ?_, ?_, hnext⟩
  · intro t ht hempty
    have hnonempty := (hlexes.spelled t ht).nonempty
    rw [hempty] at hnonempty
    exact hnonempty rfl
  · rw [hlexes.map_id, List.range_eq_range']

/-- A text with an interpolation, a comment, an accent and a stray quote is given back. -/
theorem lex_lossless_mixed_text :
    ∃ s, lex "\"é\\\"$\x7b/*\x7d*/x\x7d\"\t'\r\n" = .ok s ∧
      s.render = "\"é\\\"$\x7b/*\x7d*/x\x7d\"\t'\r\n" ∧ (∀ t ∈ s.tokens, t.text ≠ "") ∧
      s.tokens.map Token.id = List.range s.tokens.length ∧ s.nextId = s.tokens.length := by
  have hlex : lex "\"é\\\"$\x7b/*\x7d*/x\x7d\"\t'\r\n" = .ok ⟨[
      ⟨0, .quoteOpen, "\"é\\\"$\x7b", ⟨1, 1⟩⟩, ⟨1, .comment, "/*\x7d*/", ⟨1, 8⟩⟩,
      ⟨2, .name, "x", ⟨1, 13⟩⟩, ⟨3, .quoteClose, "\x7d\"", ⟨1, 14⟩⟩,
      ⟨4, .whitespace, "\t", ⟨1, 16⟩⟩, ⟨5, .other, "'\r\n", ⟨1, 17⟩⟩], 6⟩ := by cbv
  exact ⟨_, hlex, lex_lossless hlex⟩

/-- The tokens of a manifest are whole items. For every brace of an interpolation, matching finds
the partner in the same interpolation, at the same level of strings; and what stands between two
partners anywhere is whole items, so that they are never parted by a quote of a string that does
not lie between them as a whole. -/
theorem lex_interpolations_nest {source : String} {s : TokenStream} (hlex : lex source = .ok s) :
    IsItems (s.tokens.map Token.kind) ∧
    (∀ xs a kind b ys, s.tokens.map Token.kind = xs ++ (a ++ kind :: b) ++ ys →
      Phrase.code.Generates (a ++ kind :: b) → kind = .openBrace ∨ kind = .closeBrace →
      ∃ a' facing b', a ++ kind :: b = a' ++ facing :: b' ∧ Family.brace.Faces kind facing ∧
        (Pairing.ofKinds (s.tokens.map Token.kind)).partner? (xs.length + a.length) =
          some (xs.length + a'.length) ∧
        (IsItems a → IsItems b → IsItems a' ∧ IsItems b')) ∧
    ∀ i j kind, (s.tokens.map Token.kind)[i]? = some kind →
      kind = .openBrace ∨ kind = .closeBrace →
      (Pairing.ofKinds (s.tokens.map Token.kind)).partner? i = some j →
      ∃ xs mid ys, s.tokens.map Token.kind = xs ++ .openBrace :: (mid ++ .closeBrace :: ys) ∧
        min i j = xs.length ∧ max i j = xs.length + 1 + mid.length ∧ IsItems mid := by
  have hitems : IsItems (s.tokens.map Token.kind) := by
    have hcompletes := (lex_eq_ok_iff.mp hlex).1.completes
    cases hcompletes with
    | outside h => exact h
  refine ⟨hitems, ?_, fun i j kind hi hkind hj => hitems.between_partners hi hkind hj⟩
  intro xs a kind b ys hkinds hcode hkind
  rw [hkinds]
  exact hcode.exists_partner hkind

/-- Two braces in an interpolation are partners, with a whole string between them. -/
theorem lex_interpolations_nest_inner_string :
    ∃ s, lex "\"$\x7b\x7b\"$\x7bx\x7d\"\x7d\x7d\"\x7d" = .ok s ∧
      IsItems (s.tokens.map Token.kind) ∧
      (∃ a' facing b', [TokenKind.openBrace, .quoteOpen, .name, .quoteClose, .closeBrace] =
          a' ++ facing :: b' ∧ Family.brace.Faces .openBrace facing ∧
        (Pairing.ofKinds (s.tokens.map Token.kind)).partner? 1 = some (1 + a'.length) ∧
        (IsItems [] → IsItems [.quoteOpen, .name, .quoteClose, .closeBrace] →
          IsItems a' ∧ IsItems b')) ∧
      ∃ xs mid ys, s.tokens.map Token.kind = xs ++ .openBrace :: (mid ++ .closeBrace :: ys) ∧
        min 5 1 = xs.length ∧ max 5 1 = xs.length + 1 + mid.length ∧ IsItems mid := by
  have hlex : lex "\"$\x7b\x7b\"$\x7bx\x7d\"\x7d\x7d\"\x7d" = .ok ⟨[
      ⟨0, .quoteOpen, "\"$\x7b", ⟨1, 1⟩⟩, ⟨1, .openBrace, "\x7b", ⟨1, 4⟩⟩,
      ⟨2, .quoteOpen, "\"$\x7b", ⟨1, 5⟩⟩, ⟨3, .name, "x", ⟨1, 8⟩⟩,
      ⟨4, .quoteClose, "\x7d\"", ⟨1, 9⟩⟩, ⟨5, .closeBrace, "\x7d", ⟨1, 11⟩⟩,
      ⟨6, .quoteClose, "\x7d\"", ⟨1, 12⟩⟩, ⟨7, .closeBrace, "\x7d", ⟨1, 14⟩⟩], 8⟩ := by cbv
  have hinside : Phrase.tail.Generates ([.name] ++ [.quoteClose]) :=
    .close (.code (.token rfl .nil) (by decide))
  have houtside : Phrase.code.Generates
      (.openBrace :: .quoteOpen :: ([.name] ++ [.quoteClose] ++ [.closeBrace])) :=
    .code (.token rfl (.string hinside (.token rfl .nil))) (by decide)
  obtain ⟨hitems, hcode, hbetween⟩ := lex_interpolations_nest hlex
  exact ⟨_, hlex, hitems,
    hcode [.quoteOpen] [] .openBrace _ [.quoteClose, .closeBrace] rfl houtside (Or.inl rfl),
    hbetween 5 1 .closeBrace rfl (Or.inr rfl) (by cbv)⟩

end ManifestSpacing
