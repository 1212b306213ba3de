import Mathlib
import ManifestSpacing.Proofs.Lexical.Places
import ManifestSpacing.Text.Bytes

/-!
# Positions count bytes

A position moves over one character at a time, but what it comes to can be read
off the bytes of the text before it: a line for every line feed, and a column
for every byte since the last one. No other character has a line feed among its
bytes. So the lexer and the computation of positions anew give each token the
same place, which depends on nothing but the texts before it.
-/

namespace ManifestSpacing

namespace Bytes

/-- The byte of a line feed. -/
def lineFeed : UInt8 := 0x0a

/-- The bytes since the last line feed, or all if there is none. -/
def lastLine (bytes : Bytes) : Bytes := bytes.rtakeWhile (· != lineFeed)

/-- The bytes of a text are those of its characters in turn. -/
theorem ofText_eq (text : String) : ofText text = Segment.utf8Bytes text.toList := by
  have hbytes : text.toByteArray = (Segment.utf8Bytes text.toList).toByteArray := by
    conv_lhs => rw [← text.ofList_toList]
    rfl
  rw [ofText, String.toUTF8_eq_toByteArray, hbytes, List.data_toByteArray]

/-- A byte of a character is its code, or it is none of a character of one byte. -/
theorem toNat_of_mem_utf8EncodeChar {c : Char} {b : UInt8} (h : b ∈ String.utf8EncodeChar c) :
    b.toNat = c.toNat ∨ 0x80 ≤ b.toNat := by
  have hmarked {n : Nat} (hlow : 0x80 ≤ n) (hhigh : n < UInt8.size) :
      0x80 ≤ (UInt8.ofNat n).toNat := by
    rwa [UInt8.toNat_ofNat_of_lt' hhigh]
  rw [String.utf8EncodeChar] at h
  split at h
  · rename_i hone
    rw [List.mem_singleton.mp h]
    exact Or.inl (UInt8.toNat_ofNat_of_lt' (Nat.lt_of_le_of_lt hone (by decide)))
  -- every byte of a longer character carries a mark in its highest bit
  · right
    split at h
    · simp only [List.mem_cons, List.not_mem_nil, or_false] at h
      rcases h with rfl | rfl <;> exact hmarked (by omega) (by simp only [UInt8.size]; omega)
    · split at h <;> simp only [List.mem_cons, List.not_mem_nil, or_false] at h
      · rcases h with rfl | rfl | rfl <;>
          exact hmarked (by omega) (by simp only [UInt8.size]; omega)
      · rcases h with rfl | rfl | rfl | rfl <;>
          exact hmarked (by omega) (by simp only [UInt8.size]; omega)

/-- Only a line feed has the byte of a line feed. -/
theorem lineFeed_not_mem {c : Char} (h : c ≠ '\n') : lineFeed ∉ String.utf8EncodeChar c := by
  intro hmem
  rcases toNat_of_mem_utf8EncodeChar hmem with hcode | hhigh
  · exact h (Char.toNat_inj.mp hcode.symm)
  · exact absurd hhigh (by decide)

/-- Bytes without a line feed lengthen the last line. -/
theorem lastLine_append {bytes more : Bytes} (h : lineFeed ∉ more) :
    (bytes ++ more).lastLine = bytes.lastLine ++ more := by
  have hmore : ∀ b ∈ more.reverse, (b != lineFeed) = true := by
    intro b hb
    rw [bne_iff_ne]
    rintro rfl
    exact h (List.mem_reverse.mp hb)
  rw [lastLine, List.rtakeWhile, List.reverse_append, List.takeWhile_append_of_pos hmore,
    List.reverse_append, List.reverse_reverse]
  rfl

/-- A line feed starts a new line. -/
theorem lastLine_lineFeed (bytes : Bytes) : (bytes ++ [lineFeed]).lastLine = [] :=
  List.rtakeWhile_concat_neg _ _ _ (by simp)

end Bytes

namespace Position

/-- The place behind some bytes, counted from the bytes. -/
def behind (bytes : Bytes) : Position := ⟨1 + bytes.count Bytes.lineFeed, 1 + bytes.lastLine.length⟩

/-- The bytes of one more character move the place as the character does. -/
theorem behind_append_char (bytes : Bytes) (c : Char) :
    behind (bytes ++ String.utf8EncodeChar c) = (behind bytes).next c := by
  by_cases hc : c = '\n'
  · subst hc
    have hencode : String.utf8EncodeChar '\n' = [Bytes.lineFeed] := by decide
    rw [hencode, next, if_pos rfl, behind, Bytes.lastLine_lineFeed, List.count_append,
      List.count_singleton_self]
    rfl
  · have hnone := Bytes.lineFeed_not_mem hc
    rw [next, if_neg hc, behind, Bytes.lastLine_append hnone, List.count_append,
      List.count_eq_zero.mpr hnone, List.length_append, String.length_utf8EncodeChar, behind,
      Nat.add_zero, Nat.add_assoc]

theorem advance_behind (bytes : Bytes) (cs : List Char) :
    (behind bytes).advance cs = behind (bytes ++ Segment.utf8Bytes cs) := by
  induction cs generalizing bytes with
  | nil => rw [advance_nil, Segment.utf8Bytes, List.flatMap_nil, List.append_nil]
  | cons c cs ih =>
    rw [advance_cons, ← behind_append_char, ih, List.append_assoc]
    rfl

/-- The place behind some tokens is counted from the bytes of their texts. -/
theorem advance_start_textOf (tokens : List Token) :
    start.advance (textOf tokens) = behind (Bytes.ofText (renderTokens tokens)) := by
  rw [Bytes.ofText_eq, toList_renderTokens]
  exact advance_behind [] (textOf tokens)

end Position

namespace TokenStream

/-- New positions lie behind the texts of the tokens before, and nothing else changes. -/
theorem repositionFrom_eq_mapIdx (here : Position) (tokens : List Token) :
    repositionFrom here tokens = tokens.mapIdx fun i t =>
      { t with position := here.advance (textOf (tokens.take i)) } := by
  induction tokens generalizing here with
  | nil => rfl
  | cons t tokens ih =>
    rw [repositionFrom, ih, List.mapIdx_cons]
    simp only [List.take_zero, List.take_succ_cons, textOf_nil, textOf_cons, Position.advance_nil,
      Position.advance_append]

theorem repositionFrom_repositionFrom (here : Position) (tokens : List Token) :
    repositionFrom here (repositionFrom here tokens) = repositionFrom here tokens := by
  induction tokens generalizing here with
  | nil => rfl
  | cons t tokens ih => rw [repositionFrom, repositionFrom, ih]

end TokenStream

/-- Every token of a manifest lies where the bytes before it say, later tokens behind earlier ones,
so that computing positions anew changes nothing. In any stream at all, new positions are those that
the bytes before each token say, and computing them again changes nothing. -/
theorem positions_count_bytes :
    (∀ (source : String) (s : TokenStream), lex source = .ok s →
      (∀ (i : Nat) (t : Token), s.tokens[i]? = some t →
        t.position = .behind (Bytes.ofText (renderTokens (s.tokens.take i)))) ∧
      s.tokens.Pairwise (fun t u => t.position.Before u.position) ∧ s.reposition = s) ∧
    ∀ s : TokenStream,
      s.reposition = { s with tokens := s.tokens.mapIdx fun i t =>
        { t with position := .behind (Bytes.ofText (renderTokens (s.tokens.take i))) } } ∧
      s.reposition.reposition = s.reposition := by
  refine ⟨fun source s hlex => ?_, fun s => ⟨?_, ?_⟩⟩
  · have hlexes := (lex_eq_ok_iff.mp hlex).1
    refine ⟨fun i t ht => ?_, hlexes.pairwise_before, ?_⟩
    · obtain ⟨hi, rfl⟩ := List.getElem?_eq_some_iff.mp ht
      have hsplit : s.tokens = s.tokens.take i ++ s.tokens[i] :: s.tokens.drop (i + 1) := by
        rw [List.getElem_cons_drop, List.take_append_drop]
      rw [← Position.advance_start_textOf]
      exact (hsplit ▸ hlexes).position_of_append
    · rw [TokenStream.reposition, hlexes.repositionFrom_eq]
  · rw [TokenStream.reposition, TokenStream.repositionFrom_eq_mapIdx]
    simp only [Position.advance_start_textOf]
  · simp only [TokenStream.reposition, TokenStream.repositionFrom_repositionFrom]

/-- Behind a comment that ends on the second line the columns count the bytes of its accent. -/
theorem positions_count_bytes_several_lines :
    ∃ s, lex "/*\né*/ x\r\n'" = .ok s ∧
      (∀ (i : Nat) (t : Token), s.tokens[i]? = some t →
        t.position = .behind (Bytes.ofText (renderTokens (s.tokens.take i)))) ∧
      s.tokens.Pairwise (fun t u => t.position.Before u.position) ∧ s.reposition = s ∧
      s.tokens.map Token.position = [⟨1, 1⟩, ⟨2, 5⟩, ⟨2, 6⟩, ⟨2, 7⟩, ⟨3, 1⟩] := by
  have hlex : lex "/*\né*/ x\r\n'" = .ok ⟨[⟨0, .comment, "/*\né*/", ⟨1, 1⟩⟩,
      ⟨1, .whitespace, " ", ⟨2, 5⟩⟩, ⟨2, .name, "x", ⟨2, 6⟩⟩, ⟨3, .newline, "\r\n", ⟨2, 7⟩⟩,
      ⟨4, .other, "'", ⟨3, 1⟩⟩], 5⟩ := by cbv
  obtain ⟨hbytes, hbefore, hsame⟩ := positions_count_bytes.1 _ _ hlex
  exact ⟨_, hlex, hbytes, hbefore, hsame, rfl⟩

end ManifestSpacing
