import Mathlib
import ManifestSpacing.Proofs.Lexical.Positions

/-!
# String text by characters

The scan of a double-quoted segment reads bytes, and a backslash takes along one
byte only, which may be the first of a longer character. All other bytes of such
a character carry a mark in their highest bit, so the scan passes over them, and
it finds what a scan by characters finds. So it always stops between two
characters, and the cut is never lost on the way from bytes to characters.
-/

namespace ManifestSpacing

namespace Segment

/-- Reads string text character by character; a backslash skips the whole character after it. The
count is of the characters read, through the quote or the brace. -/
def scanChars : List Char → Option (Segment × Nat)
  | [] => none
  | [c] => if c = '"' then some (.closed, 1) else none
  | c :: next :: rest =>
    if c = '\\' then (scanChars rest).map fun (segment, n) => (segment, n + 2)
    else if c = '"' then some (.closed, 1)
    else if c = '$' ∧ next = '\x7b' then some (.interpolation, 2)
    else (scanChars (next :: rest)).map fun (segment, n) => (segment, n + 1)

/-! ## The bytes of one character -/

/-- Behind its first byte, a character has marked bytes only. -/
theorem marked_of_utf8EncodeChar {c : Char} {b : UInt8} {bs : List UInt8}
    (h : String.utf8EncodeChar c = b :: bs) : ∀ d ∈ bs, 0x80 ≤ d.toNat := by
  intro d hd
  have hsize : 2 ≤ c.utf8Size := by
    rw [← String.length_utf8EncodeChar, h, List.length_cons]
    exact Nat.succ_le_succ (List.length_pos_of_mem hd)
  have hcode : 0x80 ≤ c.toNat := by
    by_contra hlow
    have hone : c.utf8Size = 1 := Char.utf8Size_eq_one_iff.mpr
      (UInt32.le_iff_toNat_le.mpr (Nat.le_of_lt_succ (Nat.lt_of_not_le hlow)))
    omega
  rcases Bytes.toNat_of_mem_utf8EncodeChar (h ▸ List.mem_cons_of_mem b hd) with hsame | hmarked
  · rwa [hsame]
  · exact hmarked

/-- The first byte of a character is that of a character of one byte only if they are the same. -/
theorem head_utf8EncodeChar_iff {c m : Char} {b d : UInt8} {bs : List UInt8}
    (h : String.utf8EncodeChar c = b :: bs) (hm : String.utf8EncodeChar m = [d])
    (hd : d.toNat < 0x80) : b = d ↔ c = m := by
  constructor
  · rintro rfl
    have hb : b ∈ String.utf8EncodeChar c := h ▸ List.mem_cons_self
    have hb' : b ∈ String.utf8EncodeChar m := hm ▸ List.mem_cons_self
    have hcode := (Bytes.toNat_of_mem_utf8EncodeChar hb).resolve_right (Nat.not_le_of_lt hd)
    have hcode' := (Bytes.toNat_of_mem_utf8EncodeChar hb').resolve_right (Nat.not_le_of_lt hd)
    exact Char.toNat_inj.mp (hcode.symm.trans hcode')
  · rintro rfl
    exact (List.cons.inj (h.symm.trans hm)).1

theorem exists_utf8EncodeChar_eq_cons (c : Char) :
    ∃ b bs, String.utf8EncodeChar c = b :: bs ∧ c.utf8Size = bs.length + 1 := by
  have hpos : 0 < (String.utf8EncodeChar c).length := by
    rw [String.length_utf8EncodeChar]
    exact c.utf8Size_pos
  obtain ⟨b, bs, hc⟩ := List.exists_cons_of_ne_nil (List.ne_nil_of_length_pos hpos)
  refine ⟨b, bs, hc, ?_⟩
  rw [← String.length_utf8EncodeChar, hc, List.length_cons]

@[simp] theorem utf8Bytes_nil : utf8Bytes [] = [] := rfl

@[simp] theorem utf8Bytes_cons (c : Char) (cs : List Char) :
    utf8Bytes (c :: cs) = String.utf8EncodeChar c ++ utf8Bytes cs := rfl

/-! ## The scan over one character -/

theorem scanBytes_escape (b : UInt8) (rest : List UInt8) :
    scanBytes (backslash :: b :: rest) =
      (scanBytes rest).map fun (segment, n) => (segment, n + 2) := by
  rw [scanBytes, if_pos rfl]

theorem scanBytes_quote (rest : List UInt8) :
    scanBytes (doubleQuote :: rest) = some (.closed, 1) := by
  cases rest <;> rfl

theorem scanBytes_interpolation (rest : List UInt8) :
    scanBytes (dollar :: openBrace :: rest) = some (.interpolation, 2) := rfl

/-- A byte that means nothing is passed over. -/
theorem scanBytes_plain {b : UInt8} {rest : List UInt8} (hb : b ≠ backslash) (hq : b ≠ doubleQuote)
    (hd : ¬ (b = dollar ∧ rest.head? = some openBrace)) :
    scanBytes (b :: rest) = (scanBytes rest).map fun (segment, n) => (segment, n + 1) := by
  cases rest with
  | nil => simp [scanBytes, hq]
  | cons next rest =>
    have hd' : ¬ (b = dollar ∧ next = openBrace) := fun h => hd ⟨h.1, congrArg some h.2⟩
    rw [scanBytes, if_neg hb, if_neg hq, if_neg hd']

/-- Marked bytes are passed over. -/
theorem scanBytes_append_marked {bs : List UInt8} (h : ∀ b ∈ bs, 0x80 ≤ b.toNat)
    (rest : List UInt8) : scanBytes (bs ++ rest) =
      (scanBytes rest).map fun (segment, n) => (segment, n + bs.length) := by
  induction bs with
  | nil => simp
  | cons b bs ih =>
    have hb : 0x80 ≤ b.toNat := h b List.mem_cons_self
    have hne {mark : UInt8} (hmark : mark.toNat < 0x80) : b ≠ mark := by
      rintro rfl
      omega
    rw [List.cons_append, scanBytes_plain (hne (by decide)) (hne (by decide))
      (fun hd => hne (by decide) hd.1), ih fun d hd => h d (List.mem_cons_of_mem b hd),
      Option.map_map]
    rfl

/-- The byte that a backslash skips brings the rest of its character with it. -/
theorem scanBytes_escaped_char (c : Char) (rest : List UInt8) :
    scanBytes (backslash :: (String.utf8EncodeChar c ++ rest)) =
      (scanBytes rest).map fun (segment, n) => (segment, n + c.utf8Size + 1) := by
  obtain ⟨b, bs, hc, hsize⟩ := exists_utf8EncodeChar_eq_cons c
  rw [hc, List.cons_append, scanBytes_escape,
    scanBytes_append_marked (marked_of_utf8EncodeChar hc), Option.map_map, hsize]
  rfl

/-- A character that means nothing is passed over. -/
theorem scanBytes_plain_char {c : Char} {rest : List UInt8} (hb : c ≠ '\\') (hq : c ≠ '"')
    (hd : ¬ (c = '$' ∧ rest.head? = some openBrace)) :
    scanBytes (String.utf8EncodeChar c ++ rest) =
      (scanBytes rest).map fun (segment, n) => (segment, n + c.utf8Size) := by
  obtain ⟨b, bs, hc, hsize⟩ := exists_utf8EncodeChar_eq_cons c
  have hbyte : b ≠ backslash := (head_utf8EncodeChar_iff hc (by decide) (by decide)).not.mpr hb
  have hquote : b ≠ doubleQuote := (head_utf8EncodeChar_iff hc (by decide) (by decide)).not.mpr hq
  have hdollar : ¬ (b = dollar ∧ (bs ++ rest).head? = some openBrace) := by
    rintro ⟨hb, hhead⟩
    obtain rfl := (head_utf8EncodeChar_iff (m := '$') hc (by decide) (by decide)).mp hb
    obtain rfl : [] = bs := (List.cons.inj hc).2
    exact hd ⟨rfl, hhead⟩
  rw [hc, List.cons_append, scanBytes_plain hbyte hquote hdollar,
    scanBytes_append_marked (marked_of_utf8EncodeChar hc), Option.map_map, hsize]
  rfl

/-- The bytes of a text start with an opening brace just when the text does. -/
theorem head?_utf8Bytes_eq_openBrace_iff {c : Char} {cs : List Char} :
    (utf8Bytes (c :: cs)).head? = some openBrace ↔ c = '\x7b' := by
  obtain ⟨b, bs, hc, -⟩ := exists_utf8EncodeChar_eq_cons c
  rw [utf8Bytes_cons, hc, List.cons_append, List.head?_cons, Option.some.injEq]
  exact head_utf8EncodeChar_iff hc (by decide) (by decide)

/-! ## The scan of a text -/

@[simp] theorem length_utf8Bytes_cons (c : Char) (cs : List Char) :
    (utf8Bytes (c :: cs)).length = c.utf8Size + (utf8Bytes cs).length := by
  rw [utf8Bytes_cons, List.length_append, String.length_utf8EncodeChar]

/-- The bytes that the scan of bytes reads are those of the characters that the scan of characters
reads. -/
theorem scanBytes_utf8Bytes (cs : List Char) : scanBytes (utf8Bytes cs) =
    (scanChars cs).map fun (segment, n) => (segment, (utf8Bytes (cs.take n)).length) := by
  have hbackslash : String.utf8EncodeChar '\\' = [backslash] := by decide
  have hquote : String.utf8EncodeChar '"' = [doubleQuote] := by decide
  fun_induction scanChars cs with
  | case1 => rfl
  | case2 => rfl
  | case3 c hq =>
    rw [utf8Bytes_cons, utf8Bytes_nil]
    by_cases hb : c = '\\'
    · rw [hb, hbackslash]
      rfl
    · rw [scanBytes_plain_char hb hq fun hd => by cases hd.2]
      rfl
  | case4 next rest ih =>
    rw [utf8Bytes_cons, hbackslash, List.singleton_append, utf8Bytes_cons,
      scanBytes_escaped_char, ih, Option.map_map, Option.map_map]
    congr 1
    funext ⟨segment, n⟩
    have hone : '\\'.utf8Size = 1 := by decide
    simp only [Function.comp_apply, List.take_succ_cons, length_utf8Bytes_cons, hone,
      Prod.mk.injEq, true_and]
    omega
  | case5 next rest hb =>
    rw [utf8Bytes_cons, hquote, List.singleton_append, scanBytes_quote]
    rfl
  | case6 c next rest hb hq hd =>
    obtain ⟨rfl, rfl⟩ := hd
    exact scanBytes_interpolation (utf8Bytes rest)
  | case7 c next rest hb hq hd ih =>
    have hplain : ¬ (c = '$' ∧ (utf8Bytes (next :: rest)).head? = some openBrace) := by
      rwa [head?_utf8Bytes_eq_openBrace_iff]
    rw [utf8Bytes_cons, scanBytes_plain_char hb hq hplain, ih, Option.map_map, Option.map_map]
    congr 1
    funext ⟨segment, n⟩
    simp only [Function.comp_apply, List.take_succ_cons, length_utf8Bytes_cons, Prod.mk.injEq,
      true_and]
    omega

/-- The scan of characters reads no more than there are. -/
theorem le_length_of_scanChars {cs : List Char} {segment : Segment} {n : Nat}
    (h : scanChars cs = some (segment, n)) : n ≤ cs.length := by
  fun_induction scanChars cs generalizing n with
  | case1 => cases h
  | case2 => cases h; exact Nat.le_refl _
  | case3 => cases h
  | case4 next rest ih =>
    obtain ⟨⟨found, k⟩, hk, he⟩ := Option.map_eq_some_iff.mp h
    obtain ⟨rfl, rfl⟩ := Prod.mk.inj he
    exact Nat.add_le_add_right (ih hk) 2
  | case5 => cases h; simp
  | case6 => cases h; simp
  | case7 c next rest _ _ _ ih =>
    obtain ⟨⟨found, k⟩, hk, he⟩ := Option.map_eq_some_iff.mp h
    obtain ⟨rfl, rfl⟩ := Prod.mk.inj he
    exact Nat.add_le_add_right (ih hk) 1

/-- Bytes that are those of leading characters count just these. -/
theorem charsWithin_utf8Bytes (cs rest : List Char) :
    charsWithin (utf8Bytes cs).length (cs ++ rest) = some cs.length := by
  induction cs with
  | nil => simp [charsWithin]
  | cons c cs ih =>
    obtain ⟨k, hk⟩ := Nat.exists_eq_succ_of_ne_zero (Nat.ne_of_gt c.utf8Size_pos)
    have hsucc : (utf8Bytes (c :: cs)).length = (k + (utf8Bytes cs).length) + 1 := by
      rw [length_utf8Bytes_cons, hk]
      omega
    have hfits : c.utf8Size ≤ k + (utf8Bytes cs).length + 1 := by omega
    have hleft : k + (utf8Bytes cs).length + 1 - c.utf8Size = (utf8Bytes cs).length := by omega
    rw [hsucc, List.cons_append, charsWithin, if_pos hfits, hleft, ih]
    rfl

/-- The scan of a text is the scan of its characters; none of its results is lost with the cut. -/
theorem scan_eq_scanChars (cs : List Char) : scan cs = scanChars cs := by
  rw [scan, scanBytes_utf8Bytes]
  cases hscan : scanChars cs with
  | none => rfl
  | some found =>
    obtain ⟨segment, n⟩ := found
    have hlength : (cs.take n).length = n := by
      rw [List.length_take, Nat.min_eq_left (le_length_of_scanChars hscan)]
    have hwithin := charsWithin_utf8Bytes (cs.take n) (cs.drop n)
    rw [List.take_append_drop, hlength] at hwithin
    simp only [Option.map_some, hwithin]

theorem length_utf8Bytes_toList (text : String) :
    (utf8Bytes text.toList).length = text.utf8ByteSize := by
  rw [← Bytes.ofText_eq, Bytes.ofText, Array.length_toList]
  rfl

/-- The bytewise scan of a string is the scan by characters, with the bytes of the characters that
it reads for a count. So the count is never more than the bytes of the string, and wherever the
string stands in a source, it leads to a place between two characters. A step of the lexer that
ends in the string takes no more characters than there are. -/
theorem scanBytes_eq_scanChars (rest : String) :
    scanBytes (Bytes.ofText rest) = ((scanChars rest.toList).map fun (segment, n) =>
      (segment, (String.ofList (rest.toList.take n)).utf8ByteSize)) ∧
    scan rest.toList = scanChars rest.toList ∧
    (∀ (segment : Segment) (count : Nat), scanBytes (Bytes.ofText rest) = some (segment, count) →
      count ≤ rest.utf8ByteSize ∧
        ∀ before : String, String.Pos.Raw.IsValid (before ++ rest)
          ⟨before.utf8ByteSize + count⟩) ∧
    ∀ (opens : List OpenString) (here : Position) (first : Char) (found : Lexer.Step),
      Lexer.step opens here (first :: rest.toList) = .ok found →
        found.length ≤ (first :: rest.toList).length := by
  have hsize (n : Nat) : (utf8Bytes (rest.toList.take n)).length =
      (String.ofList (rest.toList.take n)).utf8ByteSize := by
    rw [← length_utf8Bytes_toList, String.toList_ofList]
  have hscan : scanBytes (Bytes.ofText rest) = (scanChars rest.toList).map fun (segment, n) =>
      (segment, (String.ofList (rest.toList.take n)).utf8ByteSize) := by
    rw [Bytes.ofText_eq, scanBytes_utf8Bytes]
    simp only [hsize]
  refine ⟨hscan, scan_eq_scanChars _, fun segment count hcount => ?_, ?_⟩
  · rw [hscan] at hcount
    obtain ⟨⟨_, n⟩, _, he⟩ := Option.map_eq_some_iff.mp hcount
    obtain ⟨-, rfl⟩ := Prod.mk.inj he
    -- the count is that of the bytes of a first part of the string
    have hparts : rest =
        String.ofList (rest.toList.take n) ++ String.ofList (rest.toList.drop n) := by
      rw [← String.ofList_append, List.take_append_drop, String.ofList_toList]
    refine ⟨?_, fun before => ?_⟩
    · have hle := congrArg String.utf8ByteSize hparts
      rw [String.utf8ByteSize_append] at hle
      omega
    · rw [String.Pos.Raw.isValid_iff_exists_append]
      refine ⟨before ++ String.ofList (rest.toList.take n), String.ofList (rest.toList.drop n),
        ?_, ?_⟩
      · rw [String.append_assoc, ← hparts]
      · rw [String.Pos.Raw.ext_iff, String.byteIdx_rawEndPos, String.utf8ByteSize_append]
  · intro opens here first found hstep
    obtain ⟨text, behind, hsplit, hlength, _⟩ := Lexer.cut_of_step hstep
    rw [hsplit, ← hlength, List.length_append]
    exact Nat.le_add_right _ _

/-- A backslash skips only the first byte of an accented letter, and the scan still ends between
characters. -/
theorem scanBytes_eq_scanChars_escaped_accent :
    scanBytes (Bytes.ofText "\\é$\x7bé") = some (.interpolation, 5) ∧
      5 ≤ "\\é$\x7bé".utf8ByteSize ∧
      (∀ before : String, String.Pos.Raw.IsValid (before ++ "\\é$\x7bé")
        ⟨before.utf8ByteSize + 5⟩) ∧
      Lexer.step [] .start ('"' :: "\\é$\x7bé".toList) =
        .ok ⟨.quoteOpen, 5, [⟨0, .start⟩]⟩ ∧
      5 ≤ ('"' :: "\\é$\x7bé".toList).length := by
  have hscan : scanBytes (Bytes.ofText "\\é$\x7bé") = some (.interpolation, 5) := by decide
  have hstep : Lexer.step [] .start ('"' :: "\\é$\x7bé".toList) =
      .ok ⟨.quoteOpen, 5, [⟨0, .start⟩]⟩ := by cbv
  obtain ⟨_, _, hcount, hsteps⟩ := scanBytes_eq_scanChars "\\é$\x7bé"
  obtain ⟨hle, hvalid⟩ := hcount _ _ hscan
  exact ⟨hscan, hle, hvalid, hstep, hsteps _ _ _ _ hstep⟩

end Segment

end ManifestSpacing
