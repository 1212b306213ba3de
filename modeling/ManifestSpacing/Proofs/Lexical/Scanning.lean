import ManifestSpacing.Proofs.Lexical.FirstLexeme

/-!
# Scans that end inside what they read

The scan of a double-quoted segment, the search for the end of a block comment
and the search for a closing single quote all stop at the first place that
settles them. What comes after that place is irrelevant, so the same scan over
another continuation stops at the same place.
-/

namespace ManifestSpacing

namespace Segment

/-- A scan of bytes takes no more than there are, and what follows them does not matter. -/
theorem scanBytes_eq_some {bytes : List UInt8} {segment : Segment} {n : Nat}
    (h : scanBytes bytes = some (segment, n)) :
    n ≤ bytes.length ∧ ∀ rest, scanBytes (bytes.take n ++ rest) = some (segment, n) := by
  fun_induction scanBytes bytes generalizing n with
  | case1 => cases h
  | case2 =>
    cases h
    refine ⟨Nat.le_refl _, fun rest => ?_⟩
    cases rest <;> simp [scanBytes, doubleQuote, backslash]
  | case3 => cases h
  | case4 next rest ih =>
    obtain ⟨⟨found, k⟩, hk, he⟩ := Option.map_eq_some_iff.mp h
    obtain ⟨rfl, rfl⟩ := Prod.mk.inj he
    obtain ⟨hle, hrest⟩ := ih hk
    refine ⟨by simpa using hle, fun tail => ?_⟩
    simp [scanBytes, hrest tail]
  | case5 next rest hb =>
    cases h
    refine ⟨by simp, fun tail => ?_⟩
    cases tail <;> simp [scanBytes, doubleQuote, backslash]
  | case6 b next rest hb hq hd =>
    cases h
    obtain ⟨rfl, rfl⟩ := hd
    exact ⟨by simp, fun tail => by simp [scanBytes, doubleQuote, backslash, dollar]⟩
  | case7 b next rest hb hq hd ih =>
    obtain ⟨⟨found, k⟩, hk, he⟩ := Option.map_eq_some_iff.mp h
    obtain ⟨rfl, rfl⟩ := Prod.mk.inj he
    obtain ⟨hle, hrest⟩ := ih hk
    refine ⟨by simpa using hle, fun tail => ?_⟩
    cases k with
    | zero =>
      -- no scan stops before its first byte
      have hzero := hrest []
      simp [scanBytes] at hzero
    | succ k =>
      have hstep := hrest tail
      simp only [List.take_succ_cons, List.cons_append] at hstep ⊢
      rw [scanBytes, if_neg hb, if_neg hq, if_neg hd, hstep]
      rfl

/-- The bytes of two runs of characters are the bytes of each in turn. -/
theorem utf8Bytes_append (as bs : List Char) :
    utf8Bytes (as ++ bs) = utf8Bytes as ++ utf8Bytes bs := by
  simp only [utf8Bytes, List.flatMap_append]

/-- The characters counted by bytes are a prefix with that many bytes, and what follows them does
not matter. -/
theorem charsWithin_eq_some {bytes : Nat} {source : List Char} {n : Nat}
    (h : charsWithin bytes source = some n) :
    n ≤ source.length ∧ (utf8Bytes (source.take n)).length = bytes ∧
      ∀ rest, charsWithin bytes (source.take n ++ rest) = some n := by
  fun_induction charsWithin bytes source generalizing n with
  | case1 source =>
    cases h
    exact ⟨Nat.zero_le _, rfl, fun rest => by rw [charsWithin]⟩
  | case2 => cases h
  | case3 bytes c cs hle ih =>
    obtain ⟨k, hk, rfl⟩ := Option.map_eq_some_iff.mp h
    obtain ⟨hlen, hbytes, hrest⟩ := ih hk
    refine ⟨by simpa using hlen, ?_, fun rest => ?_⟩
    · have hc : (utf8Bytes (c :: cs.take k)).length =
          c.utf8Size + (utf8Bytes (cs.take k)).length := by
        simp [utf8Bytes, String.length_utf8EncodeChar]
      rw [List.take_succ_cons, hc, hbytes]
      omega
    · rw [List.take_succ_cons, List.cons_append, charsWithin, if_pos hle, hrest rest]
      rfl
  | case4 => cases h

/-- A segment lies inside the text, and what follows it does not matter. -/
theorem scan_eq_some {source : List Char} {segment : Segment} {n : Nat}
    (h : scan source = some (segment, n)) :
    n ≤ source.length ∧ ∀ rest, scan (source.take n ++ rest) = some (segment, n) := by
  unfold scan at h
  split at h
  · cases h
  · rename_i found bytes hbytes
    obtain ⟨k, hk, he⟩ := Option.map_eq_some_iff.mp h
    obtain ⟨rfl, rfl⟩ := Prod.mk.inj he
    obtain ⟨hle, hlen, hchars⟩ := charsWithin_eq_some hk
    obtain ⟨hbound, hscan⟩ := scanBytes_eq_some hbytes
    refine ⟨hle, fun rest => ?_⟩
    have hprefix : (utf8Bytes source).take bytes = utf8Bytes (source.take k) := by
      have hsplit := utf8Bytes_append (source.take k) (source.drop k)
      rw [List.take_append_drop] at hsplit
      rw [hsplit, ← hlen, List.take_left]
    have hbytes' : scanBytes (utf8Bytes (source.take k ++ rest)) = some (found, bytes) := by
      rw [utf8Bytes_append, ← hprefix]
      exact hscan _
    simp only [scan, hbytes', hchars rest, Option.map_some]

/-- A scan stops at the end of the segment it finds. -/
theorem scan_take {source : List Char} {segment : Segment} {n : Nat}
    (h : scan source = some (segment, n)) :
    (source.take n).length = n ∧ scan (source.take n) = some (segment, (source.take n).length) := by
  obtain ⟨hle, hrest⟩ := scan_eq_some h
  have hlen : (source.take n).length = n := by rw [List.length_take, Nat.min_eq_left hle]
  have hscan := hrest []
  rw [List.append_nil] at hscan
  exact ⟨hlen, by rw [hlen, hscan]⟩

/-- A segment is found whatever follows it. -/
theorem scan_append {cs : List Char} {segment : Segment} (h : scan cs = some (segment, cs.length))
    (rest : List Char) : scan (cs ++ rest) = some (segment, cs.length) := by
  have hscan := (scan_eq_some h).2 rest
  rwa [List.take_length] at hscan

end Segment

namespace Lexer

/-- A block comment ends inside the text, and what follows it does not matter. -/
theorem commentEnd?_eq_some {source : List Char} {n : Nat} (h : commentEnd? source = some n) :
    n ≤ source.length ∧ ∀ rest, commentEnd? (source.take n ++ rest) = some n := by
  fun_induction commentEnd? source generalizing n with
  | case1 => cases h
  | case2 => cases h
  | case3 c d rest hcd =>
    cases h
    obtain ⟨rfl, rfl⟩ := hcd
    exact ⟨by simp, fun tail => by simp [commentEnd?]⟩
  | case4 c d rest hne ih =>
    obtain ⟨k, hk, rfl⟩ := Option.map_eq_some_iff.mp h
    obtain ⟨hle, hrest⟩ := ih hk
    refine ⟨by simpa using hle, fun tail => ?_⟩
    cases k with
    | zero =>
      have hzero := hrest []
      simp [commentEnd?] at hzero
    | succ k =>
      have hstep := hrest tail
      simp only [List.take_succ_cons, List.cons_append] at hstep ⊢
      rw [commentEnd?, if_neg hne, hstep]
      rfl

/-- The search for the end of a block comment stops at that end. -/
theorem commentEnd?_take {source : List Char} {n : Nat} (h : commentEnd? source = some n) :
    (source.take n).length = n ∧ commentEnd? (source.take n) = some (source.take n).length := by
  obtain ⟨hle, hrest⟩ := commentEnd?_eq_some h
  have hlen : (source.take n).length = n := by rw [List.length_take, Nat.min_eq_left hle]
  have hend := hrest []
  rw [List.append_nil] at hend
  exact ⟨hlen, by rw [hlen, hend]⟩

/-- The end of a block comment is found whatever follows it. -/
theorem commentEnd?_append {cs : List Char} (h : commentEnd? cs = some cs.length)
    (rest : List Char) : commentEnd? (cs ++ rest) = some cs.length := by
  have hend := (commentEnd?_eq_some h).2 rest
  rwa [List.take_length] at hend

/-- Whether a star stands right before a slash somewhere in a text. -/
def HasCommentEnd (source : List Char) : Prop :=
  ∃ before after, source = before ++ '*' :: '/' :: after

/-- No end of a block comment is found exactly where there is none. -/
theorem commentEnd?_eq_none_iff {source : List Char} :
    commentEnd? source = none ↔ ¬ HasCommentEnd source := by
  fun_induction commentEnd? source with
  | case1 => simp [HasCommentEnd]
  | case2 c =>
    simp only [true_iff]
    rintro ⟨before, after, h⟩
    have hlen := congrArg List.length h
    simp at hlen
    omega
  | case3 c d rest hcd =>
    obtain ⟨rfl, rfl⟩ := hcd
    simpa using ⟨[], rest, rfl⟩
  | case4 c d rest hne ih =>
    rw [Option.map_eq_none_iff, ih]
    apply not_congr
    constructor
    · rintro ⟨before, after, h⟩
      exact ⟨c :: before, after, by rw [h]; rfl⟩
    · rintro ⟨before, after, h⟩
      cases before with
      | nil =>
        obtain ⟨hc, ht⟩ := List.cons.inj h
        exact absurd ⟨hc, (List.cons.inj ht).1⟩ hne
      | cons b before => exact ⟨before, after, (List.cons.inj h).2⟩

/-- An end of a block comment in a concatenation lies in one part or across the seam. -/
theorem hasCommentEnd_append_iff {xs ys : List Char} :
    HasCommentEnd (xs ++ ys) ↔ HasCommentEnd xs ∨ HasCommentEnd ys ∨
      xs.getLast? = some '*' ∧ ys.head? = some '/' := by
  constructor
  · rintro ⟨before, after, h⟩
    rcases List.append_eq_append_iff.mp h with ⟨mid, hbefore, hys⟩ | ⟨mid, hxs, hmid⟩
    · exact Or.inr (Or.inl ⟨mid, after, hys⟩)
    · match mid, hmid with
      | [], hmid => exact Or.inr (Or.inl ⟨[], after, hmid.symm⟩)
      | [c], hmid =>
        obtain ⟨rfl, hys⟩ := List.cons.inj hmid
        have hhead : ys.head? = some '/' := (congrArg List.head? hys).symm
        exact Or.inr (Or.inr ⟨by simp [hxs], hhead⟩)
      | c :: d :: mid, hmid =>
        obtain ⟨rfl, htail⟩ := List.cons.inj hmid
        obtain ⟨rfl, _⟩ := List.cons.inj htail
        exact Or.inl ⟨before, mid, hxs⟩
  · rintro (⟨before, after, rfl⟩ | ⟨before, after, rfl⟩ | ⟨hlast, hhead⟩)
    · exact ⟨before, after ++ ys, by simp⟩
    · exact ⟨xs ++ before, after, by simp⟩
    · obtain ⟨before, rfl⟩ := List.getLast?_eq_some_iff.mp hlast
      obtain ⟨after, rfl⟩ := List.head?_eq_some_iff.mp hhead
      exact ⟨before, after, by simp⟩

end Lexer

namespace Grammar

/-- A closing quote lies inside the text, and what follows it does not matter. -/
theorem closingQuote?_eq_some {source : List Char} {n : Nat}
    (h : closingQuote? source = some n) :
    n ≤ source.length ∧ ∀ rest, closingQuote? (source.take n ++ rest) = some n := by
  fun_induction closingQuote? source generalizing n with
  | case1 => cases h
  | case2 cs => cases h; exact ⟨by simp, fun rest => closingQuote?_quote rest⟩
  | case3 => cases h
  | case4 => cases h
  | case5 d ds hd _ ih =>
    obtain ⟨k, hk, rfl⟩ := Option.map_eq_some_iff.mp h
    obtain ⟨hle, hrest⟩ := ih hk
    refine ⟨by simpa using hle, fun rest => ?_⟩
    rw [List.take_succ_cons, List.take_succ_cons, List.cons_append, List.cons_append,
      closingQuote?_escape hd, hrest rest]
    rfl
  | case6 c cs hq hb ih =>
    obtain ⟨k, hk, rfl⟩ := Option.map_eq_some_iff.mp h
    obtain ⟨hle, hrest⟩ := ih hk
    refine ⟨by simpa using hle, fun rest => ?_⟩
    rw [List.take_succ_cons, List.cons_append, closingQuote?_plain hq hb, hrest rest]
    rfl

/-- The search for a closing quote stops at that quote. -/
theorem closingQuote?_take {source : List Char} {n : Nat} (h : closingQuote? source = some n) :
    (source.take n).length = n ∧ closingQuote? (source.take n) = some (source.take n).length := by
  obtain ⟨hle, hrest⟩ := closingQuote?_eq_some h
  have hlen : (source.take n).length = n := by rw [List.length_take, Nat.min_eq_left hle]
  have hend := hrest []
  rw [List.append_nil] at hend
  exact ⟨hlen, by rw [hlen, hend]⟩

/-- A closing quote is found whatever follows it. -/
theorem closingQuote?_append {cs : List Char} (h : closingQuote? cs = some cs.length)
    (rest : List Char) : closingQuote? (cs ++ rest) = some cs.length := by
  have hend := (closingQuote?_eq_some h).2 rest
  rwa [List.take_length] at hend

/-- What follows string text that breaks off: nothing, or a backslash that takes no character
along. -/
def BreaksOff (rest : List Char) : Prop :=
  rest = [] ∨ rest = ['\\'] ∨ ∃ tail, rest = '\\' :: '\n' :: tail

/-- String text without a closing quote breaks off behind its counted characters, and it does so
before every text that breaks it off. -/
theorem breaksOff_of_closingQuote?_eq_none {source : List Char}
    (h : closingQuote? source = none) :
    quotedLength source ≤ source.length ∧ BreaksOff (source.drop (quotedLength source)) ∧
      ∀ rest, BreaksOff rest →
        closingQuote? (source.take (quotedLength source) ++ rest) = none ∧
          quotedLength (source.take (quotedLength source) ++ rest) = quotedLength source := by
  have hstop : ∀ rest, BreaksOff rest → closingQuote? rest = none ∧ quotedLength rest = 0 := by
    rintro rest (rfl | rfl | ⟨tail, rfl⟩) <;> simp [closingQuote?, quotedLength]
  fun_induction closingQuote? source with
  | case1 => exact ⟨Nat.le_refl _, Or.inl rfl, hstop⟩
  | case2 => cases h
  | case3 =>
    exact ⟨by simp [quotedLength], Or.inr (Or.inl rfl), by simpa [quotedLength] using hstop⟩
  | case4 ds =>
    exact ⟨by simp [quotedLength], Or.inr (Or.inr ⟨ds, rfl⟩), by simpa [quotedLength] using hstop⟩
  | case5 d ds hd _ ih =>
    obtain ⟨hle, hdrop, hrest⟩ := ih (Option.map_eq_none_iff.mp h)
    rw [quotedLength_escape hd]
    refine ⟨by simpa using hle, hdrop, fun rest hr => ?_⟩
    obtain ⟨hnone, heq⟩ := hrest rest hr
    rw [List.take_succ_cons, List.take_succ_cons, List.cons_append, List.cons_append,
      closingQuote?_escape hd, quotedLength_escape hd, hnone, heq]
    exact ⟨rfl, rfl⟩
  | case6 c cs hq hb ih =>
    obtain ⟨hle, hdrop, hrest⟩ := ih (Option.map_eq_none_iff.mp h)
    rw [quotedLength_plain hq hb]
    refine ⟨by simpa using hle, hdrop, fun rest hr => ?_⟩
    obtain ⟨hnone, heq⟩ := hrest rest hr
    rw [List.take_succ_cons, List.cons_append, closingQuote?_plain hq hb,
      quotedLength_plain hq hb, hnone, heq]
    exact ⟨rfl, rfl⟩

end Grammar

end ManifestSpacing
