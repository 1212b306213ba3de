import ManifestSpacing.Proofs.Lexical.Spelling

/-!
# Runs that stop before the end

A run can be followed up to any of its tokens, whether it succeeds or fails
further on. What it has cut off so far depends on the text behind as far as
each cut does, and dropping some of that text from the end changes nothing. A
run fails only where it is stuck: in front of a string that nothing closes, in
front of the text that should go on with one, or at the end with one still
open.
-/

namespace ManifestSpacing

namespace Lexer

open Grammar

/-- Tokens that the lexer cuts off one after the other in front of a rest; `after` are the strings
that are open there. -/
inductive Passes (rest : List Char) (after : List OpenString) :
    List OpenString → Position → TokenId → List Token → Prop where
  | nil {here : Position} {id : TokenId} : Passes rest after after here id []
  | cons {opens mid : List OpenString} {here : Position} {id : TokenId} {t : Token}
      {ts : List Token} (hid : t.id = id) (hposition : t.position = here)
      (hcut : Cut here opens t.kind t.text.toList (textOf ts ++ rest) mid)
      (hrest : Passes rest after mid (here.advance t.text.toList) (id + 1) ts) :
      Passes rest after opens here id (t :: ts)

variable {opens after : List OpenString} {here : Position} {id : TokenId} {ts us : List Token}
  {rest : List Char}

namespace Passes

/-- What is cut off in turn is cut off together. -/
theorem append_iff : Passes rest after opens here id (ts ++ us) ↔ ∃ mid,
    Passes (textOf us ++ rest) mid opens here id ts ∧
      Passes rest after mid (here.advance (textOf ts)) (id + ts.length) us := by
  induction ts generalizing opens here id with
  | nil =>
    constructor
    · intro h
      exact ⟨opens, .nil, h⟩
    · rintro ⟨_, ⟨⟩, h⟩
      exact h
  | cons t ts ih =>
    rw [List.cons_append, textOf_cons, Position.advance_append, List.length_cons,
      Nat.add_comm ts.length, ← Nat.add_assoc]
    constructor
    · rintro (_ | ⟨hid, hposition, hcut, hrest⟩)
      obtain ⟨mid, hfront, hback⟩ := ih.mp hrest
      rw [textOf_append, List.append_assoc] at hcut
      exact ⟨mid, .cons hid hposition hcut hfront, hback⟩
    · rintro ⟨mid, _ | ⟨hid, hposition, hcut, hfront⟩, hback⟩
      rw [← List.append_assoc, ← textOf_append] at hcut
      exact .cons hid hposition hcut (ih.mpr ⟨mid, hfront, hback⟩)

/-- A token lies behind the texts of those before it. -/
theorem position_of_append {t : Token} (h : Passes rest after opens here id (ts ++ t :: us)) :
    t.position = here.advance (textOf ts) := by
  obtain ⟨_, _, _ | ⟨_, hposition, _, _⟩⟩ := append_iff.mp h
  exact hposition

end Passes

/-- A whole run stops with nothing left and no string open. -/
theorem lexes_iff_passes : Lexes opens here id ts ↔ Passes [] [] opens here id ts := by
  constructor
  · intro h
    induction h with
    | nil => exact .nil
    | cons hid hposition hcut _ ih =>
      exact .cons hid hposition (by rwa [List.append_nil]) ih
  · intro h
    induction h with
    | nil => exact .nil
    | cons hid hposition hcut _ ih =>
      rw [List.append_nil] at hcut
      exact .cons hid hposition hcut ih

/-! ## The only way to go on -/

/-- A text is cut in one way. -/
theorem Cut.unique {kind kind' : TokenKind} {text text' rest' : List Char}
    {after' : List OpenString} (h : Cut here opens kind text rest after)
    (h' : Cut here opens kind' text' rest' after') (htext : text ++ rest = text' ++ rest') :
    kind = kind' ∧ text = text' ∧ rest = rest' ∧ after = after' := by
  have hstep := step_of_cut h
  rw [htext, step_of_cut h'] at hstep
  obtain ⟨hkind, hlength, hafter⟩ := Step.mk.inj (Except.ok.inj hstep)
  obtain ⟨rfl, rfl⟩ := List.append_inj htext hlength.symm
  exact ⟨hkind.symm, rfl, rfl, hafter.symm⟩

/-- Of two ways to follow a run one is the beginning of the other. -/
theorem Passes.comparable {rest' : List Char} {after' : List OpenString}
    (h : Passes rest after opens here id ts) (h' : Passes rest' after' opens here id us)
    (htext : textOf ts ++ rest = textOf us ++ rest') : ts <+: us ∨ us <+: ts := by
  induction h generalizing us with
  | nil => exact Or.inl (List.nil_prefix)
  | @cons opens mid here id t ts hid hposition hcut _ ih =>
    cases h' with
    | nil => exact Or.inr (List.nil_prefix)
    | @cons _ mid' _ _ u us hid' hposition' hcut' hrest' =>
      simp only [textOf_cons, List.append_assoc] at htext
      obtain ⟨hkind, htoken, htail, rfl⟩ := hcut.unique hcut' htext
      have hsame : t = u := by
        cases t
        cases u
        simp_all [String.toList_inj]
      subst hsame
      exact (ih hrest' htail).imp (List.prefix_cons_inj t).mpr (List.prefix_cons_inj t).mpr

/-- The strings that are open behind some tokens depend on the text alone. -/
theorem Passes.opens_unique {after' : List OpenString} (h : Passes rest after opens here id ts)
    (h' : Passes rest after' opens here id ts) : after = after' := by
  induction h with
  | nil =>
    cases h'
    rfl
  | cons _ _ hcut _ ih =>
    cases h' with
    | cons _ _ hcut' hrest =>
      obtain ⟨_, _, _, rfl⟩ := hcut.unique hcut' rfl
      exact ih hrest

/-- A run goes on from where a part of it stops. -/
theorem Passes.of_append {after' : List OpenString}
    (h : Passes (textOf us ++ rest) after opens here id ts)
    (h' : Passes rest after' opens here id (ts ++ us)) :
    Passes rest after' after (here.advance (textOf ts)) (id + ts.length) us := by
  obtain ⟨mid, hfront, hback⟩ := append_iff.mp h'
  rwa [h.opens_unique hfront]

/-- The lexer goes on behind the tokens that it has cut off. -/
theorem Passes.tokensFrom_eq (h : Passes rest after opens here id ts) :
    tokensFrom opens here id (textOf ts ++ rest) =
      (tokensFrom after (here.advance (textOf ts)) (id + ts.length) rest).map (ts ++ ·) := by
  induction h with
  | @nil here id =>
    cases htokens : tokensFrom after here id rest <;> simp [htokens, Except.map]
  | @cons opens mid here id t ts hid hposition hcut _ ih =>
    rw [textOf_cons, List.append_assoc, tokensFrom_cut hcut, ih, Position.advance_append,
      List.length_cons, Nat.add_comm ts.length, ← Nat.add_assoc, String.ofList_toList]
    cases tokensFrom after _ _ rest with
    | error e => rfl
    | ok tokens => simp [Except.map, ← hid, ← hposition]

/-! ## Shorter texts -/

/-- String text that breaks off does so where the text behind it is shortened. -/
theorem breaksOff_of_append {rest more : List Char} (h : BreaksOff (rest ++ more)) :
    BreaksOff rest := by
  match rest, h with
  | [], _ => exact Or.inl rfl
  | [c], h =>
    rcases h with h | h | ⟨tail, h⟩
    · cases h
    · exact Or.inr (Or.inl (congrArg ([·]) (List.cons.inj h).1))
    · exact Or.inr (Or.inl (congrArg ([·]) (List.cons.inj h).1))
  | c :: d :: rest, h =>
    rcases h with h | h | ⟨tail, h⟩
    · cases h
    · cases h
    · obtain ⟨rfl, htail⟩ := List.cons.inj h
      obtain ⟨rfl, _⟩ := List.cons.inj htail
      exact Or.inr (Or.inr ⟨rest, rfl⟩)

/-- A token is cut off before what is left of the text behind it. -/
theorem Cut.truncate {kind : TokenKind} {text more : List Char}
    (h : Cut here opens kind text (rest ++ more) after) : Cut here opens kind text rest after := by
  have hhead {d : Char} (hd : d ∈ rest.head?) : d ∈ (rest ++ more).head? := by
    rw [List.head?_append, Option.mem_def.mp hd]
    rfl
  apply h.undisturbed
  refine ⟨fun hkind d hd => ?_, fun hcomment d hd => ?_, fun hreturn hfeed => ?_,
    fun _ => breaksOff_of_append, fun hnone => ?_, fun _ => ?_⟩
  · exact (hkind ▸ h).rest_of_whitespace d (hhead hd)
  · exact h.rest_of_lineComment hcomment d (hhead hd)
  · exact (hreturn ▸ h).rest_of_return (hhead hfeed)
  · rw [commentEnd?_eq_none_iff] at hnone ⊢
    exact fun hend => hnone (hasCommentEnd_append_iff.mpr (Or.inl hend))
  · rw [List.takeWhile_append]
    split
    · exact (List.takeWhile_prefix isCode).trans (List.prefix_append _ _)
    · exact List.prefix_refl _

/-- What has been cut off is cut off before what is left of the text behind it. -/
theorem Passes.truncate {more : List Char} (h : Passes (rest ++ more) after opens here id ts) :
    Passes rest after opens here id ts := by
  generalize hlonger : rest ++ more = longer at h
  induction h with
  | nil => exact .nil
  | cons hid hposition hcut _ ih =>
    rw [← hlonger, ← List.append_assoc] at hcut
    exact .cons hid hposition hcut.truncate ih

/-! ## Where a run fails -/

/-- Where the lexer cannot go on, and what it then reports. -/
inductive Stuck (here : Position) : List OpenString → List Char → LexError → Prop where
  /-- Nothing is left and strings are open; the outermost one is reported. -/
  | atEnd {opens : List OpenString} {o : OpenString} (h : opens.getLast? = some o) :
      Stuck here opens [] ⟨o.start⟩
  /-- A string starts that neither ends nor has an interpolation. -/
  | atQuote {opens : List OpenString} {cs : List Char} (hscan : Segment.scan cs = none) :
      Stuck here opens ('"' :: cs) ⟨here⟩
  /-- An interpolation ends, and what follows neither ends its string nor has another one. -/
  | atBrace {o : OpenString} {os : List OpenString} {cs : List Char} (hbraces : o.braces = 0)
      (hscan : Segment.scan cs = none) : Stuck here (o :: os) ('\x7d' :: cs) ⟨o.start⟩

/-- The lexer is stuck where a step fails. -/
theorem stuck_of_step {source : List Char} {e : LexError}
    (h : step opens here source = .error e) : Stuck here opens source e := by
  cases hfirst : firstLexeme source with
  | mk lexeme n =>
    cases lexeme with
    | quote =>
      obtain ⟨cs, rfl⟩ := eq_doubleQuote_of_firstLexeme hfirst
      simp only [step, firstLexeme_doubleQuote, List.drop_succ_cons, List.drop_zero] at h
      split at h
      · rename_i hscan
        cases h
        exact .atQuote hscan
      · cases h
      · cases h
    | closeBrace =>
      obtain ⟨cs, rfl⟩ := eq_closeBrace_of_firstLexeme hfirst
      simp only [step, firstLexeme_closeBrace, List.drop_succ_cons, List.drop_zero] at h
      cases opens with
      | nil => cases h
      | cons o os =>
        dsimp only at h
        split at h
        · cases h
        · rename_i hbraces
          split at h
          · rename_i hscan
            cases h
            exact .atBrace (Nat.eq_zero_of_not_pos hbraces) hscan
          · cases h
          · cases h
    | commentStart =>
      simp only [step, hfirst] at h
      split at h <;> cases h
    | plain kind => simp only [step, hfirst, reduceCtorEq] at h
    | word => simp only [step, hfirst, reduceCtorEq] at h
    | openBrace => simp only [step, hfirst, reduceCtorEq] at h

/-- No token is cut off where the lexer is stuck. -/
theorem Stuck.not_cut {source : List Char} {e : LexError} (h : Stuck here opens source e)
    {kind : TokenKind} {text : List Char} (htext : source = text ++ rest) :
    ¬ Cut here opens kind text rest after := by
  intro hcut
  have hstep := step_of_cut hcut
  rw [← htext] at hstep
  cases h with
  | atEnd => exact hcut.ne_nil (List.append_eq_nil_iff.mp htext.symm).1
  | atQuote hscan => simp [step, firstLexeme_doubleQuote, hscan] at hstep
  | atBrace hbraces hscan => simp [step, firstLexeme_closeBrace, hbraces, hscan] at hstep

/-- No run of a text goes further than one that gets stuck. -/
theorem Stuck.isPrefix_of_passes {source : List Char} {e : LexError} {after' : List OpenString}
    (hstuck : Stuck (here.advance (textOf ts)) after source e)
    (h : Passes source after opens here id ts) (h' : Passes rest after' opens here id us)
    (htext : textOf ts ++ source = textOf us ++ rest) : us <+: ts := by
  rcases h.comparable h' htext with ⟨more, rfl⟩ | hprefix
  · rw [textOf_append, List.append_assoc] at htext
    have hsource := List.append_cancel_left htext
    have hmore := (hsource ▸ h).of_append h'
    cases hmore with
    | nil => simp only [List.append_nil, List.prefix_rfl]
    | cons _ _ hcut _ =>
      rw [textOf_cons, List.append_assoc] at hsource
      exact absurd hcut (hstuck.not_cut hsource)
  · exact hprefix

/-- A run that fails gets stuck behind some tokens. -/
theorem exists_stuck {source : List Char} {e : LexError}
    (h : tokensFrom opens here id source = .error e) : ∃ ts rest after,
      source = textOf ts ++ rest ∧ Passes rest after opens here id ts ∧
        Stuck (here.advance (textOf ts)) after rest e := by
  fun_induction tokensFrom opens here id source with
  | case1 => cases h
  | case2 opens here id o hlast =>
    cases h
    exact ⟨[], [], opens, rfl, .nil, .atEnd hlast⟩
  | case3 opens here id c cs e hstep =>
    cases h
    exact ⟨[], c :: cs, opens, rfl, .nil, stuck_of_step hstep⟩
  | case4 opens here id c cs found hstep text _ herror ih =>
    cases h
    obtain ⟨ts, rest, after, htext, hpasses, hstuck⟩ := ih herror
    have hcut := cut_take_of_step hstep
    rw [htext] at hcut
    have htoken : text ++ (textOf ts ++ rest) = c :: cs := by
      rw [← htext, List.cons_append, List.take_append_drop]
    refine ⟨⟨id, found.kind, String.ofList text, here⟩ :: ts, rest, after, ?_,
      @Passes.cons rest after opens found.opens here id _ ts rfl rfl ?_ ?_, ?_⟩
    · rw [textOf_cons, String.toList_ofList, List.append_assoc, htoken]
    · rwa [String.toList_ofList]
    · rwa [String.toList_ofList]
    · rwa [textOf_cons, String.toList_ofList, Position.advance_append]
  | case5 => cases h

end Lexer

end ManifestSpacing
