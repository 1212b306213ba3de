import ManifestSpacing.Proofs.Lint.Runs
import ManifestSpacing.Proofs.Lint.Turns

/-!
# Hints are exact

A run in fix mode moves each hint by the number of tokens that earlier repairs
added. Since problems are repaired row by row, and a gap with two problems
keeps its length, a moved hint is the very index of its token in the stream at
that moment. Later repairs lie behind the token, so the hint is exact in the
final stream as well. A stream never doubles in length, so that no hint
reaches the end of its range.
-/

namespace ManifestSpacing

/-! ## Lengths -/

/-- The length of a stream changes by what a repair tells. -/
theorem TokenStream.length_fix (s : TokenStream) (p : Problem) :
    ((s.fix p).stream.tokens.length : Int) =
      s.tokens.length + Linter.growth (s.fix p).outcome := by
  rcases s.fix_cases p with ⟨hsame, hgrowth⟩ | ⟨xs, l, gap, r, ys, hreplaces⟩
  · rw [hsame, hgrowth, Int.add_zero]
  · rw [hreplaces.fix_eq, hreplaces.tokens_eq]
    simp only [Linter.growth, List.length_append, List.length_cons, length_freshTokens]
    omega

namespace Row

theorem length_join (rows : List Row) :
    (join rows).length = (rows.map fun row => row.gap.length + 1).sum := by
  rw [join, List.length_flatMap]
  simp only [List.length_cons]

/-- Rows with gaps of the same lengths have as many tokens. -/
theorem length_join_eq {rows rows' : List Row} (hlen : rows'.length = rows.length)
    (h : ∀ {i : Nat} {row row' : Row}, rows[i]? = some row → rows'[i]? = some row' →
      row'.gap.length = row.gap.length) : (join rows').length = (join rows).length := by
  rw [length_join, length_join]
  refine congrArg List.sum (List.ext_getElem (by simpa using hlen) fun i hi hi' => ?_)
  rw [List.length_map] at hi hi'
  rw [List.getElem_map, List.getElem_map,
    h (List.getElem?_eq_getElem hi') (List.getElem?_eq_getElem hi)]

/-- Rows whose gaps grow by one token at most do not double in length. -/
theorem length_join_le {rows rows' : List Row} (hlen : rows'.length = rows.length)
    (h : ∀ {i : Nat} {row row' : Row}, rows[i]? = some row → rows'[i]? = some row' →
      row'.gap.length ≤ row.gap.length + 1) : (join rows').length ≤ 2 * (join rows).length := by
  rw [length_join, length_join, ← List.sum_map_mul_left]
  refine List.Forall₂.sum_le_sum ?_
  rw [List.forall₂_map_left_iff, List.forall₂_map_right_iff, List.forall₂_iff_get]
  refine ⟨hlen, fun i hi hi' => ?_⟩
  have hgap := h (List.getElem?_eq_getElem hi') (List.getElem?_eq_getElem hi)
  simp only [List.get_eq_getElem]
  omega

end Row

/-- A mended gap has the length of a repair or its own. -/
theorem Mended.length_gap {done : List Problem} {row row' : Row} (h : Mended done row row') :
    (∃ p ∈ done, p.Mends row ∧ row'.gap.length = (p.rule.repair row.gap).length) ∨
      (∀ p ∈ done, ¬ p.Mends row) ∧ row'.gap.length = row.gap.length := by
  by_cases hdone : ∃ p ∈ done, p.Mends row
  · obtain ⟨p, hp, hmends⟩ := hdone
    refine Or.inl ⟨p, hp, hmends, ?_⟩
    rw [← h.repaired p hp hmends, Gap.pieces, List.length_map]
  · have hnone : ∀ p ∈ done, ¬ p.Mends row := fun p hp hmends => hdone ⟨p, hp, hmends⟩
    exact Or.inr ⟨hnone, by rw [h.untouched hnone]⟩

namespace Progress

variable {layout : Layout} {done : List Problem} {rows : List Row} {s : TokenStream}
  (h : Progress layout done rows s)

include h

/-- Handling problems never doubles the length. -/
theorem length_le : s.tokens.length ≤ 2 * layout.tokens.length := by
  have hrows : (Row.join rows).length ≤ 2 * (Row.join layout.rows).length := by
    refine Row.length_join_le h.length_eq fun {i row row'} hrow hrow' => ?_
    rcases (h.mended hrow hrow').length_gap with ⟨p, _, _, hlength⟩ | ⟨_, hlength⟩
    · rw [hlength]
      exact p.rule.length_repair_le row.gap
    · rw [hlength]
      exact Nat.le_succ _
  rw [h.tokens_eq, Layout.tokens, List.length_append, List.length_append]
  omega

/-- The token of a row stands where the content of the stream has it. -/
theorem getElem?_contentPlace {k : Nat} {row : Row} (hrow : layout.rows[k]? = some row) :
    s.tokens[contentPlace s.tokens k]? = some row.head := by
  obtain ⟨row', hrow', hmended⟩ := h.exists_row hrow
  have htokens : s.tokens = Layout.tokens ⟨layout.lead, rows, layout.blank⟩ := h.tokens_eq
  rw [Outline.getElem?_contentPlace, htokens, Layout.getElem?_content, hrow', Option.map_some,
    hmended.head]

theorem contentPlace_eq {k : Nat} (hk : k < layout.rows.length) :
    contentPlace s.tokens k = layout.lead.length + (Row.join (rows.take k)).length := by
  have htokens : s.tokens = Layout.tokens ⟨layout.lead, rows, layout.blank⟩ := h.tokens_eq
  rw [htokens, Layout.contentPlace_eq (by rw [h.length_eq]; exact hk), List.length_append]

/-- Where no gap from a row on has changed its length, the row has moved by as many tokens as the
stream has grown. -/
theorem contentPlace_add_length {k : Nat} (hk : k < layout.rows.length)
    (hrest : ∀ {i : Nat} {row row' : Row}, k ≤ i → layout.rows[i]? = some row →
      rows[i]? = some row' → row'.gap.length = row.gap.length) :
    contentPlace s.tokens k + layout.tokens.length =
      contentPlace layout.tokens k + s.tokens.length := by
  have hdrop : (Row.join (rows.drop k)).length = (Row.join (layout.rows.drop k)).length := by
    refine Row.length_join_eq (by rw [List.length_drop, List.length_drop, h.length_eq]) ?_
    intro i row row' hrow hrow'
    rw [List.getElem?_drop] at hrow hrow'
    exact hrest (Nat.le_add_right k i) hrow hrow'
  have hsplit (rows : List Row) : (Row.join rows).length =
      (Row.join (rows.take k)).length + (Row.join (rows.drop k)).length := by
    rw [← List.length_append, ← Row.join_append, List.take_append_drop]
  rw [h.contentPlace_eq hk, Layout.contentPlace_eq hk, h.tokens_eq, Layout.tokens,
    List.length_append, List.length_append, List.length_append, hsplit rows, hsplit layout.rows,
    hdrop]
  omega

/-- A problem whose turn it is has its token moved by as many tokens as the stream has grown. -/
theorem contentPlace_of_inTurn {q : Problem} {k : Nat} {row next : Row}
    (hrep : q.Repairable layout k row next) (hq : q.fixable = true)
    (hturn : ∀ p ∈ done, p.InTurn layout q) :
    contentPlace s.tokens k + layout.tokens.length =
      contentPlace layout.tokens k + s.tokens.length := by
  refine h.contentPlace_add_length (List.getElem?_eq_some_iff.mp hrep.row_eq).1 ?_
  intro i other other' hki hother hother'
  rcases (h.mended hother hother').length_gap with ⟨p, hp, hmends, hlength⟩ | ⟨_, hlength⟩
  · -- a row handled before is not behind that of the problem, so it is the same row
    obtain ⟨hle, hshared⟩ := hturn p hp i k other row hother hrep.row_eq hmends ⟨hq, hrep.left⟩
    rw [hlength, hshared (Nat.le_antisymm hle hki)]
  · exact hlength

/-- Problems of later rows leave the token of a row where it is. -/
theorem contentPlace_eq_of_later {later : List Problem} {rows' : List Row} {s' : TokenStream}
    (h' : Progress layout (done ++ later) rows' s') {k : Nat} (hk : k < layout.rows.length)
    (hlater : ∀ p ∈ later, ∀ (i : Nat) (row : Row), layout.rows[i]? = some row → p.Mends row →
      k ≤ i) : contentPlace s'.tokens k = contentPlace s.tokens k := by
  rw [h.contentPlace_eq hk, h'.contentPlace_eq hk]
  congr 1
  refine Row.length_join_eq ?_ ?_
  · rw [List.length_take, List.length_take, h.length_eq, h'.length_eq]
  intro i row₁ row₂ hrow₁ hrow₂
  rw [List.getElem?_take] at hrow₁ hrow₂
  split at hrow₁
  · rename_i hik
    rw [if_pos hik] at hrow₂
    obtain ⟨row, hrow⟩ : ∃ row, layout.rows[i]? = some row :=
      ⟨_, List.getElem?_eq_getElem (Nat.lt_trans hik hk)⟩
    have hmended := h'.mended hrow hrow₂
    rcases (h.mended hrow hrow₁).length_gap with ⟨p, hp, hmends, hlength⟩ | ⟨hnone, hlength⟩
    · rw [hlength, ← hmended.repaired p (List.mem_append_left _ hp) hmends, Gap.pieces,
        List.length_map]
    · rw [hlength, hmended.untouched]
      intro p hp hmends
      rcases List.mem_append.mp hp with hp | hp
      · exact hnone p hp hmends
      · exact Nat.not_le_of_lt hik (hlater p hp i row hrow hmends)
  · cases hrow₁

end Progress

/-! ## The calls of a pass -/

namespace Linter

/-- A repair that a pass is about to make. -/
structure PassCall where
  /-- The stream as it then is. -/
  stream : TokenStream
  /-- The problem as it was detected. -/
  problem : Problem
  /-- The number of tokens that earlier repairs added. -/
  drift : Int

namespace PassCall

/-- The problem with its hint moved. -/
def moved (call : PassCall) : Problem :=
  { call.problem with anchors := call.problem.anchors.shift call.drift }

/-- The repair itself. -/
def repair (call : PassCall) : Repair := call.stream.fix call.moved

/-- Whether the moved hint is the sum of the hint and the drift and the index of the left token,
at the time of the call and in the end. -/
structure Exact (call : PassCall) (final : TokenStream) : Prop where
  sum : (call.moved.anchors.hint : Int) = call.problem.anchors.hint + call.drift
  live : call.stream.positionOf? call.problem.anchors.left = some call.moved.anchors.hint
  last : final.positionOf? call.problem.anchors.left = some call.moved.anchors.hint

end PassCall

/-- The repairs that a pass is about to make, in order. -/
def passCalls (drift : Int) (s : TokenStream) : List Problem → List PassCall
  | [] => []
  | p :: ps =>
    if p.fixable then
      let call : PassCall := ⟨s, p, drift⟩
      call :: passCalls (drift + growth call.repair.outcome) call.repair.stream ps
    else passCalls drift s ps

/-- A pass makes the repairs that it calls. -/
theorem map_repair_passCalls (drift : Int) (s : TokenStream) (ps : List Problem) :
    (passCalls drift s ps).map PassCall.repair = passRepairs drift s ps := by
  induction ps generalizing drift s with
  | nil => rfl
  | cons p ps ih =>
    rw [passCalls, passRepairs]
    split
    · rw [List.map_cons, ih]
      rfl
    · exact ih drift s

/-- One call: a problem whose turn it is has an exact hint. -/
theorem exact_passCall {layout : Layout} {done later : List Problem} {rows rows' : List Row}
    {s final : TokenStream} {p : Problem} {drift : Int} (h : Progress layout done rows s)
    (hfinal : Progress layout (done ++ p :: later) rows' final)
    (hids : (layout.rows.map fun row => row.head.id).Nodup) (hp : p.fixable = true)
    {k : Nat} {row next : Row} (hrep : p.Repairable layout k row next)
    (hhint : p.anchors.hint = contentPlace layout.tokens k)
    (hbefore : ∀ q ∈ done, q.InTurn layout p) (hafter : ∀ q ∈ later, p.InTurn layout q)
    (hdrift : (s.tokens.length : Int) = layout.tokens.length + drift)
    (hsize : 2 * layout.tokens.length ≤ GapAnchors.maxHint) :
    PassCall.Exact ⟨s, p, drift⟩ final := by
  have hk := (List.getElem?_eq_some_iff.mp hrep.row_eq).1
  have hplace := h.contentPlace_of_inTurn hrep hp hbefore
  have hlive := h.getElem?_contentPlace hrep.row_eq
  have hmoved : (p.anchors.shift drift).hint = contentPlace s.tokens k := by
    have hinside := (List.getElem?_eq_some_iff.mp hlive).1
    have hlength := h.length_le
    simp only [GapAnchors.shift, hhint]
    omega
  have hsame : contentPlace final.tokens k = contentPlace s.tokens k := by
    refine h.contentPlace_eq_of_later hfinal hk fun q hq i other hother hmends => ?_
    rcases List.mem_cons.mp hq with rfl | hq
    · have hhead := hrep.left.symm.trans hmends.2
      exact Nat.le_of_eq (eq_of_nodup_map hids hrep.row_eq hother hhead)
    · exact (hafter q hq k i row other hrep.row_eq hother ⟨hp, hrep.left⟩ hmends).1
  have hlast := hfinal.getElem?_contentPlace hrep.row_eq
  rw [hsame] at hlast
  refine ⟨?_, ?_, ?_⟩
  · simp only [PassCall.moved, hmoved, hhint]
    omega
  · simp only [PassCall.moved, hmoved, hrep.left]
    exact TokenStream.positionOf?_eq_some h.nodup hlive
  · simp only [PassCall.moved, hmoved, hrep.left]
    exact TokenStream.positionOf?_eq_some hfinal.nodup hlast

/-- Every call of a pass over problems that come in turn has an exact hint. -/
theorem exact_of_mem_passCalls {layout : Layout} {done ps : List Problem} {rows : List Row}
    {s : TokenStream} {drift : Int} (h : Progress layout done rows s)
    (hharm : Harmonious layout (done ++ ps))
    (hturn : (done ++ ps).Pairwise (Problem.InTurn layout))
    (hunfixed : ∀ p ∈ ps, p.fixed = false)
    (hhints : ∀ p ∈ ps, p.fixable = true → ∃ k row next, p.Repairable layout k row next ∧
      p.anchors.hint = contentPlace layout.tokens k)
    (hdrift : (s.tokens.length : Int) = layout.tokens.length + drift)
    (hsize : 2 * layout.tokens.length ≤ GapAnchors.maxHint) :
    ∀ call ∈ passCalls drift s ps, call.Exact (fixPass drift s ps).1 := by
  induction ps generalizing done rows s drift with
  | nil => simp [passCalls]
  | cons p ps ih =>
    obtain ⟨⟨rows', hfinal⟩, _⟩ := progress_fixPass h hharm hunfixed drift
    rw [List.append_cons] at hharm
    have hnow : Harmonious layout (done ++ [p]) :=
      hharm.mono fun q hq => List.mem_append_left ps hq
    have hunfixed' : ∀ q ∈ ps, q.fixed = false := fun q hq =>
      hunfixed q (List.mem_cons_of_mem p hq)
    have hhints' := fun q hq => hhints q (List.mem_cons_of_mem p hq)
    obtain ⟨_, hrest, hacross⟩ := List.pairwise_append.mp hturn
    rw [List.append_cons] at hturn
    cases hp : p.fixable with
    | false =>
      rw [fixPass_cons_of_unfixable drift s ps hp, passCalls, if_neg (by simp [hp])]
      exact ih (h.skip hp) hharm hturn hunfixed' hhints' hdrift
    | true =>
      obtain ⟨k, row, next, hrep, hhint⟩ := hhints p List.mem_cons_self hp
      have hexact := exact_passCall h hfinal hharm.nodup hp hrep hhint
        (fun q hq => hacross q hq p List.mem_cons_self) (List.pairwise_cons.mp hrest).1 hdrift hsize
      obtain ⟨rows'', hrows''⟩ := (h.fix hnow hp (p.anchors.shift drift).hint).progress
      rw [fixPass_cons_of_fixable drift s ps hp _ rfl] at hexact ⊢
      rw [passCalls, if_pos hp]
      intro call hcall
      rcases List.mem_cons.mp hcall with rfl | hcall
      · exact hexact
      · refine ih hrows'' hharm hturn hunfixed' hhints' ?_ call hcall
        rw [← Int.add_assoc, ← hdrift]
        exact TokenStream.length_fix s _

/-- A pass calls for the repair of every problem that can be repaired. -/
theorem map_problem_passCalls (drift : Int) (s : TokenStream) (ps : List Problem) :
    (passCalls drift s ps).map PassCall.problem = ps.filter Problem.fixable := by
  induction ps generalizing drift s with
  | nil => rfl
  | cons p ps ih =>
    rw [passCalls, List.filter_cons]
    split
    · rw [List.map_cons, ih]
    · exact ih drift s

end Linter

/-! ## Runs over a lexed manifest -/

namespace TokenStream

theorem anchors_problem_fix (s : TokenStream) (p : Problem) :
    (s.fix p).problem.anchors = p.anchors := by
  simp only [fix]
  split <;> rfl

end TokenStream

/-- A manifest has at most as many tokens as bytes. -/
theorem length_tokens_le {source : String} {s : TokenStream} (hlex : lex source = .ok s) :
    s.tokens.length ≤ source.utf8ByteSize := by
  obtain ⟨hlexes, hrender, _⟩ := lex_eq_ok_iff.mp hlex
  have htext {opens : List OpenString} {here : Position} {id : TokenId} {ts : List Token}
      (h : Lexer.Lexes opens here id ts) : ts.length ≤ (textOf ts).length := by
    induction h with
    | nil => exact Nat.le_refl _
    | cons _ _ hcut _ ih =>
      have hpos := List.length_pos_of_ne_nil hcut.ne_nil
      rw [textOf_cons, List.length_cons, List.length_append]
      omega
  have hbytes (cs : List Char) : cs.length ≤ String.utf8Len cs := by
    induction cs with
    | nil => exact Nat.le_refl _
    | cons c cs ih =>
      have hpos := c.utf8Size_pos
      rw [String.utf8Len_cons, List.length_cons]
      omega
  calc s.tokens.length ≤ (textOf s.tokens).length := htext hlexes
    _ = source.toList.length := by rw [← toList_render, hrender]
    _ ≤ String.utf8Len source.toList := hbytes _
    _ = source.utf8ByteSize := by rw [← String.utf8ByteSize_ofList, String.ofList_toList]

namespace Linter

/-- Every call of a run over a text in memory has an exact hint. -/
theorem exact_of_lex (linter : Linter) {source : String} {s : TokenStream}
    (hlex : lex source = .ok s) (hsize : source.utf8ByteSize < 2 ^ 63) :
    ∀ call ∈ passCalls 0 s (linter.detect s), call.Exact (linter.mend s) := by
  obtain ⟨hlexes, _, hid⟩ := lex_eq_ok_iff.mp hlex
  obtain ⟨layout, htokens⟩ : ∃ layout : Layout, s.tokens = layout.tokens :=
    ⟨_, (Layout.tokens_ofTokens s.tokens).symm⟩
  have hstart := Progress.start_of_lexes htokens hlexes hid
  have hlength := length_tokens_le hlex
  rw [htokens] at hlexes hlength
  have hmax : GapAnchors.maxHint = 2 ^ 64 - 1 := rfl
  rw [mend, detect, htokens]
  refine exact_of_mem_passCalls hstart (harmonious_detect hlexes)
    (pairwise_inTurn hlexes linter.checks linter.settings)
    (fun p hp => fixed_eq_false_of_mem_detect hp) (fun p hp hfixable => ?_) (by simp [htokens])
    (by omega)
  obtain ⟨v, _, row, next, _, _, hhint, hrep⟩ :=
    exists_visit_of_fixable hlexes.commentsEnd hp hfixable
  exact ⟨_, row, next, hrep, hhint⟩

/-- In a run in fix mode every hint is exact. Whenever a repair is called for, the moved hint of
the problem is the index of its left token in the stream as it then is, and moving it meets no end
of the range of hints; in the report the hint of every problem that can be repaired is the index of
its left token in the final stream. A source is a text in memory, of less than 2 ^ 63 bytes. -/
theorem run_fix_hints_exact (linter : Linter) {source : String} {s : TokenStream}
    (hlex : lex source = .ok s) (hsize : source.utf8ByteSize < 2 ^ 63) :
    ∃ report, linter.run source .fix = .ok report ∧
      (passCalls 0 s (linter.detect s)).map PassCall.problem =
        (linter.detect s).filter Problem.fixable ∧
      (passCalls 0 s (linter.detect s)).map (fun call => call.repair.problem) =
        report.problems.filter Problem.fixable ∧
      (∀ call ∈ passCalls 0 s (linter.detect s),
        (call.moved.anchors.hint : Int) = call.problem.anchors.hint + call.drift ∧
          call.stream.positionOf? call.problem.anchors.left = some call.moved.anchors.hint) ∧
      ∀ p ∈ report.problems, p.fixable = true →
        (linter.runStream .fix s).1.positionOf? p.anchors.left = some p.anchors.hint := by
  have hexact := linter.exact_of_lex hlex hsize
  have hproblems : (passCalls 0 s (linter.detect s)).map (fun call => call.repair.problem) =
      (fixPass 0 s (linter.detect s)).2.filter Problem.fixable := by
    rw [filter_fixable_fixPass, ← map_repair_passCalls, List.map_map]
    rfl
  refine ⟨_, linter.run_fix_eq hlex, map_problem_passCalls 0 s _, hproblems,
    fun call hcall => ⟨(hexact call hcall).sum, (hexact call hcall).live⟩, fun p hp hfixable => ?_⟩
  have hmem := List.mem_filter.mpr ⟨hp, hfixable⟩
  rw [← hproblems] at hmem
  obtain ⟨call, hcall, rfl⟩ := List.mem_map.mp hmem
  have hanchors : call.repair.problem.anchors = call.moved.anchors :=
    TokenStream.anchors_problem_fix _ _
  have hfinal : (linter.runStream .fix s).1 = (linter.mend s).reposition := rfl
  rw [hfinal, TokenStream.positionOf?_reposition, hanchors]
  exact (hexact call hcall).last

/-- The first repair takes a tab out, so that the second hint moves. -/
theorem run_fix_hints_exact_drift :
    ∃ s call report p, lex "\x7b\t\x7d\x7ba\x7d" = .ok s ∧
      "\x7b\t\x7d\x7ba\x7d".utf8ByteSize < 2 ^ 63 ∧
      standard.run "\x7b\t\x7d\x7ba\x7d" .fix = .ok report ∧
      call ∈ passCalls 0 s (standard.detect s) ∧ call.drift = -1 ∧
      (call.moved.anchors.hint : Int) = call.problem.anchors.hint + call.drift ∧
      call.stream.positionOf? call.problem.anchors.left = some call.moved.anchors.hint ∧
      p ∈ report.problems ∧ p.fixable = true ∧
      (standard.runStream .fix s).1.positionOf? p.anchors.left = some p.anchors.hint := by
  obtain ⟨s, call, hlex, hcall, hdrift, hfixable⟩ : ∃ s call,
      lex "\x7b\t\x7d\x7ba\x7d" = .ok s ∧
      (passCalls 0 s (standard.detect s))[1]? = some call ∧ call.drift = -1 ∧
      call.repair.problem.fixable = true :=
    ⟨⟨[⟨0, .openBrace, "\x7b", ⟨1, 1⟩⟩, ⟨1, .whitespace, "\t", ⟨1, 2⟩⟩,
      ⟨2, .closeBrace, "\x7d", ⟨1, 3⟩⟩, ⟨3, .openBrace, "\x7b", ⟨1, 4⟩⟩, ⟨4, .name, "a", ⟨1, 5⟩⟩,
      ⟨5, .closeBrace, "\x7d", ⟨1, 6⟩⟩], 6⟩,
      ⟨⟨[⟨0, .openBrace, "\x7b", ⟨1, 1⟩⟩, ⟨2, .closeBrace, "\x7d", ⟨1, 3⟩⟩,
        ⟨3, .openBrace, "\x7b", ⟨1, 4⟩⟩, ⟨4, .name, "a", ⟨1, 5⟩⟩,
        ⟨5, .closeBrace, "\x7d", ⟨1, 6⟩⟩], 6⟩,
        ⟨.error, ⟨1, 4⟩, .closingBraceAfter, false, true, ⟨2, 3, 2⟩, .after .loose⟩, -1⟩,
      by cbv, by cbv, rfl, by cbv⟩
  have hsize : "\x7b\t\x7d\x7ba\x7d".utf8ByteSize < 2 ^ 63 := by decide
  have hmem := List.mem_of_getElem? hcall
  obtain ⟨report, hrun, _, hproblems, hexact, hlast⟩ := run_fix_hints_exact standard hlex hsize
  obtain ⟨hsum, hlive⟩ := hexact call hmem
  have hp : call.repair.problem ∈ report.problems := by
    have hfilter := List.mem_map_of_mem (f := fun call => call.repair.problem) hmem
    rw [hproblems] at hfilter
    exact (List.mem_filter.mp hfilter).1
  exact ⟨s, call, report, _, hlex, hsize, hrun, hmem, hdrift, hsum, hlive, hp, hfixable,
    hlast _ hp hfixable⟩

end Linter

end ManifestSpacing
