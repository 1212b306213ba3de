import Mathlib
import ManifestSpacing.Proofs.Lint.Rereading

/-!
# What a run in fix mode guarantees

A run in fix mode keeps every token of content, repairs each problem that can
be repaired and reports exactly which ones these were. Its text is lexed to the
tokens it was rendered from, and a further run finds nothing left to repair.
Taken back, it is a run in report mode.
-/

namespace ManifestSpacing

/-! ## Settled problems -/

/-- The problem as if nothing had been repaired. -/
def Problem.unmarked (p : Problem) : Problem := { p with fixed := false }

section Settled

variable {ps qs : List Problem} (h : List.Forall₂ Problem.Settled ps qs)

include h

/-- Settled problems are marked as fixed exactly if they can be repaired. -/
theorem fixed_eq_fixable_of_settled : ∀ q ∈ qs, q.fixed = q.fixable := by
  induction h with
  | nil => simp
  | cons hsettled _ ih =>
    intro q hq
    rcases List.mem_cons.mp hq with rfl | hq
    · obtain ⟨hint, rfl⟩ := hsettled
      rfl
    · exact ih q hq

theorem map_fixable_of_settled : qs.map Problem.fixable = ps.map Problem.fixable := by
  induction h with
  | nil => rfl
  | cons hsettled _ ih =>
    obtain ⟨hint, rfl⟩ := hsettled
    rw [List.map_cons, List.map_cons, ih]

/-- Settling keeps the findings that cannot be repaired. -/
theorem map_finding_of_settled : (qs.filter fun p => !p.fixable).map Problem.finding =
    (ps.filter fun p => !p.fixable).map Problem.finding := by
  induction h with
  | nil => rfl
  | @cons p q _ _ hsettled _ ih =>
    obtain ⟨hint, rfl⟩ := hsettled
    cases hp : p.fixable with
    | true => rw [List.filter_cons_of_neg (by simp), List.filter_cons_of_neg (by simp [hp]), ih]
    | false =>
      rw [List.filter_cons_of_pos (by simp), List.filter_cons_of_pos (by simp [hp]),
        List.map_cons, List.map_cons, ih]
      rfl

/-- Settling changes nothing but the mark and the hint. -/
theorem map_unmarked_of_settled (hint : Nat) :
    qs.map (fun q => q.unmarked.hinted hint) = ps.map fun p => p.unmarked.hinted hint := by
  induction h with
  | nil => rfl
  | cons hsettled _ ih =>
    obtain ⟨_, rfl⟩ := hsettled
    rw [List.map_cons, List.map_cons, ih]
    rfl

end Settled

/-- The errors that remain are chosen without a look at the hints. -/
theorem Report.map_hinted_remainingErrors (r : Report) (hint : Nat) :
    r.remainingErrors.map (·.hinted hint) =
      (r.problems.map (·.hinted hint)).filter fun p => p.isError && !p.fixed := by
  rw [List.filter_map]
  rfl

namespace Linter

/-- The problems that a pass tried to repair are those of its repairs. -/
theorem filter_fixable_fixPass (drift : Int) (s : TokenStream) (ps : List Problem) :
    (fixPass drift s ps).2.filter Problem.fixable =
      (passRepairs drift s ps).map Repair.problem := by
  have hkeep (t : TokenStream) (p : Problem) : (t.fix p).problem.fixable = p.fixable := by
    simp only [TokenStream.fix]
    split <;> rfl
  induction ps generalizing drift s with
  | nil => rfl
  | cons p ps ih =>
    cases hp : p.fixable with
    | true =>
      rw [fixPass_cons_of_fixable drift s ps hp _ rfl, passRepairs, if_pos hp,
        List.filter_cons_of_pos (by rw [hkeep]; exact hp), ih, List.map_cons]
    | false =>
      rw [fixPass_cons_of_unfixable drift s ps hp, passRepairs, if_neg (by simp [hp]),
        List.filter_cons_of_neg (by simp [hp]), ih]

/-- A pass with nothing to repair changes nothing. -/
theorem fixPass_eq_of_unfixable (drift : Int) (s : TokenStream) {ps : List Problem}
    (h : ∀ p ∈ ps, p.fixable = false) : fixPass drift s ps = (s, ps) := by
  induction ps with
  | nil => rfl
  | cons p ps ih =>
    rw [fixPass_cons_of_unfixable drift s ps (h p List.mem_cons_self),
      ih fun q hq => h q (List.mem_cons_of_mem p hq)]

section Run

variable (linter : Linter) {source : String} {s : TokenStream} (hlex : lex source = .ok s)

include hlex

/-- A run in fix mode renders the mended stream. -/
theorem run_fix_eq : linter.run source .fix =
    .ok ⟨(fixPass 0 s (linter.detect s)).2, (linter.mend s).render,
      (fixPass 0 s (linter.detect s)).2.all Problem.fixed⟩ := by
  simp only [run, hlex, runStream, mend, TokenStream.render_reposition]

/-- A run in report mode keeps the text. -/
theorem run_report_eq : linter.run source .report =
    .ok ⟨linter.detect s, source, (linter.detect s).all Problem.fixed⟩ := by
  simp only [run, hlex, runStream, (lex_eq_ok_iff.mp hlex).2.1]

/-- Where nothing can be repaired, both modes report the same and keep the text. -/
theorem run_eq_of_unfixable (h : ∀ p ∈ linter.detect s, p.fixable = false) (mode : Mode) :
    linter.run source mode =
      .ok ⟨linter.detect s, source, (linter.detect s).all Problem.fixed⟩ := by
  cases mode with
  | report => exact linter.run_report_eq hlex
  | fix =>
    rw [linter.run_fix_eq hlex, mend, fixPass_eq_of_unfixable 0 s h, (lex_eq_ok_iff.mp hlex).2.1]

/-- A pass keeps the text exactly when it has nothing to repair. -/
theorem render_mend_eq_iff :
    (linter.mend s).render = source ↔ ∀ p ∈ linter.detect s, p.fixable = false := by
  constructor
  · intro hsame
    obtain ⟨again, hagain, hfaces⟩ := linter.exists_lex_mend hlex
    rw [hsame, hlex] at hagain
    obtain rfl := Except.ok.inj hagain
    exact linter.fixable_eq_false_of_again hlex hfaces (lex_eq_ok_iff.mp hlex).1
  · intro h
    rw [mend, fixPass_eq_of_unfixable 0 s h]
    exact (lex_eq_ok_iff.mp hlex).2.1

/-- The problems of a run in fix mode are settled, and none of its repairs is refused. -/
theorem settled_fixPass :
    List.Forall₂ Problem.Settled (linter.detect s) (fixPass 0 s (linter.detect s)).2 ∧
      ∀ repair ∈ passRepairs 0 s (linter.detect s), repair.outcome.isFixed = true := by
  obtain ⟨hlexes, _, hid⟩ := lex_eq_ok_iff.mp hlex
  exact (linter.exists_progress (Layout.tokens_ofTokens s.tokens).symm hlexes hid).2

end Run

/-! ## Runs over a lexed manifest -/

/-- The text of a run in fix mode is lexed to the stream that the run ends with, and no token of
content is lost, added, moved or read differently. -/
theorem run_fix_preserves_content (linter : Linter) {source : String} {s : TokenStream}
    (hlex : lex source = .ok s) :
    ∃ report again, linter.run source .fix = .ok report ∧
      report.output = (linter.runStream .fix s).1.render ∧
      lex report.output = .ok again ∧
      again.tokens.map (fun t => (t.kind, t.text, t.position)) =
        (linter.runStream .fix s).1.tokens.map (fun t => (t.kind, t.text, t.position)) ∧
      (contentOf again.tokens).map Token.face = (contentOf s.tokens).map Token.face := by
  obtain ⟨again, hagain, hfaces⟩ := linter.exists_lex_mend hlex
  have hstream : (linter.runStream .fix s).1 = (linter.mend s).reposition := rfl
  refine ⟨_, again, linter.run_fix_eq hlex, ?_, hagain, ?_,
    linter.map_face_contentOf_again hlex hfaces⟩
  · rw [hstream, TokenStream.render_reposition]
  · -- both token sequences carry the positions that follow from their texts
    rw [hstream, ← (lex_eq_ok_iff.mp hagain).1.repositionFrom_eq]
    exact map_place_repositionFrom hfaces .start

/-- A quote that is not closed keeps its kind when blanks are put before it. -/
theorem run_fix_preserves_content_stray_quote :
    ∃ s, lex "\x7b&\x7d'" = .ok s ∧ ∃ report again,
      standard.run "\x7b&\x7d'" .fix = .ok report ∧
      report.output = (standard.runStream .fix s).1.render ∧
      lex report.output = .ok again ∧
      again.tokens.map (fun t => (t.kind, t.text, t.position)) =
        (standard.runStream .fix s).1.tokens.map (fun t => (t.kind, t.text, t.position)) ∧
      (contentOf again.tokens).map Token.face = (contentOf s.tokens).map Token.face := by
  have hlex : lex "\x7b&\x7d'" = .ok ⟨[⟨0, .openBrace, "\x7b", ⟨1, 1⟩⟩, ⟨1, .other, "&", ⟨1, 2⟩⟩,
      ⟨2, .closeBrace, "\x7d", ⟨1, 3⟩⟩, ⟨3, .other, "'", ⟨1, 4⟩⟩], 4⟩ := by cbv
  exact ⟨_, hlex, run_fix_preserves_content standard hlex⟩

/-- Fixing is idempotent: a run over fixed text, in either mode, keeps the text and finds exactly
what could not be repaired, in the same order. -/
theorem run_fix_idempotent (linter : Linter) {source : String} {s : TokenStream}
    (hlex : lex source = .ok s) :
    ∃ first, linter.run source .fix = .ok first ∧ ∀ mode, ∃ second,
      linter.run first.output mode = .ok second ∧ second.output = first.output ∧
      (∀ p ∈ second.problems, p.fixable = false) ∧
      List.Forall₂ (fun p q => p.check = q.check ∧ p.severity = q.severity ∧
          p.message = q.message ∧ p.rule = q.rule)
        second.problems (first.problems.filter fun p => !p.fixable) := by
  obtain ⟨again, hagain, hfaces⟩ := linter.exists_lex_mend hlex
  have hlexes := (lex_eq_ok_iff.mp hagain).1
  have hunfixable := linter.fixable_eq_false_of_again hlex hfaces hlexes
  refine ⟨_, linter.run_fix_eq hlex, fun mode =>
    ⟨_, linter.run_eq_of_unfixable hagain hunfixable mode, rfl, hunfixable, ?_⟩⟩
  have hfindings : (linter.detect again).map Problem.finding =
      ((fixPass 0 s (linter.detect s)).2.filter fun p => !p.fixable).map Problem.finding := by
    rw [linter.map_finding_again hlex hfaces hlexes,
      map_finding_of_settled (linter.settled_fixPass hlex).1]
  rw [← List.forall₂_eq_eq_eq, List.forall₂_map_left_iff, List.forall₂_map_right_iff] at hfindings
  refine hfindings.imp fun p q hpq => ?_
  simpa only [Problem.finding, Prod.mk.injEq] using hpq

/-- What cannot be repaired, because a comment stands in the gap, is found again. -/
theorem run_fix_idempotent_open_quote :
    ∃ first, standard.run "inherits/**/a\x7b'\n\x7d" .fix = .ok first ∧ ∀ mode, ∃ second,
      standard.run first.output mode = .ok second ∧ second.output = first.output ∧
      (∀ p ∈ second.problems, p.fixable = false) ∧
      List.Forall₂ (fun p q => p.check = q.check ∧ p.severity = q.severity ∧
          p.message = q.message ∧ p.rule = q.rule)
        second.problems (first.problems.filter fun p => !p.fixable) := by
  have hlex : lex "inherits/**/a\x7b'\n\x7d" = .ok ⟨[⟨0, .inheritsWord, "inherits", ⟨1, 1⟩⟩,
      ⟨1, .comment, "/**/", ⟨1, 9⟩⟩, ⟨2, .name, "a", ⟨1, 13⟩⟩, ⟨3, .openBrace, "\x7b", ⟨1, 14⟩⟩,
      ⟨4, .other, "'\n\x7d", ⟨1, 15⟩⟩], 5⟩ := by cbv
  exact run_fix_idempotent standard hlex

/-- In the report of a run in fix mode exactly the problems that can be repaired are marked as
fixed, since no repair is refused, and the text changes exactly if there are any. -/
theorem run_fix_report_exact (linter : Linter) {source : String} {s : TokenStream}
    (hlex : lex source = .ok s) :
    ∃ report, linter.run source .fix = .ok report ∧
      (∀ p ∈ report.problems, p.fixed = p.fixable) ∧
      report.problems.filter Problem.fixable =
        (passRepairs 0 s (linter.detect s)).map Repair.problem ∧
      (∀ repair ∈ passRepairs 0 s (linter.detect s), ∀ reason, repair.outcome ≠ .refused reason) ∧
      (report.allFixed = true ↔ ∀ p ∈ report.problems, p.fixable = true) ∧
      report.remainingErrors = report.problems.filter (fun p => p.isError && !p.fixable) ∧
      (report.output ≠ source ↔ ∃ p ∈ report.problems, p.fixable = true) := by
  obtain ⟨hsettled, hfixed⟩ := linter.settled_fixPass hlex
  have hflags := fixed_eq_fixable_of_settled hsettled
  refine ⟨_, linter.run_fix_eq hlex, hflags, filter_fixable_fixPass 0 s _, ?_, ?_, ?_, ?_⟩
  · intro repair hrepair reason hrefused
    have hisFixed := hfixed repair hrepair
    rw [hrefused] at hisFixed
    cases hisFixed
  · rw [List.all_eq_true]
    exact forall₂_congr fun p hp => by rw [hflags p hp]
  · apply List.filter_congr
    intro p hp
    rw [hflags p hp]
  · have hany : (∃ p ∈ (fixPass 0 s (linter.detect s)).2, p.fixable = true) ↔
        ∃ p ∈ linter.detect s, p.fixable = true := by
      have hmem (ps : List Problem) :
          (∃ p ∈ ps, p.fixable = true) ↔ true ∈ ps.map Problem.fixable := List.mem_map.symm
      rw [hmem, hmem, map_fixable_of_settled hsettled]
    rw [hany, ne_eq, linter.render_mend_eq_iff hlex]
    simp

/-- A problem with a comment in its gap is reported as one that is left. -/
theorem run_fix_report_exact_comment :
    ∃ s, lex "inherits/**/a\x7b" = .ok s ∧ ∃ report,
      standard.run "inherits/**/a\x7b" .fix = .ok report ∧
      (∀ p ∈ report.problems, p.fixed = p.fixable) ∧
      report.problems.filter Problem.fixable =
        (passRepairs 0 s (standard.detect s)).map Repair.problem ∧
      (∀ repair ∈ passRepairs 0 s (standard.detect s),
        ∀ reason, repair.outcome ≠ .refused reason) ∧
      (report.allFixed = true ↔ ∀ p ∈ report.problems, p.fixable = true) ∧
      report.remainingErrors = report.problems.filter (fun p => p.isError && !p.fixable) ∧
      (report.output ≠ "inherits/**/a\x7b" ↔ ∃ p ∈ report.problems, p.fixable = true) := by
  have hlex : lex "inherits/**/a\x7b" = .ok ⟨[⟨0, .inheritsWord, "inherits", ⟨1, 1⟩⟩,
      ⟨1, .comment, "/**/", ⟨1, 9⟩⟩, ⟨2, .name, "a", ⟨1, 13⟩⟩,
      ⟨3, .openBrace, "\x7b", ⟨1, 14⟩⟩], 4⟩ := by cbv
  exact ⟨_, hlex, run_fix_report_exact standard hlex⟩

/-- A run in fix mode that is taken back is a run in report mode, but for the hints; and before it
is taken back, its problems differ from those in nothing but hints and marks. A manifest that
cannot be lexed fails in both modes with the same error. -/
theorem run_fix_discardFixes (linter : Linter) (source : String) :
    match lex source with
    | .error e => ∀ mode, linter.run source mode = .error e
    | .ok _ => ∃ fixed reported, linter.run source .fix = .ok fixed ∧
        linter.run source .report = .ok reported ∧
        (fixed.discardFixes source).output = reported.output ∧
        (fixed.discardFixes source).allFixed = reported.allFixed ∧
        (fixed.discardFixes source).isClean = reported.isClean ∧
        (fixed.discardFixes source).remainingErrors.map (·.hinted 0) =
          reported.remainingErrors.map (·.hinted 0) ∧
        (fixed.discardFixes source).problems.map (·.hinted 0) =
          reported.problems.map (·.hinted 0) ∧
        fixed.problems.map (fun p => p.unmarked.hinted 0) =
          reported.problems.map fun p => p.unmarked.hinted 0 := by
  cases hlex : lex source with
  | error e =>
    intro mode
    simp only [run, hlex]
  | ok s =>
    have hsettled := (linter.settled_fixPass hlex).1
    have hunmarked : ∀ p ∈ linter.detect s, p.unmarked = p := by
      intro p hp
      rw [Problem.unmarked, ← fixed_eq_false_of_mem_detect hp]
    have hdifference := map_unmarked_of_settled hsettled 0
    have hproblems : ((fixPass 0 s (linter.detect s)).2.map Problem.unmarked).map (·.hinted 0) =
        (linter.detect s).map (·.hinted 0) := by
      rw [List.map_map]
      exact hdifference.trans (List.map_congr_left fun p hp => by rw [hunmarked p hp])
    have hempty := congrArg List.isEmpty hdifference
    rw [List.isEmpty_map, List.isEmpty_map] at hempty
    refine ⟨_, _, linter.run_fix_eq hlex, linter.run_report_eq hlex, rfl, ?_, ?_, ?_, hproblems,
      hdifference⟩
    · -- in report mode no problem is marked, so all are only if there is none
      refine hempty.trans ?_
      cases hdetect : linter.detect s with
      | nil => rfl
      | cons p ps =>
        have hfixed : p.fixed = false :=
          fixed_eq_false_of_mem_detect (hdetect ▸ List.mem_cons_self : p ∈ linter.detect s)
        rw [List.isEmpty_cons, List.all_cons, hfixed, Bool.false_and]
    · exact List.isEmpty_map.trans hempty
    · rw [Report.map_hinted_remainingErrors, Report.map_hinted_remainingErrors]
      exact congrArg (List.filter _) hproblems

end Linter

end ManifestSpacing
