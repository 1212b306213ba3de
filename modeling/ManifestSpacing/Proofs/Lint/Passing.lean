import ManifestSpacing.Proofs.Lint.Runs
import ManifestSpacing.Text.Bytes

/-!
# The bytes of a manifest before and after fixing

Bytes that are no text or cannot be lexed are left as they are. Bytes pass if
they are a manifest without errors, where in fix mode errors that can be
repaired do not count. Fixing a second time changes nothing, and fixed bytes
pass in either mode exactly if the original bytes pass in fix mode.
-/

namespace ManifestSpacing

theorem Report.remainingErrors_eq_nil_iff (r : Report) :
    r.remainingErrors = [] ↔ ∀ p ∈ r.problems, p.isError = true → p.fixed = true := by
  simp [Report.remainingErrors, List.filter_eq_nil_iff]

/-- Among settled problems the errors are fixed exactly if all errors can be repaired. -/
theorem forall_isError_fixed_of_settled {ps qs : List Problem}
    (h : List.Forall₂ Problem.Settled ps qs) :
    (∀ q ∈ qs, q.isError = true → q.fixed = true) ↔
      ∀ p ∈ ps, p.isError = true → p.fixable = true := by
  induction h with
  | nil => simp
  | cons hsettled _ ih =>
    obtain ⟨hint, rfl⟩ := hsettled
    rw [List.forall_mem_cons, List.forall_mem_cons, ih]
    rfl

/-- Whether there are errors shows in the findings. -/
theorem forall_isError_iff_map_finding (ps : List Problem) :
    (∀ p ∈ ps, p.isError = false) ↔
      ∀ finding ∈ ps.map Problem.finding, (finding.2.1 == .error) = false := by
  rw [List.forall_mem_map]
  rfl

namespace Linter

/-- The bytes of a manifest after fixing. -/
def mendBytes (linter : Linter) (bytes : Bytes) : Bytes :=
  match Bytes.text? bytes with
  | none => bytes
  | some text =>
    match linter.run text .fix with
    | .error _ => bytes
    | .ok report => Bytes.ofText report.output

/-- Whether bytes are a manifest without errors, those apart that the mode repairs. -/
def Passes (linter : Linter) (mode : Mode) (bytes : Bytes) : Prop :=
  ∃ text s, Bytes.text? bytes = some text ∧ lex text = .ok s ∧
    ∀ p ∈ linter.detect s, p.isError = true → mode = .fix ∧ p.fixable = true

variable (linter : Linter)

theorem mendBytes_of_run {text : String} {report : Report}
    (h : linter.run text .fix = .ok report) :
    linter.mendBytes (Bytes.ofText text) = Bytes.ofText report.output := by
  simp only [mendBytes, Bytes.text?_ofText, h]

/-- Bytes that cannot be lexed are left as they are and do not pass. All others are the bytes of a
manifest. -/
theorem lexed_or_left (bytes : Bytes) :
    (linter.mendBytes bytes = bytes ∧ ∀ mode, ¬ linter.Passes mode bytes) ∨
      ∃ text s, bytes = Bytes.ofText text ∧ lex text = .ok s := by
  cases htext : Bytes.text? bytes with
  | none =>
    left
    simp [mendBytes, Passes, htext]
  | some text =>
    cases hlex : lex text with
    | error e =>
      left
      simp [mendBytes, Passes, run, htext, hlex]
    | ok s => exact Or.inr ⟨text, s, Bytes.text?_eq_some_iff.mp htext, hlex⟩

section Lexed

variable {text : String} {s : TokenStream} (hlex : lex text = .ok s)

include hlex

theorem mendBytes_of_lex : linter.mendBytes (Bytes.ofText text) =
    Bytes.ofText (linter.mend s).render :=
  linter.mendBytes_of_run (linter.run_fix_eq hlex)

theorem passes_iff_of_lex (mode : Mode) : linter.Passes mode (Bytes.ofText text) ↔
    ∀ p ∈ linter.detect s, p.isError = true → mode = .fix ∧ p.fixable = true := by
  constructor
  · rintro ⟨text', s', htext, hs, hall⟩
    rw [Bytes.text?_ofText] at htext
    cases htext
    rw [hlex] at hs
    cases hs
    exact hall
  · intro hall
    exact ⟨text, s, Bytes.text?_ofText text, hlex, hall⟩

/-- The report of a run has no remaining error exactly if the manifest passes. -/
theorem remainingErrors_eq_nil_iff (mode : Mode) {report : Report}
    (hrun : linter.run text mode = .ok report) :
    report.remainingErrors = [] ↔ linter.Passes mode (Bytes.ofText text) := by
  rw [linter.passes_iff_of_lex hlex, Report.remainingErrors_eq_nil_iff]
  cases mode with
  | report =>
    rw [linter.run_report_eq hlex] at hrun
    cases hrun
    refine forall₂_congr fun p hp => ?_
    simp [fixed_eq_false_of_mem_detect hp]
  | fix =>
    rw [linter.run_fix_eq hlex] at hrun
    cases hrun
    simpa using forall_isError_fixed_of_settled (linter.settled_fixPass hlex).1

/-- What is left after fixing are the errors that cannot be repaired. -/
theorem passes_mendBytes_of_lex (mode : Mode) :
    linter.Passes mode (linter.mendBytes (Bytes.ofText text)) ↔
      linter.Passes .fix (Bytes.ofText text) := by
  obtain ⟨again, hagain, hfaces⟩ := linter.exists_lex_mend hlex
  have hlexes := (lex_eq_ok_iff.mp hagain).1
  have hunfixable := linter.fixable_eq_false_of_again hlex hfaces hlexes
  rw [linter.mendBytes_of_lex hlex, linter.passes_iff_of_lex hagain, linter.passes_iff_of_lex hlex]
  calc (∀ p ∈ linter.detect again, p.isError = true → mode = .fix ∧ p.fixable = true)
      ↔ ∀ p ∈ linter.detect again, p.isError = false :=
        forall₂_congr fun p hp => by simp [hunfixable p hp]
    _ ↔ ∀ p ∈ (linter.detect s).filter (fun p => !p.fixable), p.isError = false := by
        rw [forall_isError_iff_map_finding, linter.map_finding_again hlex hfaces hlexes,
          ← forall_isError_iff_map_finding]
    _ ↔ ∀ p ∈ linter.detect s, p.isError = true → Mode.fix = .fix ∧ p.fixable = true := by
        simp only [List.mem_filter, and_imp]
        refine forall₂_congr fun p hp => ?_
        cases p.isError <;> cases p.fixable <;> simp

end Lexed

/-- Fixing a second time changes nothing. -/
@[simp] theorem mendBytes_mendBytes (bytes : Bytes) :
    linter.mendBytes (linter.mendBytes bytes) = linter.mendBytes bytes := by
  obtain ⟨hleft, -⟩ | ⟨text, s, rfl, hlex⟩ := linter.lexed_or_left bytes
  · rw [hleft, hleft]
  · obtain ⟨again, hagain, hfaces⟩ := linter.exists_lex_mend hlex
    have hunfixable := linter.fixable_eq_false_of_again hlex hfaces (lex_eq_ok_iff.mp hagain).1
    rw [linter.mendBytes_of_lex hlex, linter.mendBytes_of_lex hagain,
      (linter.render_mend_eq_iff hagain).mpr hunfixable]

/-- Fixed bytes pass in either mode exactly if the original bytes pass in fix mode. -/
theorem passes_mendBytes (mode : Mode) (bytes : Bytes) :
    linter.Passes mode (linter.mendBytes bytes) ↔ linter.Passes .fix bytes := by
  obtain ⟨hleft, hfails⟩ | ⟨text, s, rfl, hlex⟩ := linter.lexed_or_left bytes
  · rw [hleft]
    exact iff_of_false (hfails mode) (hfails .fix)
  · exact linter.passes_mendBytes_of_lex hlex mode

end Linter

end ManifestSpacing
