/-!
# Checks

The four layout checks, their names and their messages. A check set is kept in
the order of the checks and without repetition, whatever order it was asked
for in.
-/

namespace ManifestSpacing

/-- A layout check. -/
inductive Check where
  /-- One space between the inherits keyword and the parent's name. -/
  | inheritsNameBefore
  /-- One space between the parent's name and the opening brace. -/
  | inheritsNameAfter
  /-- Spacing before a closing brace. -/
  | closingBraceBefore
  /-- Spacing after a closing brace. -/
  | closingBraceAfter
  deriving DecidableEq, Repr

namespace Check

/-- Every check, in order. -/
def all : List Check :=
  [inheritsNameBefore, inheritsNameAfter, closingBraceBefore, closingBraceAfter]

/-- The place of a check in the order. -/
def rank : Check → Nat
  | inheritsNameBefore => 0
  | inheritsNameAfter => 1
  | closingBraceBefore => 2
  | closingBraceAfter => 3

/-- The name by which a check is configured and reported. -/
def name : Check → String
  | inheritsNameBefore => "manifest_whitespace_inherits_name_single_space_before"
  | inheritsNameAfter => "manifest_whitespace_inherits_name_single_space_after"
  | closingBraceBefore => "manifest_whitespace_closing_brace_before"
  | closingBraceAfter => "manifest_whitespace_closing_brace_after"

/-- What a problem of the check says. -/
def message : Check → String
  | inheritsNameBefore =>
    "there should be a single space between the inherits statement and the name"
  | inheritsNameAfter =>
    "there should be a single space between the class or resource name and the first bracket"
  | closingBraceBefore => "there should be a single space or newline before a closing brace"
  | closingBraceAfter =>
    "there should be either a bracket, punctuation mark, closing quote or a newline " ++
      "after a closing brace, or whitespace and none of the aforementioned"

/-- The check with a given name. -/
def ofName? (text : String) : Option Check := all.find? fun check => check.name == text

theorem mem_all (check : Check) : check ∈ all := by cases check <;> decide

/-- A name leads back to its check. -/
@[simp] theorem ofName?_name (check : Check) : ofName? check.name = some check := by
  cases check <;> decide

end Check

/-- The checks that run. -/
structure CheckSet where
  /-- The members in the order of the checks. -/
  checks : List Check
  /-- No member is listed twice or out of order. -/
  ordered : checks.Sublist Check.all
  deriving DecidableEq, Repr

namespace CheckSet

/-- All checks. -/
def all : CheckSet := ⟨Check.all, .refl _⟩

/-- Exactly the listed checks. -/
def only (checks : List Check) : CheckSet :=
  ⟨Check.all.filter fun check => checks.contains check, List.filter_sublist⟩

/-- All members but one. -/
def without (set : CheckSet) (check : Check) : CheckSet :=
  ⟨set.checks.filter fun member => member != check, List.filter_sublist.trans set.ordered⟩

/-- Whether a check is a member. -/
def contains (set : CheckSet) (check : Check) : Bool := set.checks.contains check

/-- Exactly the listed checks are members. -/
@[simp] theorem contains_only (checks : List Check) (check : Check) :
    (only checks).contains check = checks.contains check := by
  simp [only, contains, Check.mem_all]

/-- Removing a check removes it and nothing else. -/
@[simp] theorem contains_without (set : CheckSet) (removed check : Check) :
    (set.without removed).contains check = (set.contains check && check != removed) := by
  rw [Bool.eq_iff_iff]
  simp [without, contains]

end CheckSet

end ManifestSpacing
