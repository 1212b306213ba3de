import ManifestSpacing.Check.Basic

/-!
# Suggestions for misspelt check names

The Jaro measure counts characters that two texts share within a window and
how many of them are out of order; Winkler's refinement rewards a common
beginning. Both are computed in double precision, in a fixed order of
operations, because the score is compared with a threshold.
-/

namespace ManifestSpacing

namespace Similarity

/-- Takes the first free character equal to `c` whose index lies in a window. -/
def take? (c : Char) (low high : Nat) :
    Nat → List (Char × Bool) → Option (List (Char × Bool))
  | _, [] => none
  | j, (d, taken) :: rest =>
    if low ≤ j ∧ j < high ∧ d = c ∧ taken = false then some ((d, true) :: rest)
    else (take? c low high (j + 1) rest).map fun rest => (d, taken) :: rest

/-- Lets each character in turn take one of the other text. Returns the characters that found
one, and the other text with the taken characters marked. -/
def takeAll (window : Nat) :
    Nat → List Char → List (Char × Bool) → List Char × List (Char × Bool)
  | _, [], other => ([], other)
  | i, c :: cs, other =>
    match take? c (i - window) (i + window + 1) 0 other with
    | some other =>
      let (found, other) := takeAll window (i + 1) cs other
      (c :: found, other)
    | none => takeAll window (i + 1) cs other

/-- The Jaro measure, from zero to one. -/
def jaro (a b : List Char) : Float :=
  if a.isEmpty && b.isEmpty then 1.0
  else if a.isEmpty || b.isEmpty then 0.0
  else
    let window := max a.length b.length / 2 - 1
    let (mine, marked) := takeAll window 0 a (b.map fun c => (c, false))
    let theirs := (marked.filter Prod.snd).map Prod.fst
    let found := mine.length
    let swapped := ((mine.zip theirs).countP fun (c, d) => c != d) / 2
    if found = 0 then 0.0
    else
      (Float.ofNat found / Float.ofNat a.length + Float.ofNat found / Float.ofNat b.length +
        Float.ofNat (found - swapped) / Float.ofNat found) / 3.0

/-- How many characters two texts have in common at the front. -/
def commonStart : List Char → List Char → Nat
  | a :: as, b :: bs => if a = b then commonStart as bs + 1 else 0
  | _, _ => 0

/-- The Jaro measure with a reward for up to four common first characters. -/
def jaroWinkler (a b : List Char) : Float :=
  let score := jaro a b
  if score > 0.7 then
    score + 0.1 * Float.ofNat (commonStart (a.take 4) b) * (1.0 - score)
  else score

end Similarity

namespace Check

/-- Scores up to this one are too low for a suggestion. -/
def suggestionThreshold : Float := 0.8

/-- The check whose name is most like a text, if one is like it at all. Of equally similar checks
the last is suggested. -/
def suggest? (text : String) : Option Check :=
  let scored := all.map fun check =>
    (check, Similarity.jaroWinkler text.toList check.name.toList)
  ((scored.filter fun (_, score) => score > suggestionThreshold).foldl
    (fun best (check, score) =>
      match best with
      | none => some (check, score)
      | some (_, top) => if score < top then best else some (check, score))
    none).map Prod.fst

end Check

end ManifestSpacing
