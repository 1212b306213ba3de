import ManifestSpacing.Proofs.Gap.Layout
import ManifestSpacing.Proofs.Lint.OneRepair

/-!
# What a pass of repairs leaves behind

One repair finds its gap by the identities of the tokens around it and
replaces the blanks between them, or finds its rule satisfied already. Through
a whole pass each row of the manifest keeps its token; a row that a handled
problem names has the pieces of that problem's repair of the original gap, and
every other row has its own gap. Nothing is refused on the way.
-/

namespace ManifestSpacing

/-! ## Repairs of rows -/

namespace Row

/-- The row with fresh tokens behind its token, located where its gap started. -/
def refill (row : Row) (next : Token) (id : TokenId) (pieces : List GapPiece) : Row :=
  row.respace (TokenStream.freshTokens (row.gap.headD next).position id pieces)
    (isBlank_freshTokens _ id pieces)

@[simp] theorem head_refill (row : Row) (next : Token) (id : TokenId) (pieces : List GapPiece) :
    (row.refill next id pieces).head = row.head := rfl

@[simp] theorem pieces_refill (row : Row) (next : Token) (id : TokenId)
    (pieces : List GapPiece) : (row.refill next id pieces).gap.pieces = pieces :=
  pieces_freshTokens _ id pieces

/-- The tokens of rows split at two neighbours. -/
theorem join_eq_of_getElem? {rows : List Row} {k : Nat} {row next : Row}
    (hrow : rows[k]? = some row) (hnext : rows[k + 1]? = some next) :
    join rows = join (rows.take k) ++
      row.head :: (row.gap ++ next.head :: (next.gap ++ join (rows.drop (k + 2)))) := by
  obtain ⟨hk, rfl⟩ := List.getElem?_eq_some_iff.mp hrow
  obtain ⟨hk', rfl⟩ := List.getElem?_eq_some_iff.mp hnext
  conv_lhs => rw [← List.take_append_drop k rows, List.drop_eq_getElem_cons hk,
    List.drop_eq_getElem_cons hk']
  rw [join_append, join_cons, join_cons]

/-- Other blanks behind one token leave the rows around it alone. -/
theorem join_set {rows : List Row} {k : Nat} {row next : Row} (hrow : rows[k]? = some row)
    (hnext : rows[k + 1]? = some next) (row' : Row) :
    join (rows.set k row') = join (rows.take k) ++
      row'.head :: (row'.gap ++ next.head :: (next.gap ++ join (rows.drop (k + 2)))) := by
  have hset : (rows.set k row')[k]? = some row' :=
    List.getElem?_set_self (List.getElem?_eq_some_iff.mp hrow).1
  have hsetNext : (rows.set k row')[k + 1]? = some next := by
    rw [List.getElem?_set_ne (by omega), hnext]
  rw [join_eq_of_getElem? hset hsetNext, List.take_set_of_le (Nat.le_refl k),
    List.drop_set_of_lt (by omega)]

end Row

/-- A repair of the gap between two neighbouring rows refills the first. -/
theorem TokenStream.fix_eq_of_row {s : TokenStream} {p : Problem} {lead : Gap} {rows : List Row}
    {k : Nat} {row next : Row} (htokens : s.tokens = lead ++ Row.join rows)
    (hnodup : (s.tokens.map Token.id).Nodup) (hfresh : ∀ t ∈ s.tokens, t.id < s.nextId)
    (hrow : rows[k]? = some row) (hnext : rows[k + 1]? = some next)
    (hleft : p.anchors.left = row.head.id) (hright : p.anchors.right = next.head.id)
    (hrejects : p.rule.accepts row.gap = false)
    (hline : row.head.isLineComment = true →
      (p.rule.repair row.gap).any GapPiece.isNewline = true) :
    s.fix p = ⟨.fixed row.gap.length (p.rule.repair row.gap).length,
        ⟨lead ++ Row.join (rows.set k (row.refill next.head s.nextId (p.rule.repair row.gap))),
          s.nextId + (p.rule.repair row.gap).length⟩, { p with fixed := true }⟩ ∧
      ((s.fix p).stream.tokens.map Token.id).Nodup ∧
      ∀ t ∈ (s.fix p).stream.tokens, t.id < (s.fix p).stream.nextId := by
  have hsplit := htokens
  rw [Row.join_eq_of_getElem? hrow hnext, ← List.append_assoc] at hsplit
  have hreplaces :=
    replaces_of_rejects hsplit hnodup hleft.symm hright.symm hrejects row.blank hline
  have hnumbered := hreplaces.numbered ⟨hnodup, hfresh⟩
  refine ⟨?_, hnumbered.nodup, hnumbered.below⟩
  rw [hreplaces.fix_eq, Row.join_set hrow hnext, List.append_assoc]
  rfl

/-! ## The invariant of a pass -/

/-- Whether the repair of a problem goes into the gap of a row. -/
def Problem.Mends (p : Problem) (row : Row) : Prop :=
  p.fixable = true ∧ p.anchors.left = row.head.id

/-- A row after some problems have been handled. -/
structure Mended (done : List Problem) (row row' : Row) : Prop where
  /-- The token stays. -/
  head : row'.head = row.head
  /-- Every handled problem of the row has its repair of the original gap there. -/
  repaired : ∀ p ∈ done, p.Mends row → row'.gap.pieces = p.rule.repair row.gap
  /-- A row without a handled problem keeps its gap. -/
  untouched : (∀ p ∈ done, ¬ p.Mends row) → row'.gap = row.gap

/-- A stream in which some problems of a layout have been handled, row by row. -/
structure Progress (layout : Layout) (done : List Problem) (rows : List Row)
    (s : TokenStream) : Prop where
  tokens_eq : s.tokens = layout.lead ++ Row.join rows
  length_eq : rows.length = layout.rows.length
  mended : ∀ {k : Nat} {row row' : Row}, layout.rows[k]? = some row → rows[k]? = some row' →
    Mended done row row'
  /-- Identities are distinct. -/
  nodup : (s.tokens.map Token.id).Nodup
  /-- New identities are new. -/
  fresh : ∀ t ∈ s.tokens, t.id < s.nextId

/-- A problem of the gap between two neighbouring rows that can be repaired there. -/
structure Problem.Repairable (p : Problem) (layout : Layout) (k : Nat) (row next : Row) :
    Prop where
  row_eq : layout.rows[k]? = some row
  next_eq : layout.rows[k + 1]? = some next
  left : p.anchors.left = row.head.id
  right : p.anchors.right = next.head.id
  rejects : p.rule.accepts row.gap = false
  governs : p.rule.Governs row.head.kind next.head.kind row.gap
  /-- No line comment loses its line end. -/
  line : row.head.isLineComment = true →
    (p.rule.repair row.gap).any GapPiece.isNewline = true

/-- Problems that do not get in each other's way. -/
structure Harmonious (layout : Layout) (problems : List Problem) : Prop where
  nodup : (layout.rows.map fun row => row.head.id).Nodup
  repairable : ∀ p ∈ problems, p.fixable = true → ∃ k row next, p.Repairable layout k row next
  /-- Problems of one gap put the same pieces into it. -/
  agree : ∀ p ∈ problems, ∀ q ∈ problems, ∀ row ∈ layout.rows, p.Mends row → q.Mends row →
    p.rule.repair row.gap = q.rule.repair row.gap

/-- The problem with another hint. -/
def Problem.hinted (p : Problem) (hint : Nat) : Problem :=
  { p with anchors := { p.anchors with hint := hint } }

/-- What a successful repair of a problem, perhaps under another hint, leads to. -/
structure Succeeds (layout : Layout) (done : List Problem) (p : Problem) (hint : Nat)
    (repair : Repair) : Prop where
  progress : ∃ rows, Progress layout (done ++ [p]) rows repair.stream
  isFixed : repair.outcome.isFixed = true
  problem : repair.problem = { p.hinted hint with fixed := true }

theorem Harmonious.mono {layout : Layout} {problems some : List Problem}
    (h : Harmonious layout problems) (hsub : ∀ p ∈ some, p ∈ problems) : Harmonious layout some :=
  ⟨h.nodup, fun p hp => h.repairable p (hsub p hp),
    fun p hp q hq => h.agree p (hsub p hp) q (hsub q hq)⟩

/-- A handled problem of another row changes nothing. -/
theorem Mended.append {done : List Problem} {row row' : Row} (h : Mended done row row')
    {p : Problem} (hp : ¬ p.Mends row) : Mended (done ++ [p]) row row' where
  head := h.head
  repaired := fun q hq hmends => by
    rcases List.mem_append.mp hq with hq | hq
    · exact h.repaired q hq hmends
    · obtain rfl := List.mem_singleton.mp hq
      exact absurd hmends hp
  untouched := fun hnone => h.untouched fun q hq => hnone q (List.mem_append_left _ hq)

namespace Progress

variable {layout : Layout} {done : List Problem} {rows : List Row} {s : TokenStream}

/-- A layout is where its pass starts. -/
theorem start {nextId : TokenId} (hnodup : (layout.tokens.map Token.id).Nodup)
    (hfresh : ∀ t ∈ layout.tokens, t.id < nextId) :
    Progress layout [] layout.rows ⟨layout.tokens, nextId⟩ where
  tokens_eq := rfl
  length_eq := rfl
  mended := fun hrow hrow' => by
    obtain rfl := Option.some.inj (hrow.symm.trans hrow')
    exact ⟨rfl, fun p hp => absurd hp List.not_mem_nil, fun _ => rfl⟩
  nodup := hnodup
  fresh := hfresh

theorem exists_row (h : Progress layout done rows s) {k : Nat} {row : Row}
    (hrow : layout.rows[k]? = some row) : ∃ row', rows[k]? = some row' ∧ Mended done row row' := by
  have hlt : k < rows.length := by
    rw [h.length_eq]
    exact (List.getElem?_eq_some_iff.mp hrow).1
  exact ⟨rows[k], List.getElem?_eq_getElem hlt, h.mended hrow (List.getElem?_eq_getElem hlt)⟩

/-- A problem that cannot be repaired is handled by leaving it alone. -/
theorem skip (h : Progress layout done rows s) {p : Problem} (hp : p.fixable = false) :
    Progress layout (done ++ [p]) rows s where
  tokens_eq := h.tokens_eq
  length_eq := h.length_eq
  mended := fun hrow hrow' => (h.mended hrow hrow').append fun hmends =>
    Bool.false_ne_true (hp.symm.trans hmends.1)
  nodup := h.nodup
  fresh := h.fresh

/-- Other rows are not touched by the problem of one. -/
private theorem mended_of_ne (h : Progress layout done rows s)
    (hids : (layout.rows.map fun row => row.head.id).Nodup) {p : Problem} {k j : Nat}
    {row other other' : Row} (hrow : layout.rows[k]? = some row)
    (hleft : p.anchors.left = row.head.id) (hother : layout.rows[j]? = some other)
    (hother' : rows[j]? = some other') (hne : j ≠ k) : Mended (done ++ [p]) other other' := by
  refine (h.mended hother hother').append fun hmends => hne ?_
  exact eq_of_nodup_map hids hother hrow (hmends.2.symm.trans hleft)

/-- A problem whose gap has been repaired already is handled by finding it so. -/
private theorem fix_of_done (h : Progress layout done rows s) {p : Problem}
    (hharm : Harmonious layout (done ++ [p])) (hp : p.fixable = true) {k : Nat} {row next : Row}
    (hrep : p.Repairable layout k row next) {q : Problem} (hq : q ∈ done) (hmends : q.Mends row)
    (hint : Nat) : Succeeds layout done p hint (s.fix (p.hinted hint)) := by
  obtain ⟨row', hrow', hmended⟩ := h.exists_row hrep.row_eq
  obtain ⟨next', hnext', hmendedNext⟩ := h.exists_row hrep.next_eq
  have hpieces : row'.gap.pieces = p.rule.repair row.gap := by
    rw [hmended.repaired q hq hmends]
    exact hharm.agree q (List.mem_append_left _ hq) p (by simp) row
      (List.mem_of_getElem? hrep.row_eq) hmends ⟨hp, hrep.left⟩
  have htokens := h.tokens_eq
  rw [Row.join_eq_of_getElem? hrow' hnext', ← List.append_assoc] at htokens
  have hfix := TokenStream.fix_of_accepts (p := p.hinted hint) htokens h.nodup
    (by rw [hmended.head]; exact hrep.left.symm) (by rw [hmendedNext.head]; exact hrep.right.symm)
    (GapRule.accepts_of_pieces_eq_repair row'.blank hpieces)
  rw [hfix]
  refine ⟨⟨rows, h.tokens_eq, h.length_eq, ?_, h.nodup, h.fresh⟩, rfl, rfl⟩
  intro j other other' hother hother'
  by_cases hjk : j = k
  · obtain rfl := hjk
    obtain rfl := Option.some.inj (hother.symm.trans hrep.row_eq)
    obtain rfl := Option.some.inj (hother'.symm.trans hrow')
    refine ⟨hmended.head, fun p' hp' hmends' => ?_,
      fun hnone => absurd hmends (hnone q (by simp [hq]))⟩
    rcases List.mem_append.mp hp' with hp' | hp'
    · exact hmended.repaired p' hp' hmends'
    · obtain rfl := List.mem_singleton.mp hp'
      exact hpieces
  · exact h.mended_of_ne hharm.nodup hrep.row_eq hrep.left hother hother' hjk

/-- A problem whose gap nobody has touched is handled by replacing the gap. -/
private theorem fix_of_untouched (h : Progress layout done rows s) {p : Problem}
    (hharm : Harmonious layout (done ++ [p])) (hp : p.fixable = true) {k : Nat} {row next : Row}
    (hrep : p.Repairable layout k row next) (hnone : ∀ q ∈ done, ¬ q.Mends row) (hint : Nat) :
    Succeeds layout done p hint (s.fix (p.hinted hint)) := by
  obtain ⟨row', hrow', hmended⟩ := h.exists_row hrep.row_eq
  obtain ⟨next', hnext', hmendedNext⟩ := h.exists_row hrep.next_eq
  have hgap : row'.gap = row.gap := hmended.untouched hnone
  obtain ⟨hfix, hnodup, hfresh⟩ := TokenStream.fix_eq_of_row (p := p.hinted hint) h.tokens_eq
    h.nodup h.fresh hrow' hnext' (by rw [hmended.head]; exact hrep.left)
    (by rw [hmendedNext.head]; exact hrep.right) (by rw [hgap]; exact hrep.rejects)
    (by rw [hmended.head, hgap]; exact hrep.line)
  rw [hfix] at hnodup hfresh ⊢
  refine ⟨⟨_, rfl, ?_, ?_, hnodup, hfresh⟩, rfl, rfl⟩
  · rw [List.length_set, h.length_eq]
  · intro j other other' hother hother'
    by_cases hjk : j = k
    · obtain rfl := hjk
      obtain rfl := Option.some.inj (hother.symm.trans hrep.row_eq)
      rw [List.getElem?_set_self (List.getElem?_eq_some_iff.mp hrow').1] at hother'
      obtain rfl := Option.some.inj hother'
      refine ⟨hmended.head, fun q hq hmends => ?_, fun hnot => ?_⟩
      · rcases List.mem_append.mp hq with hq | hq
        · exact absurd hmends (hnone q hq)
        · obtain rfl := List.mem_singleton.mp hq
          rw [Row.pieces_refill, hgap]
          rfl
      · exact absurd ⟨hp, hrep.left⟩ (hnot p (by simp))
    · rw [List.getElem?_set_ne (Ne.symm hjk)] at hother'
      exact h.mended_of_ne hharm.nodup hrep.row_eq hrep.left hother hother' hjk

/-- Every repair of a pass succeeds. -/
theorem fix (h : Progress layout done rows s) {p : Problem}
    (hharm : Harmonious layout (done ++ [p])) (hp : p.fixable = true) (hint : Nat) :
    Succeeds layout done p hint (s.fix (p.hinted hint)) := by
  obtain ⟨k, row, next, hrep⟩ := hharm.repairable p (by simp) hp
  by_cases hdone : ∃ q ∈ done, q.Mends row
  · obtain ⟨q, hq, hmends⟩ := hdone
    exact h.fix_of_done hharm hp hrep hq hmends hint
  · exact h.fix_of_untouched hharm hp hrep (fun q hq hmends => hdone ⟨q, hq, hmends⟩) hint

end Progress

/-! ## Whole passes -/

/-- A problem after its pass: marked as fixed exactly if it can be repaired, perhaps with another
hint. -/
def Problem.Settled (p q : Problem) : Prop :=
  ∃ hint, q = { p with fixed := p.fixable, anchors := { p.anchors with hint := hint } }

namespace Linter

/-- The repairs that a pass makes, in order. -/
def passRepairs (drift : Int) (s : TokenStream) : List Problem → List Repair
  | [] => []
  | p :: ps =>
    if p.fixable then
      let repair := s.fix { p with anchors := p.anchors.shift drift }
      repair :: passRepairs (drift + growth repair.outcome) repair.stream ps
    else passRepairs drift s ps

theorem fixPass_cons_of_fixable (drift : Int) (s : TokenStream) {p : Problem} (ps : List Problem)
    (hp : p.fixable = true) (repair : Repair)
    (hrepair : s.fix { p with anchors := p.anchors.shift drift } = repair) :
    fixPass drift s (p :: ps) =
      ((fixPass (drift + growth repair.outcome) repair.stream ps).1,
        repair.problem :: (fixPass (drift + growth repair.outcome) repair.stream ps).2) := by
  rw [fixPass, if_pos hp, hrepair]

theorem fixPass_cons_of_unfixable (drift : Int) (s : TokenStream) {p : Problem} (ps : List Problem)
    (hp : p.fixable = false) :
    fixPass drift s (p :: ps) = ((fixPass drift s ps).1, p :: (fixPass drift s ps).2) := by
  rw [fixPass, if_neg (by simp [hp])]

/-- A pass handles all of its problems, refuses none and marks each as it ends. -/
theorem progress_fixPass {layout : Layout} {done ps : List Problem} {rows : List Row}
    {s : TokenStream} (h : Progress layout done rows s) (hharm : Harmonious layout (done ++ ps))
    (hunfixed : ∀ p ∈ ps, p.fixed = false) (drift : Int) :
    (∃ rows', Progress layout (done ++ ps) rows' (fixPass drift s ps).1) ∧
      List.Forall₂ Problem.Settled ps (fixPass drift s ps).2 ∧
      ∀ repair ∈ passRepairs drift s ps, repair.outcome.isFixed = true := by
  induction ps generalizing done rows s drift with
  | nil =>
    rw [List.append_nil]
    exact ⟨⟨rows, h⟩, .nil, by simp [passRepairs]⟩
  | cons p ps ih =>
    rw [List.append_cons] at hharm
    have hnow : Harmonious layout (done ++ [p]) :=
      hharm.mono fun q hq => List.mem_append_left ps hq
    have htail : ∀ q ∈ ps, q.fixed = false := fun q hq => hunfixed q (List.mem_cons_of_mem _ hq)
    cases hp : p.fixable with
    | false =>
      obtain ⟨hprogress, hsettled, hrepairs⟩ := ih (h.skip hp) hharm htail drift
      rw [fixPass_cons_of_unfixable drift s ps hp]
      refine ⟨List.append_cons done p ps ▸ hprogress, .cons ⟨p.anchors.hint, ?_⟩ hsettled, ?_⟩
      · have hfixed := hunfixed p List.mem_cons_self
        cases p
        simp_all
      · simpa [passRepairs, hp] using hrepairs
    | true =>
      have hsucceeds : Succeeds layout done p (p.anchors.shift drift).hint
          (s.fix { p with anchors := p.anchors.shift drift }) := h.fix hnow hp _
      obtain ⟨rows', hrows'⟩ := hsucceeds.progress
      obtain ⟨hprogress, hsettled, hrepairs⟩ := ih hrows' hharm htail
        (drift + growth (s.fix { p with anchors := p.anchors.shift drift }).outcome)
      rw [fixPass_cons_of_fixable drift s ps hp _ rfl]
      refine ⟨List.append_cons done p ps ▸ hprogress,
        .cons ⟨(p.anchors.shift drift).hint, ?_⟩ hsettled, ?_⟩
      · rw [hsucceeds.problem]
        simp only [Problem.hinted, hp]
      · intro repair hrepair
        rw [passRepairs, if_pos hp] at hrepair
        rcases List.mem_cons.mp hrepair with rfl | hrepair
        · exact hsucceeds.isFixed
        · exact hrepairs repair hrepair

end Linter

end ManifestSpacing
