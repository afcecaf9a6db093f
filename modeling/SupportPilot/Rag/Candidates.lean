import SupportPilot.Rag.Fragments

/-! # The candidates of `_fit_piece`

A run of the tokens of a piece gives a fragment with these tokens (`candidate_ok`).  The parts that
`_fit_piece` returns are such fragments: they hold the tokens of the piece in order, and each fits
the budget (`fitPiece_ok`, `fitPiece_total`). -/

namespace SupportPilot.Rag

open Lib Lib.Regex ChunkTokenizer

namespace StructureAwareChunker

theorem candidate_eq (piece : Fragment) (run : List TokenSpan) :
    candidate piece run =
      fragmentFromTokens piece.block (run.map (Span.shift piece.charStart)) := by
  cases run with
  | nil => rfl
  | cons x rest =>
    have nonempty : x :: rest ≠ [] := List.cons_ne_nil x rest
    have moved : (x :: rest).map (Span.shift piece.charStart) ≠ [] := by simp
    simp only [candidate, fragmentFromTokens_eq piece.block nonempty,
      fragmentFromTokens_eq piece.block moved, List.getLast_map, List.head_map, Span.shift_start,
      Span.shift_stop, List.length_map, Nat.add_comm piece.charStart]
    rfl

variable [WordChars] {budget : InputBudget} {document : CanonicalDocument} {piece : Fragment}

theorem run_ne_nil {start stop : Nat} (less : start < stop)
    (within : stop ≤ (spans piece.text).length) :
    slice start stop (spans piece.text) ≠ [] := by
  rw [← List.length_pos_iff, length_slice]
  omega

theorem exists_candidate (piece : Fragment) {start stop : Nat} (less : start < stop)
    (within : stop ≤ (spans piece.text).length) :
    ∃ part, candidate piece (slice start stop (spans piece.text)) = .ok part := by
  rw [candidate, fragmentFromTokens_eq piece.block (run_ne_nil less within)]
  exact ⟨_, rfl⟩

/-- A candidate holds the tokens of the piece that it was built from. -/
theorem candidate_tokens {start stop : Nat} {part : Fragment} (less : start < stop)
    (within : stop ≤ (spans piece.text).length)
    (built : candidate piece (slice start stop (spans piece.text)) = .ok part) :
    part.block = piece.block ∧ part.tokens = slice start stop piece.tokens ∧
      part.tokenCount = stop - start := by
  have consecutive := isInfix_slice start stop (spans piece.text)
  have length : (slice start stop (spans piece.text)).length = stop - start := by
    rw [length_slice, Nat.min_eq_left within]
  have some := run_ne_nil less within
  have same := finditer_run tokenPattern_local tokenPattern_nonEmpty consecutive some
  have ends := (names_token (consecutive.subset (List.getLast_mem some))).within
  rw [candidate, fragmentFromTokens_eq piece.block some] at built
  cases built
  refine ⟨rfl, ?_, length⟩
  have moved : slice start stop piece.tokens =
      (slice start stop (spans piece.text)).map (Span.shift piece.charStart) := by
    simp only [slice, Fragment.tokens, List.map_drop, List.map_take]
  rw [moved]
  generalize slice start stop (spans piece.text) = run at consecutive some same ends ⊢
  have inside : piece.charStart + (run.getLast some).stop ≤ piece.charEnd := by
    have positive := (names_token (consecutive.subset (List.getLast_mem some))).nonempty
    rw [Fragment.text, length_slice] at ends
    omega
  rw [Fragment.tokens, Fragment.text]
  dsimp only
  rw [← slice_slice inside, Nat.add_comm, ← Span.shift_shift, ← List.map_map]
  exact congrArg (List.map (Span.shift piece.charStart)) same

/-- A candidate of a piece that cuts no token is a fragment of its block. -/
theorem candidate_ok (uncut : piece.Uncut) {start stop : Nat} (less : start < stop)
    (within : stop ≤ (spans piece.text).length) :
    ∃ part, candidate piece (slice start stop (spans piece.text)) = .ok part ∧
      part.block = piece.block ∧ part.Exact ∧ part.tokens = slice start stop piece.tokens := by
  have moved : (slice start stop (spans piece.text)).map (Span.shift piece.charStart) =
      slice start stop piece.tokens := by
    simp only [slice, Fragment.tokens, List.map_drop, List.map_take]
  rw [candidate_eq, moved]
  refine fragmentFromTokens_run
    ((isInfix_slice _ _ _).trans (Fragment.tokens_consecutive uncut)) ?_
  rw [← List.length_pos_iff, length_slice, Fragment.tokens, List.length_map]
  omega

/-- The tokens from `start` up to `stop` of the piece fit the budget. -/
def RunFits (budget : InputBudget) (document : CanonicalDocument) (piece : Fragment)
    (start stop : Nat) : Prop :=
  ∃ part, candidate piece (slice start stop (spans piece.text)) = .ok part ∧
    budget.fits (budgetText document [part]) = true

theorem RunFits.of_built {start stop : Nat} {part : Fragment}
    (runFits : RunFits budget document piece start stop)
    (built : candidate piece (slice start stop (spans piece.text)) = .ok part) :
    budget.fits (budgetText document [part]) = true := by
  obtain ⟨part', built', fits⟩ := runFits
  cases built.symm.trans built'
  exact fits

/-- The search returns a run that fits, or the value it started from, and then
the shortest run it was asked about does not fit. -/
theorem bisect_ok (budget : InputBudget) (document : CanonicalDocument) (piece : Fragment)
    (start : Nat) : ∀ fuel low high best, high + 1 - low ≤ fuel → start < low →
      high ≤ (spans piece.text).length →
      ∃ found, bisect budget document piece (spans piece.text) start fuel low high best =
          .ok found ∧
        (found = best ∧ (low ≤ high → ¬ RunFits budget document piece start low) ∨
          start < found ∧ found ≤ (spans piece.text).length ∧
            RunFits budget document piece start found) := by
  intro fuel
  induction fuel with
  | zero =>
    intro low high best enough _ _
    exact ⟨best, rfl, .inl ⟨rfl, fun le => by omega⟩⟩
  | succ fuel ih =>
    intro low high best enough above within
    rw [bisect]
    by_cases le : low ≤ high
    · obtain ⟨part, built⟩ := exists_candidate piece
        (show start < (low + high) / 2 by omega) (by omega)
      simp only [if_pos le, built, bind, Except.bind]
      cases fits : budget.fits (budgetText document [part]) with
      | true =>
        have runFits : RunFits budget document piece start ((low + high) / 2) := ⟨part, built, fits⟩
        obtain ⟨found, searched, result⟩ := ih ((low + high) / 2 + 1) high ((low + high) / 2)
          (by omega) (by omega) within
        refine ⟨found, searched, .inr ?_⟩
        rcases result with ⟨rfl, -⟩ | longer
        · exact ⟨by omega, by omega, runFits⟩
        · exact longer
      | false =>
        obtain ⟨found, searched, result⟩ := ih low ((low + high) / 2 - 1) best (by omega) above
          (by omega)
        refine ⟨found, searched, result.imp_left fun ⟨same, shortest⟩ => ⟨same, fun _ => ?_⟩⟩
        -- the rest of the search decides `low`, unless the middle is `low` itself
        by_cases last : low = (low + high) / 2
        · intro runFits
          rw [← last] at built
          rw [runFits.of_built built] at fits
          cases fits
        · exact shortest (by omega)
    · simp only [if_neg le]
      exact ⟨best, rfl, .inl ⟨rfl, fun le' => absurd le' le⟩⟩

/-- What the parts of a piece satisfy. -/
structure Parts (budget : InputBudget) (document : CanonicalDocument) (piece : Fragment)
    (tokens : List TokenSpan) (parts : List Fragment) : Prop where
  tokens_eq : parts.flatMap Fragment.tokens = tokens
  sameBlock : ∀ part ∈ parts, part.block = piece.block
  exact : ∀ part ∈ parts, part.Exact
  fits : ∀ part ∈ parts, budget.fits (budgetText document [part]) = true

/-- A part has no more tokens than the piece. -/
theorem Parts.bounded {tokens : List TokenSpan} {parts : List Fragment}
    (spec : Parts budget document piece tokens parts) :
    ∀ part ∈ parts, part.tokenCount ≤ tokens.length := by
  intro part member
  rw [(spec.exact part member).tokenCount_eq, ← spec.tokens_eq]
  exact (List.sublist_flatten_of_mem (List.mem_map_of_mem member)).length_le

theorem fitFrom_ok (aligned : piece.Aligned) :
    ∀ {fuel start parts}, (spans piece.text).length - start ≤ fuel →
      fitFrom budget document piece (spans piece.text) fuel start = .ok parts →
      Parts budget document piece (piece.tokens.drop start) parts := by
  have length : piece.tokens.length = (spans piece.text).length := List.length_map _
  have done : ∀ {start}, (spans piece.text).length ≤ start →
      Parts budget document piece (piece.tokens.drop start) [] := by
    intro start short
    exact ⟨(List.drop_eq_nil_of_le (by omega)).symm, by simp, by simp, by simp⟩
  intro fuel
  induction fuel with
  | zero =>
    intro start parts enough returned
    cases returned
    exact done (by omega)
  | succ fuel ih =>
    intro start parts enough returned
    rw [fitFrom] at returned
    by_cases inside : start < (spans piece.text).length
    · obtain ⟨best, searched, result⟩ := bisect_ok budget document piece start
        (spans piece.text).length (start + 1) (spans piece.text).length start (by omega) (by omega)
        (Nat.le_refl _)
      simp only [if_pos inside, searched, bind, Except.bind] at returned
      -- not even one token fits, or the run up to `best` does
      rcases result with ⟨rfl, -⟩ | ⟨longer, within, part, built, fits⟩
      · rw [if_pos rfl] at returned
        cases returned
      · rw [if_neg (by omega)] at returned
        simp only [built, pure, Except.pure] at returned
        cases others : fitFrom budget document piece (spans piece.text) fuel best with
        | error e => simp [others] at returned
        | ok rest =>
          simp only [others, Except.ok.injEq] at returned
          subst returned
          obtain ⟨part', built', sameBlock, exact, tokens⟩ := candidate_ok aligned.uncut longer within
          cases built.symm.trans built'
          obtain ⟨restTokens, restBlock, restExact, restFits⟩ := ih (by omega) others
          refine ⟨?_, ?_, ?_, ?_⟩
          · rw [List.flatMap_cons, tokens, restTokens, slice_eq_take_drop,
              ← Nat.add_sub_cancel' (Nat.le_of_lt longer), ← List.drop_drop, Nat.add_sub_cancel_left,
              List.take_append_drop]
          · exact List.forall_mem_cons.mpr ⟨sameBlock, restBlock⟩
          · exact List.forall_mem_cons.mpr ⟨exact, restExact⟩
          · exact List.forall_mem_cons.mpr ⟨fits, restFits⟩
    · simp only [if_neg inside] at returned
      cases returned
      exact done (by omega)

theorem fitFrom_total
    (single : ∀ i < (spans piece.text).length, RunFits budget document piece i (i + 1)) :
    ∀ fuel start, ∃ parts,
      fitFrom budget document piece (spans piece.text) fuel start = .ok parts := by
  intro fuel
  induction fuel with
  | zero => exact fun start => ⟨[], rfl⟩
  | succ fuel ih =>
    intro start
    rw [fitFrom]
    by_cases inside : start < (spans piece.text).length
    · obtain ⟨best, searched, result⟩ := bisect_ok budget document piece start
        (spans piece.text).length (start + 1) (spans piece.text).length start (by omega) (by omega)
        (Nat.le_refl _)
      simp only [if_pos inside, searched, bind, Except.bind]
      rcases result with ⟨rfl, shortest⟩ | ⟨longer, -, part, built, -⟩
      · exact absurd (single _ inside) (shortest inside)
      · obtain ⟨rest, others⟩ := ih best
        rw [if_neg (by omega)]
        simp only [built, others]
        exact ⟨part :: rest, rfl⟩
    · rw [if_neg inside]
      exact ⟨[], rfl⟩

/-- The parts of a piece hold its tokens in order, and each fits the budget. -/
theorem fitPiece_ok {parts : List Fragment} (exact : piece.Exact)
    (returned : fitPiece budget document piece = .ok parts) :
    Parts budget document piece piece.tokens parts := by
  rw [fitPiece] at returned
  cases fits : budget.fits (budgetText document [piece]) with
  | true =>
    simp only [fits, if_true] at returned
    cases returned
    exact ⟨by simp, by simp, by simpa using exact, by simpa using fits⟩
  | false =>
    simp only [fits, Bool.false_eq_true, if_false] at returned
    exact fitFrom_ok exact.toAligned (Nat.sub_le _ _) returned

/-- A piece can be fitted when each token of it fits. -/
theorem fitPiece_total
    (single : ∀ i < (spans piece.text).length, RunFits budget document piece i (i + 1)) :
    ∃ parts, fitPiece budget document piece = .ok parts := by
  rw [fitPiece]
  cases budget.fits (budgetText document [piece]) with
  | true => exact ⟨[piece], rfl⟩
  | false => exact fitFrom_total single _ 0

end StructureAwareChunker

end SupportPilot.Rag
