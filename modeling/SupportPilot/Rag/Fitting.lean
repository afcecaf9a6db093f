import SupportPilot.Lib.Partition
import SupportPilot.Rag.Candidates

/-! # Splitting a piece greedily

`_fit_piece` cuts a piece that does not fit into runs of its tokens.  Under any budget
the runs it returns are a partition into fitting runs (`fitFrom_runs`); where fitting
carries over to shorter runs from the same start, the binary search finds the longest
one (`bisect_longest`), and the loop gets stuck exactly at a token that does not fit on
its own. -/

namespace SupportPilot.Rag

open Lib Lib.Regex ChunkTokenizer StructureAwareChunker

/-- The error of `_fit_piece`. -/
def sourceTokenTooLong : PyError := .valueError "one source token cannot fit the E1 budget"

variable [WordChars] (budget : InputBudget) (document : CanonicalDocument) (piece : Fragment)

/-- The part holds the tokens of the piece from `start` up to `stop`, and fits. -/
structure FitRun (start stop : Nat) (part : Fragment) : Prop where
  built : candidate piece (slice start stop (spans piece.text)) = .ok part
  fits : budget.fits (budgetText document [part]) = true
  sameBlock : part.block = piece.block
  tokens : part.tokens = slice start stop piece.tokens
  tokenCount : part.tokenCount = stop - start

/-- Shorter runs from the same start fit as well. -/
def PrefixClosed : Prop :=
  ∀ start stop stop', start < stop → stop ≤ stop' → stop' ≤ (spans piece.text).length →
    RunFits budget document piece start stop' → RunFits budget document piece start stop

/-- What fits still fits when it is cut to any run of its tokens. -/
structure RunClosed : Prop where
  whole : budget.fits (budgetText document [piece]) = true →
    ∀ start stop, start < stop → stop ≤ (spans piece.text).length →
      RunFits budget document piece start stop
  runs : ∀ start stop start' stop', start ≤ start' → start' < stop' → stop' ≤ stop →
    stop ≤ (spans piece.text).length → RunFits budget document piece start stop →
      RunFits budget document piece start' stop'

variable {budget document piece}

theorem RunClosed.prefixClosed (closed : RunClosed budget document piece) :
    PrefixClosed budget document piece := by
  intro start stop stop' less le within fits
  exact closed.runs start stop' start stop (Nat.le_refl _) less le within fits

theorem FitRun.runFits {start stop : Nat} {part : Fragment}
    (run : FitRun budget document piece start stop part) :
    RunFits budget document piece start stop := ⟨part, run.built, run.fits⟩

theorem RunFits.fitRun {start stop : Nat} (less : start < stop)
    (within : stop ≤ (spans piece.text).length) (fits : RunFits budget document piece start stop) :
    ∃ part, FitRun budget document piece start stop part := by
  obtain ⟨part, built, fits⟩ := fits
  obtain ⟨sameBlock, tokens, tokenCount⟩ := candidate_tokens less within built
  exact ⟨part, built, fits, sameBlock, tokens, tokenCount⟩

/-! ## The binary search -/

/-- Every run behind `high` fails, and `best` is the end of the last run that passed:
the search keeps this, and stops where the two meet. -/
theorem bisect_longest {start : Nat} (closed : PrefixClosed budget document piece) :
    ∀ fuel low high best found, high + 1 - low ≤ fuel → best + 1 = low → start ≤ best →
      best ≤ high → high ≤ (spans piece.text).length →
      (∀ stop, high < stop → stop ≤ (spans piece.text).length →
        ¬ RunFits budget document piece start stop) →
      bisect budget document piece (spans piece.text) start fuel low high best = .ok found →
      ∀ stop, found < stop → stop ≤ (spans piece.text).length →
        ¬ RunFits budget document piece start stop := by
  intro fuel
  -- nothing above `high` fits, in every round of the search
  induction fuel with
  | zero =>
    intro low high best found enough next above le within fails searched
    cases searched
    have met : best = high := by omega
    rwa [met]
  | succ fuel ih =>
    intro low high best found enough next above le within fails searched
    rw [bisect] at searched
    by_cases more : low ≤ high
    · obtain ⟨part, built⟩ := exists_candidate piece
        (show start < (low + high) / 2 by omega) (by omega)
      simp only [if_pos more, built, bind, Except.bind] at searched
      cases fits : budget.fits (budgetText document [part]) with
      | true =>
        simp only [fits, if_true] at searched
        exact ih _ _ _ _ (by omega) rfl (by omega) (by omega) within fails searched
      | false =>
        simp only [fits, Bool.false_eq_true, if_false] at searched
        apply ih _ _ _ _ (by omega) next above (by omega) (by omega) _ searched
        intro stop behind inside runFits
        by_cases far : high < stop
        · exact fails stop far inside runFits
        · -- a longer run from the same start would make the middle one fit
          have middle := closed start ((low + high) / 2) stop (by omega) (by omega) inside runFits
          rw [middle.of_built built] at fits
          cases fits
    · simp only [if_neg more, pure, Except.pure, Except.ok.injEq] at searched
      have met : found = high := by omega
      rwa [met]

/-- The search of `_fit_piece` from a start. -/
theorem bisect_from (budget : InputBudget) (document : CanonicalDocument) (piece : Fragment)
    {start : Nat} (inside : start < (spans piece.text).length) :
    ∃ found, bisect budget document piece (spans piece.text) start (spans piece.text).length
        (start + 1) (spans piece.text).length start = .ok found ∧
      (found = start ∧ ¬ RunFits budget document piece start (start + 1) ∨
        start < found ∧ found ≤ (spans piece.text).length ∧
          RunFits budget document piece start found ∧
          (PrefixClosed budget document piece → ∀ stop, found < stop →
            stop ≤ (spans piece.text).length → ¬ RunFits budget document piece start stop)) := by
  obtain ⟨found, searched, result⟩ := bisect_ok budget document piece start
    (spans piece.text).length (start + 1) (spans piece.text).length start (by omega) (by omega)
    (Nat.le_refl _)
  refine ⟨found, searched, ?_⟩
  rcases result with ⟨same, shortest⟩ | ⟨longer, within, fits⟩
  · exact .inl ⟨same, shortest inside⟩
  · refine .inr ⟨longer, within, fits, ?_⟩
    intro closed
    exact bisect_longest closed _ _ _ _ _ (by omega) rfl (Nat.le_refl _) (by omega)
      (Nat.le_refl _) (by omega) searched

/-! ## The loop -/

/-- A run of the partition: it fits, and no longer one does where the search can tell. -/
def GreedyRun (budget : InputBudget) (document : CanonicalDocument) (piece : Fragment)
    (start stop : Nat) (part : Fragment) : Prop :=
  FitRun budget document piece start stop part ∧
    (PrefixClosed budget document piece →
      Longest (RunFits budget document piece) (spans piece.text).length start stop)

/-- The loop returns a partition, or gets stuck behind longest runs at a token that does
not fit on its own. -/
theorem fitFrom_cases (budget : InputBudget) (document : CanonicalDocument) (piece : Fragment) :
    ∀ fuel start, (spans piece.text).length - start ≤ fuel → start ≤ (spans piece.text).length →
      (∃ parts, fitFrom budget document piece (spans piece.text) fuel start = .ok parts ∧
        Runs (GreedyRun budget document piece) (spans piece.text).length start parts) ∨
      fitFrom budget document piece (spans piece.text) fuel start = .error sourceTokenTooLong ∧
        ∃ i, start ≤ i ∧ i < (spans piece.text).length ∧
          ¬ RunFits budget document piece i (i + 1) ∧
          (PrefixClosed budget document piece →
            Reached (RunFits budget document piece) (spans piece.text).length start →
            Reached (RunFits budget document piece) (spans piece.text).length i) := by
  intro fuel
  induction fuel with
  | zero =>
    intro start enough le
    obtain rfl : start = (spans piece.text).length := by omega
    exact .inl ⟨[], rfl, .nil⟩
  | succ fuel ih =>
    intro start enough le
    rw [fitFrom]
    by_cases inside : start < (spans piece.text).length
    · obtain ⟨best, searched, result⟩ := bisect_from budget document piece inside
      simp only [if_pos inside, searched, bind, Except.bind]
      rcases result with ⟨rfl, stuck⟩ | ⟨longer, within, fits, longest⟩
      · right
        rw [if_pos rfl]
        exact ⟨rfl, best, Nat.le_refl _, inside, stuck, fun _ reached => reached⟩
      · obtain ⟨part, run⟩ := RunFits.fitRun longer within fits
        -- the longest run that fits, if fitting is closed under prefixes
        have greedy : GreedyRun budget document piece start best part :=
          ⟨run, fun closed => ⟨fits, longest closed⟩⟩
        rw [if_neg (by omega)]
        simp only [run.built, pure, Except.pure]
        rcases ih best (by omega) within with ⟨rest, others, runs⟩ | ⟨raised, i, later, stuck⟩
        · rw [others]
          exact .inl ⟨part :: rest, rfl, .cons longer within greedy runs⟩
        · obtain ⟨inside', alone, reached⟩ := stuck
          rw [raised]
          refine .inr ⟨rfl, i, by omega, inside', alone, ?_⟩
          intro closed before
          exact reached closed (before.cut longer within ⟨fits, longest closed⟩)
    · obtain rfl : start = (spans piece.text).length := by omega
      rw [if_neg inside]
      exact .inl ⟨[], rfl, .nil⟩

/-! ## Fuel -/

/-- The binary search ends by itself: `fuel` only bounds the model. -/
theorem bisect_fuel (budget : InputBudget) (document : CanonicalDocument) (piece : Fragment)
    (tokens : List TokenSpan) (start : Nat) :
    ∀ fuel fuel' low high best, 0 < low → high + 1 - low ≤ fuel → high + 1 - low ≤ fuel' →
      bisect budget document piece tokens start fuel low high best =
        bisect budget document piece tokens start fuel' low high best := by
  intro fuel
  induction fuel with
  | zero =>
    intro fuel' low high best positive enough _
    cases fuel' with
    | zero => rfl
    | succ fuel' => rw [bisect, bisect, if_neg (by omega)]
  | succ fuel ih =>
    intro fuel' low high best positive enough enough'
    cases fuel' with
    | zero => rw [bisect, bisect, if_neg (by omega)]
    | succ fuel' =>
      rw [bisect, bisect]
      dsimp only
      split
      · rw [ih fuel' ((low + high) / 2 + 1) high ((low + high) / 2) (by omega) (by omega)
          (by omega), ih fuel' low ((low + high) / 2 - 1) best positive (by omega) (by omega)]
      · rfl

/-- So does the outer loop. -/
theorem fitFrom_fuel (budget : InputBudget) (document : CanonicalDocument) (piece : Fragment) :
    ∀ fuel fuel' start, (spans piece.text).length - start ≤ fuel →
      (spans piece.text).length - start ≤ fuel' →
      fitFrom budget document piece (spans piece.text) fuel start =
        fitFrom budget document piece (spans piece.text) fuel' start := by
  intro fuel
  induction fuel with
  | zero =>
    intro fuel' start enough _
    cases fuel' with
    | zero => rfl
    | succ fuel' => rw [fitFrom, fitFrom, if_neg (by omega)]
  | succ fuel ih =>
    intro fuel' start enough enough'
    cases fuel' with
    | zero => rw [fitFrom, fitFrom, if_neg (by omega)]
    | succ fuel' =>
      rw [fitFrom, fitFrom]
      by_cases inside : start < (spans piece.text).length
      · obtain ⟨best, searched, result⟩ := bisect_from budget document piece inside
        simp only [if_pos inside, searched, bind, Except.bind]
        rcases result with ⟨rfl, -⟩ | ⟨longer, -⟩
        · simp only [if_true]
          rfl
        · rw [if_neg (by omega), if_neg (by omega), ih fuel' best (by omega) (by omega)]
      · rw [if_neg inside, if_neg inside]

/-! ## The whole function -/

/-- The piece gets stuck: it does not fit, and behind longest fitting runs comes a token
that does not fit on its own. -/
def Stuck (budget : InputBudget) (document : CanonicalDocument) (piece : Fragment) : Prop :=
  budget.fits (budgetText document [piece]) = false ∧
    ∃ i, Reached (RunFits budget document piece) (spans piece.text).length i ∧
      i < (spans piece.text).length ∧ ¬ RunFits budget document piece i (i + 1)

theorem fitPiece_cases (budget : InputBudget) (document : CanonicalDocument) (piece : Fragment) :
    (budget.fits (budgetText document [piece]) = true ∧
      fitPiece budget document piece = .ok [piece]) ∨
    budget.fits (budgetText document [piece]) = false ∧
      ((∃ parts, fitPiece budget document piece = .ok parts ∧
        Runs (GreedyRun budget document piece) (spans piece.text).length 0 parts) ∨
      fitPiece budget document piece = .error sourceTokenTooLong ∧
        ∃ i < (spans piece.text).length, ¬ RunFits budget document piece i (i + 1) ∧
          (PrefixClosed budget document piece →
            Reached (RunFits budget document piece) (spans piece.text).length i)) := by
  rw [fitPiece]
  cases fits : budget.fits (budgetText document [piece]) with
  | true => exact .inl ⟨rfl, rfl⟩
  | false =>
    refine .inr ⟨rfl, ?_⟩
    simp only [Bool.false_eq_true, if_false]
    rcases fitFrom_cases budget document piece _ 0 (Nat.sub_le _ _) (Nat.zero_le _) with
      ⟨parts, returned, runs⟩ | ⟨raised, i, -, inside, alone, reached⟩
    · exact .inl ⟨parts, returned, runs⟩
    · exact .inr ⟨raised, i, inside, alone, fun closed => reached closed .zero⟩

/-- Where shorter runs fit too, `_fit_piece` raises exactly when it gets stuck. -/
theorem fitPiece_error_iff_stuck (closed : PrefixClosed budget document piece) {error : PyError} :
    fitPiece budget document piece = .error error ↔
      error = sourceTokenTooLong ∧ Stuck budget document piece := by
  rcases fitPiece_cases budget document piece with ⟨fits, returned⟩ | ⟨large, result⟩
  · simp [returned, Stuck, fits]
  rcases result with ⟨parts, returned, runs⟩ | ⟨raised, i, inside, alone, reached⟩
  · rw [returned]
    simp only [reduceCtorEq, false_iff]
    intro stuck
    obtain ⟨-, -, i, reached, inside, alone⟩ := stuck
    obtain ⟨rest, runs⟩ := reached.runs (fun a b part greedy => greedy.2 closed) runs
    cases runs with
    | nil => omega
    | @cons _ stop part rest less within greedy others =>
      exact alone (closed i (i + 1) stop (Nat.lt_succ_self i) less within greedy.1.runFits)
  · rw [raised, Except.error.injEq, eq_comm]
    exact ⟨fun same => ⟨same, large, i, reached closed, inside, alone⟩, fun same => same.1⟩

/-- `_fit_piece` ends, and what it returns is the piece or a partition of its tokens into
fitting runs.  Where a fitting run still fits when it is cut, these are the longest fitting
runs, and it raises exactly when a single token does not fit under the header. -/
theorem fitPiece_greedy (budget : InputBudget) (document : CanonicalDocument) (piece : Fragment) :
    (∀ fuel, (spans piece.text).length ≤ fuel → ∀ start low high best,
      high ≤ (spans piece.text).length → 1 ≤ low →
        bisect budget document piece (spans piece.text) start fuel low high best =
            bisect budget document piece (spans piece.text) start (spans piece.text).length low high
              best ∧
          fitFrom budget document piece (spans piece.text) fuel start =
            fitFrom budget document piece (spans piece.text) (spans piece.text).length start) ∧
    (∀ parts, fitPiece budget document piece = .ok parts →
      (parts = [piece] ∧ budget.fits (budgetText document [piece]) = true) ∨
        Runs (FitRun budget document piece) (spans piece.text).length 0 parts) ∧
    (∀ error, fitPiece budget document piece = .error error → error = sourceTokenTooLong) ∧
    (RunClosed budget document piece →
      (∀ parts, fitPiece budget document piece = .ok parts →
        (parts = [piece] ∧ budget.fits (budgetText document [piece]) = true) ∨
          Runs (fun start stop part => FitRun budget document piece start stop part ∧
            Longest (RunFits budget document piece) (spans piece.text).length start stop)
              (spans piece.text).length 0 parts) ∧
      ((∃ error, fitPiece budget document piece = .error error) ↔
        ∃ i < (spans piece.text).length, ¬ RunFits budget document piece i (i + 1))) := by
  refine ⟨?_, ?_, ?_, ?_⟩
  · intro fuel enough start low high best within positive
    exact ⟨bisect_fuel budget document piece _ start _ _ low high best positive (by omega)
        (by omega),
      fitFrom_fuel budget document piece _ _ start (by omega) (by omega)⟩
  · intro parts returned
    rcases fitPiece_cases budget document piece with ⟨fits, same⟩ | ⟨-, result⟩
    · cases same.symm.trans returned
      exact .inl ⟨rfl, fits⟩
    rcases result with ⟨parts', returned', runs⟩ | ⟨raised, -⟩
    · cases returned'.symm.trans returned
      exact .inr (runs.mono fun a b part _ _ greedy => greedy.1)
    · cases raised.symm.trans returned
  · intro error raised
    rcases fitPiece_cases budget document piece with ⟨-, same⟩ | ⟨-, result⟩
    · cases same.symm.trans raised
    rcases result with ⟨parts, returned, -⟩ | ⟨raised', -⟩
    · cases returned.symm.trans raised
    · cases raised'.symm.trans raised
      rfl
  · intro closed
    rcases fitPiece_cases budget document piece with ⟨fits, same⟩ | ⟨-, result⟩
    · rw [same]
      refine ⟨fun parts returned => ?_, ?_⟩
      · cases returned
        exact .inl ⟨rfl, fits⟩
      · simp only [reduceCtorEq, exists_false, false_iff, not_exists, not_and, not_not]
        exact fun i inside => closed.whole fits i (i + 1) (Nat.lt_succ_self i) inside
    rcases result with ⟨parts, returned, runs⟩ | ⟨raised, i, inside, alone, -⟩
    · rw [returned]
      refine ⟨fun parts' returned' => ?_, ?_⟩
      · cases returned'
        exact .inr (runs.mono fun a b part _ _ greedy => ⟨greedy.1, greedy.2 closed.prefixClosed⟩)
      · simp only [reduceCtorEq, exists_false, false_iff, not_exists, not_and, not_not]
        intro i inside
        -- the token lies in a run that fits
        obtain ⟨a, b, part, before, behind, within, greedy⟩ := runs.exists_run (Nat.zero_le i) inside
        exact closed.runs a b i (i + 1) before (Nat.lt_succ_self i) behind within greedy.1.runFits
    · rw [raised]
      refine ⟨fun parts returned => ?_, ?_⟩
      · cases returned
      · exact iff_of_true ⟨_, rfl⟩ ⟨i, inside, alone⟩

/-- A piece of `_split_block` is the run of all its tokens, so only runs matter. -/
theorem runClosed_of_exact (exact : piece.Exact)
    (runs : ∀ start stop start' stop', start ≤ start' → start' < stop' → stop' ≤ stop →
      stop ≤ (spans piece.text).length → RunFits budget document piece start stop →
        RunFits budget document piece start' stop') : RunClosed budget document piece := by
  refine ⟨fun fits start stop less within => ?_, runs⟩
  have length : piece.tokens.length = (spans piece.text).length := List.length_map _
  obtain ⟨part, built, sameBlock, exactPart, tokens⟩ :=
    candidate_ok exact.uncut (show 0 < (spans piece.text).length by omega) (Nat.le_refl _)
  rw [slice_zero, ← length, List.take_length] at tokens
  have whole : part = piece := Fragment.eq_of_tokens exactPart exact sameBlock tokens
  have fitsAll : RunFits budget document piece 0 (spans piece.text).length := by
    rw [whole] at built
    exact ⟨piece, built, fits⟩
  exact runs 0 _ start stop (Nat.zero_le _) less within (Nat.le_refl _) fitsAll

end SupportPilot.Rag
