import SupportPilot.Rag.TailOverlap

/-! # Packing the fitted pieces into chunks

`Packs` says what one round of the loop of `_pack_section` can do; `Packed`
collects what follows from it for the lists that `_pack_section` returns. -/

namespace SupportPilot.Rag

open Lib Lib.Regex ChunkTokenizer

namespace StructureAwareChunker

variable [WordChars] {budget : InputBudget} {document : CanonicalDocument}

/-- The number of tokens `_pack_section` lets overlap before the piece. -/
def overlapLimit (piece : Fragment) : Int :=
  min (PIPELINE.chunkOverlapTokens : Int) (max 0 (PIPELINE.chunkTargetTokens - piece.tokenCount))

/-- What one round of the loop of `_pack_section` can do: the piece joins the
current list, or it starts a new one behind a part of the overlap. -/
inductive Packs (budget : InputBudget) (document : CanonicalDocument) (state : PackState)
    (piece : Fragment) : PackState → Prop
  | extend (room : state.current = [] ∨
        state.currentTokens + piece.tokenCount ≤ PIPELINE.chunkTargetTokens ∧
          budget.fits (budgetText document (state.current ++ [piece])) = true) :
      Packs budget document state piece ⟨state.packed, state.current ++ [piece],
        state.currentTokens + piece.tokenCount⟩
  | close (overlap : List Fragment) (some : state.current ≠ [])
      (isTail : overlap <:+ tailOverlap state.current (overlapLimit piece))
      (room : overlap = [] ∨ budget.fits (budgetText document (overlap ++ [piece])) = true) :
      Packs budget document state piece ⟨state.packed ++ [state.current], overlap ++ [piece],
        totalTokens overlap + piece.tokenCount⟩

theorem dropUntilFits_ok (budget : InputBudget) (document : CanonicalDocument) (piece : Fragment)
    (fragments : List Fragment) :
    dropUntilFits budget document piece fragments <:+ fragments ∧
      (dropUntilFits budget document piece fragments = [] ∨
        budget.fits (budgetText document (dropUntilFits budget document piece fragments ++ [piece])) =
          true) := by
  induction fragments with
  | nil => simp [dropUntilFits]
  | cons fragment rest ih =>
    rw [dropUntilFits]
    split
    next fits => exact ⟨List.suffix_refl _, .inr fits⟩
    next => exact ⟨ih.1.trans (List.suffix_cons fragment rest), ih.2⟩

/-- A round either packs, within the hard maximum, or raises above it. -/
theorem packStep_cases (budget : InputBudget) (document : CanonicalDocument) (state : PackState)
    (piece : Fragment) :
    ∃ state', Packs budget document state piece state' ∧
      packStep budget document state piece =
        if state'.currentTokens > PIPELINE.chunkMaxTokens then
          .error (.valueError "C1 chunk exceeded its hard maximum")
        else .ok state' := by
  rw [packStep]
  cases closes : (!state.current.isEmpty &&
      (decide (state.currentTokens + piece.tokenCount > PIPELINE.chunkTargetTokens) ||
        !budget.fits (budgetText document (state.current ++ [piece])))) with
  | true =>
    have some : state.current ≠ [] := by
      rintro empty
      simp [empty] at closes
    obtain ⟨isTail, room⟩ := dropUntilFits_ok budget document piece
      (tailOverlap state.current (overlapLimit piece))
    refine ⟨_, .close _ some isTail room, ?_⟩
    simp only [if_true]
    rfl
  | false =>
    refine ⟨_, .extend ?_, ?_⟩
    · cases empty : state.current with
      | nil => exact .inl rfl
      | cons fragment rest =>
        right
        simpa [empty] using closes
    · simp only [Bool.false_eq_true, if_false]
      rfl

theorem packStep_ok {state state' : PackState} {piece : Fragment}
    (returned : packStep budget document state piece = .ok state') :
    Packs budget document state piece state' := by
  obtain ⟨next, packs, result⟩ := packStep_cases budget document state piece
  rw [result] at returned
  split at returned
  · cases returned
  · cases returned
    exact packs

/-- A later list goes back behind a block of an earlier list only to blocks of
that list. -/
def Follows (earlier later : List Fragment) : Prop :=
  ∀ f ∈ later, ∀ g ∈ earlier, f.block.order < g.block.order → ∃ h ∈ earlier, h.block = f.block

/-- What holds of the lists into which the pieces `done` were packed. -/
structure Packed (budget : InputBudget) (document : CanonicalDocument) (done : List Fragment)
    (packs : List (List Fragment)) : Prop where
  nonempty : ∀ pack ∈ packs, pack ≠ []
  exact : ∀ pack ∈ packs, ∀ f ∈ pack, f.Exact
  fromDone : ∀ pack ∈ packs, ∀ f ∈ pack, ∃ p ∈ done, f.Within p
  sorted : ∀ pack ∈ packs, (pack.map Fragment.block).Pairwise fun b b' => b.order ≤ b'.order
  covered : ∀ p ∈ done, ∃ pack ∈ packs, p ∈ pack
  follows : packs.Pairwise Follows
  fits : ∀ pack ∈ packs, budget.fits (budgetText document pack) = true

/-- What the next piece has to satisfy. -/
structure Next (budget : InputBudget) (document : CanonicalDocument) (done : List Fragment)
    (piece : Fragment) : Prop where
  exact : piece.Exact
  fits : budget.fits (budgetText document [piece]) = true
  last : ∀ p ∈ done, p.block.order ≤ piece.block.order

variable {done overlap current : List Fragment} {lists : List (List Fragment)} {piece : Fragment}

/-- The lists behind the pieces `done`, where the last one, `run`, is about to take a piece: it may be
empty, and it need not fit by itself. -/
structure Opened (budget : InputBudget) (document : CanonicalDocument) (done : List Fragment)
    (packs : List (List Fragment)) (run : List Fragment) : Prop where
  nonempty : ∀ pack ∈ packs, pack ≠ []
  exact : ∀ pack ∈ packs ++ [run], ∀ f ∈ pack, f.Exact
  fromDone : ∀ pack ∈ packs ++ [run], ∀ f ∈ pack, ∃ p ∈ done, f.Within p
  sorted : ∀ pack ∈ packs ++ [run],
    (pack.map Fragment.block).Pairwise fun b b' => b.order ≤ b'.order
  covered : ∀ p ∈ done, ∃ pack ∈ packs ++ [run], p ∈ pack
  follows : (packs ++ [run]).Pairwise Follows
  fits : ∀ pack ∈ packs, budget.fits (budgetText document pack) = true

/-- The last list takes up the piece. -/
theorem Opened.take {run : List Fragment} (opened : Opened budget document done lists run)
    (next : Next budget document done piece)
    (fits : budget.fits (budgetText document (run ++ [piece])) = true) :
    Packed budget document (done ++ [piece]) (lists ++ [run ++ [piece]]) := by
  have earlier : ∀ pack ∈ lists ++ [run], ∀ f ∈ pack, f.block.order ≤ piece.block.order := by
    intro pack member f inside
    obtain ⟨p, isDone, within⟩ := opened.fromDone pack member f inside
    rw [within.sameBlock]
    exact next.last p isDone
  have kept : ∀ f : Fragment, (∃ p ∈ done, f.Within p) → ∃ p ∈ done ++ [piece], f.Within p :=
    fun f ⟨p, member, within⟩ => ⟨p, List.mem_append_left _ member, within⟩
  obtain ⟨nonempty, exact, fromDone, sorted, covered, follows, allFit⟩ := opened
  simp only [List.forall_mem_append, List.forall_mem_singleton] at exact fromDone sorted earlier
  constructor
  case covered =>
    simp only [List.forall_mem_append, List.forall_mem_singleton]
    refine ⟨fun p member => ?_, ⟨run ++ [piece], by simp, by simp⟩⟩
    obtain ⟨pack, present, inside⟩ := covered p member
    obtain before | last := List.mem_append.mp present
    · exact ⟨pack, List.mem_append_left _ before, inside⟩
    · rw [List.mem_singleton.mp last] at inside
      exact ⟨run ++ [piece], by simp, List.mem_append_left _ inside⟩
  case follows =>
    rw [List.pairwise_append] at follows ⊢
    refine ⟨follows.1, List.pairwise_singleton _ _, ?_⟩
    intro pack member later isNew f inside g inPack less
    rw [List.mem_singleton.mp isNew, List.mem_append, List.mem_singleton] at inside
    obtain inRun | rfl := inside
    · exact follows.2.2 pack member run (by simp) f inRun g inPack less
    · -- no list has gone beyond the piece
      have := earlier.1 pack member g inPack
      omega
  all_goals simp only [List.forall_mem_append, List.forall_mem_singleton]
  case nonempty => exact ⟨nonempty, by simp⟩
  case exact => exact ⟨exact.1, exact.2, next.exact⟩
  case fromDone =>
    exact ⟨fun pack member f inside => kept f (fromDone.1 pack member f inside),
      fun f inside => kept f (fromDone.2 f inside), piece, by simp, .refl piece⟩
  case sorted =>
    refine ⟨sorted.1, ?_⟩
    rw [List.map_append, List.pairwise_append]
    refine ⟨sorted.2, List.pairwise_singleton _ _, ?_⟩
    intro b inRun b' isPiece
    obtain ⟨f, member, rfl⟩ := List.mem_map.mp inRun
    rw [List.map_singleton, List.mem_singleton] at isPiece
    rw [isPiece]
    exact earlier.2 f member
  case fits => exact ⟨allFit, fits⟩

/-- The last list may go on. -/
theorem Packed.opened (packed : Packed budget document done (lists ++ [current])) :
    Opened budget document done lists current where
  nonempty pack member := packed.nonempty pack (List.mem_append_left _ member)
  exact := packed.exact
  fromDone := packed.fromDone
  sorted := packed.sorted
  covered := packed.covered
  follows := packed.follows
  fits pack member := packed.fits pack (List.mem_append_left _ member)

/-- A new list may start with a part of the last one. -/
theorem Packed.start (packed : Packed budget document done lists) (exact : ∀ f ∈ overlap, f.Exact)
    (isTail : overlap = [] ∨ ∃ current ∈ lists.getLast?,
      overlap.map Fragment.block <:+ current.map Fragment.block ∧
        ∀ f ∈ overlap, ∃ g ∈ current, f.Within g) :
    Opened budget document done lists overlap := by
  -- every fragment of the overlap is a part of one of the last list
  have inLast : ∀ f ∈ overlap, ∃ current ∈ lists.getLast?, ∃ g ∈ current, f.Within g := by
    intro f member
    obtain rfl | ⟨current, last, -, parts⟩ := isTail
    · cases member
    · obtain ⟨g, inside, within⟩ := parts f member
      exact ⟨current, last, g, inside, within⟩
  constructor
  case nonempty => exact packed.nonempty
  case fits => exact packed.fits
  case covered =>
    intro p member
    obtain ⟨pack, present, inside⟩ := packed.covered p member
    exact ⟨pack, List.mem_append_left _ present, inside⟩
  case follows =>
    rw [List.pairwise_append]
    refine ⟨packed.follows, List.pairwise_singleton _ _, ?_⟩
    intro pack member later isNew f inside g inPack less
    rw [List.mem_singleton.mp isNew] at inside
    obtain ⟨current, last, h, inCurrent, within⟩ := inLast f inside
    have sameBlock := within.sameBlock.symm
    obtain ⟨init, split⟩ := List.getLast?_eq_some_iff.mp last
    rw [split, List.mem_append, List.mem_singleton] at member
    obtain before | rfl := member
    · have follows := packed.follows
      rw [split, List.pairwise_append] at follows
      obtain ⟨k, inBefore, same⟩ := follows.2.2 pack before current (by simp) h inCurrent g inPack
        (by rwa [sameBlock])
      exact ⟨k, inBefore, same.trans sameBlock⟩
    · exact ⟨h, inCurrent, sameBlock⟩
  all_goals simp only [List.forall_mem_append, List.forall_mem_singleton]
  case exact => exact ⟨packed.exact, exact⟩
  case fromDone =>
    refine ⟨packed.fromDone, fun f member => ?_⟩
    obtain ⟨current, last, g, inside, within⟩ := inLast f member
    obtain ⟨p, isDone, within'⟩ := packed.fromDone current (List.mem_of_getLast? last) g inside
    exact ⟨p, isDone, within.trans within'⟩
  case sorted =>
    refine ⟨packed.sorted, ?_⟩
    obtain rfl | ⟨current, last, suffix, -⟩ := isTail
    · exact .nil
    · exact (packed.sorted current (List.mem_of_getLast? last)).sublist suffix.sublist

/-- The lists packed so far, with the current one. -/
def PackState.packs (state : PackState) : List (List Fragment) :=
  if state.current.isEmpty then state.packed else state.packed ++ [state.current]

theorem Packs.packed {state state' : PackState} (packs : Packs budget document state piece state')
    (next : Next budget document done piece)
    (packed : Packed budget document done state.packs) :
    Packed budget document (done ++ [piece]) state'.packs := by
  cases packs with
  | extend room =>
    cases empty : state.current with
    | nil =>
      rw [PackState.packs, empty] at packed
      simpa [PackState.packs] using (packed.start (by simp) (.inl rfl)).take next next.fits
    | cons f rest =>
      obtain ⟨-, fits⟩ := room.resolve_left (by simp [empty])
      rw [empty] at fits
      rw [PackState.packs, empty] at packed
      simpa [PackState.packs] using packed.opened.take next fits
  | close overlap some isTail room =>
    have closed : state.packs = state.packed ++ [state.current] := by
      simp [PackState.packs, some]
    rw [closed] at packed
    have exactCurrent := packed.exact state.current (by simp)
    obtain ⟨parts, blocks⟩ := tailOverlap_ok exactCurrent (overlapLimit piece)
    have started := packed.start (fun f member => (parts f (isTail.subset member)).1)
      (.inr ⟨state.current, by simp, (isTail.map Fragment.block).trans blocks,
        fun f member => (parts f (isTail.subset member)).2⟩)
    have fits : budget.fits (budgetText document (overlap ++ [piece])) = true := by
      obtain rfl | fits := room
      · exact next.fits
      · exact fits
    simpa [PackState.packs] using started.take next fits

/-- `_pack_section` packs the fitted pieces of a section. -/
theorem foldlM_packStep_ok {fitted : List Fragment} {state : PackState}
    (exact : ∀ f ∈ fitted, f.Exact)
    (fits : ∀ f ∈ fitted, budget.fits (budgetText document [f]) = true)
    (sorted : (fitted.map Fragment.block).Pairwise fun b b' => b.order ≤ b'.order)
    (folded : fitted.foldlM (packStep budget document) ⟨[], [], 0⟩ = .ok state) :
    Packed budget document fitted state.packs := by
  refine foldlM_ok (motive := fun done state => Packed budget document done state.packs) ?_ ?_ folded
  · exact ⟨by simp [PackState.packs], by simp [PackState.packs], by simp [PackState.packs],
      by simp [PackState.packs], by simp, .nil, by simp [PackState.packs]⟩
  · intro done piece state state' isPrefix packed returned
    have member : piece ∈ fitted := isPrefix.subset (by simp)
    refine (packStep_ok returned).packed ⟨exact piece member, fits piece member, ?_⟩ packed
    have early := sorted.sublist (isPrefix.map Fragment.block).sublist
    rw [List.map_append, List.pairwise_append] at early
    exact fun p isDone => early.2.2 _ (List.mem_map_of_mem isDone) _ (by simp)

/-! ## The hard maximum is never exceeded -/

/-- The counter of `_pack_section` is right. -/
structure Counted (state : PackState) : Prop where
  exact : ∀ f ∈ state.current, f.Exact
  currentTokens_eq : state.currentTokens = totalTokens state.current

theorem packStep_total {state : PackState} (counted : Counted state) (exact : piece.Exact)
    (small : piece.tokenCount ≤ PIPELINE.chunkMaxTokens) :
    ∃ state', packStep budget document state piece = .ok state' ∧ Counted state' := by
  obtain ⟨state', packs, result⟩ := packStep_cases budget document state piece
  have step : Counted state' ∧ state'.currentTokens ≤ PIPELINE.chunkMaxTokens := by
    have pieceTokens : totalTokens [piece] = piece.tokenCount := by simp [totalTokens]
    cases packs with
    | extend room =>
      refine ⟨⟨?_, ?_⟩, ?_⟩
      · rw [List.forall_mem_append, List.forall_mem_singleton]
        exact ⟨counted.exact, exact⟩
      · rw [totalTokens_append, counted.currentTokens_eq, pieceTokens]
      · rcases room with empty | ⟨target, -⟩
        · have none : state.currentTokens = 0 := by
            rw [counted.currentTokens_eq, empty]
            rfl
          dsimp only
          omega
        · simp only [chunkTargetTokens_eq, chunkMaxTokens_eq] at target ⊢
          omega
    -- the overlap takes at most what the piece leaves of the target
    | close overlap some isTail room =>
      have parts := (tailOverlap_ok counted.exact (overlapLimit piece)).1
      have bound := totalTokens_tailOverlap counted.exact (overlapLimit piece)
      obtain ⟨dropped, whole⟩ := isTail
      have sum := totalTokens_append dropped overlap
      rw [whole] at sum
      refine ⟨⟨?_, ?_⟩, ?_⟩
      · rw [List.forall_mem_append, List.forall_mem_singleton]
        exact ⟨fun f member => (parts f (by rw [← whole]; exact List.mem_append_right _ member)).1,
          exact⟩
      · rw [totalTokens_append, pieceTokens]
      · have limit : (overlapLimit piece).toNat ≤ PIPELINE.chunkTargetTokens - piece.tokenCount := by
          rw [overlapLimit]
          omega
        simp only [chunkTargetTokens_eq, chunkMaxTokens_eq] at limit small ⊢
        omega
  refine ⟨state', ?_, step.1⟩
  rw [result, if_neg (Nat.not_lt.mpr step.2)]

theorem foldlM_packStep_total (budget : InputBudget) (document : CanonicalDocument)
    {fitted : List Fragment} (exact : ∀ f ∈ fitted, f.Exact)
    (small : ∀ f ∈ fitted, f.tokenCount ≤ PIPELINE.chunkMaxTokens) :
    ∃ state, fitted.foldlM (packStep budget document) ⟨[], [], 0⟩ = .ok state := by
  have start : Counted ⟨[], [], 0⟩ := ⟨fun f member => (List.not_mem_nil member).elim, rfl⟩
  obtain ⟨state, folded, -⟩ := foldlM_total fitted
    (motive := fun _ state => Counted state) start
    fun done piece state isPrefix counted =>
      packStep_total counted (exact piece (isPrefix.subset (by simp)))
        (small piece (isPrefix.subset (by simp)))
  exact ⟨state, folded⟩

end StructureAwareChunker

end SupportPilot.Rag
