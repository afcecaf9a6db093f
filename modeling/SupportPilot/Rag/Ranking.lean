import Mathlib.Data.Char
import Mathlib.Data.List.Lex
import Mathlib.Data.Prod.Lex
import SupportPilot.Rag.ExactScores

/-! # The ranking in exact arithmetic

`BM25LexicalScorer.rank` sorts the chunks that share something with the query by score and
identifier, and cuts the result (`rank_eq`).  So the ranking depends on the set of chunks
only, and a smaller limit gives the first of its results (`rank_exact`). -/

namespace SupportPilot.Rag

open Lib FloatArithmetic

section Sorting

variable {α κ : Type} [LinearOrder κ] {before : α → α → Bool} {key : α → κ}

/-- Sorting by a key. -/
theorem sortedBy_eq_orderBy (same : ∀ a b, before a b = decide (key a < key b)) (items : List α) :
    sortedBy before items = Table.orderBy key items := by
  simp only [sortedBy, Table.orderBy, same, Bool.not_eq_true', decide_eq_false_iff_not, not_lt]

end Sorting

variable {K : Type} [Field K] [LinearOrder K] [IsStrictOrderedRing K] [ExactArithmetic K]

/-- The sort key of the ranking. -/
def rankKey (item : K × Chunk) : K ×ₗ Text := toLex (-item.1, item.2.chunkId)

omit [IsStrictOrderedRing K] in
theorem rankedBefore_eq (left right : K × Chunk) :
    rankedBefore left right = decide (rankKey left < rankKey right) := by
  simp only [rankedBefore, rankKey, Prod.Lex.toLex_lt_toLex, ExactArithmetic.eq_eq,
    ExactArithmetic.lt_eq, ExactArithmetic.neg_eq]
  by_cases same : -left.1 = -right.1 <;> simp [same]

section Rank

variable [TermTables] [HashedSet Text] [HashedSet (Text × Text)] {query : Text} {chunks : List Chunk}

/-- The score of a chunk among the chunks. -/
def chunkScore (query : Text) (chunks : List Chunk) (chunk : Chunk) : K :=
  score (weightsOf query (chunks.map prepare)) (prepare chunk)

def chunkKey (query : Text) (chunks : List Chunk) (chunk : Chunk) : K ×ₗ Text :=
  rankKey (chunkScore query chunks chunk, chunk)

omit [HashedSet Text] [HashedSet (Text × Text)] in
theorem measured_prepare (some : chunks ≠ []) :
    Measured (chunks.map prepare : List (PreparedDocument K)) := by
  constructor
  · simpa using some
  · intro document member
    obtain ⟨chunk, -, rfl⟩ := List.mem_map.mp member
    exact length_prepare_nonneg chunk

theorem chunkScore_pos_iff {chunk : Chunk} (member : chunk ∈ chunks) :
    0 < (chunkScore query chunks chunk : K) ↔ Shares query chunk :=
  score_pos_iff (measured_prepare (List.ne_nil_of_mem member)) (List.mem_map_of_mem member)

omit [HashedSet Text] [HashedSet (Text × Text)] in
/-- What shares something with a chunk has terms. -/
theorem not_shares_of_noTerms [UnicodeTerms] {chunk : Chunk} (none : lexicalTerms query = []) :
    ¬ Shares query chunk := by
  intro shares
  obtain ⟨term, isTerm, -⟩ | ⟨identifier, isIdentifier, -⟩ := shares
  · rw [none] at isTerm
    cases isTerm
  · obtain ⟨written, -, -, isTerm⟩ := exists_identifier isIdentifier
    rw [none] at isTerm
    cases isTerm

/-- The ranking sorts what has a positive score. -/
theorem rank_eq [UnicodeTerms] (cache : PreparedCache K) (query : Text) (chunks : List Chunk)
    (limit : Nat) : (rank cache query chunks limit).1 =
      (Table.orderBy (chunkKey (K := K) query chunks)
        (chunks.filter fun chunk => 0 < (chunkScore query chunks chunk : K))).take limit := by
  rw [rank_fst]
  split
  next early =>
    simp only [Bool.or_eq_true, List.isEmpty_iff, decide_eq_true_eq] at early
    obtain (noTerms | noChunks) | zero := early
    · -- without terms no score is positive
      have none : (chunks.filter fun chunk => 0 < (chunkScore query chunks chunk : K)) = [] := by
        rw [List.filter_eq_nil_iff]
        intro chunk member
        rw [decide_eq_true_eq, chunkScore_pos_iff member]
        exact not_shares_of_noTerms noTerms
      rw [none]
      simp [Table.orderBy]
    · subst noChunks
      simp [Table.orderBy]
    · obtain rfl : limit = 0 := by omega
      rfl
  · have scored : ((chunks.map (prepare : Chunk → PreparedDocument K)).map fun document =>
        (score (weightsOf query (chunks.map prepare)) document, document.chunk)).filter
          (fun item => lt (float 0) item.1) =
        (chunks.filter fun chunk => 0 < (chunkScore query chunks chunk : K)).map fun chunk =>
          (chunkScore query chunks chunk, chunk) := by
      rw [List.map_map, List.filter_map]
      simp only [ExactArithmetic.lt_eq, float_eq, Nat.cast_zero]
      rfl
    simp only [rankPrepared]
    rw [scored, sortedBy_eq_orderBy rankedBefore_eq, Table.orderBy_map, ← List.map_take, List.map_map]
    exact List.map_id _

omit [IsStrictOrderedRing K] in
/-- Chunks with different identifiers have different keys. -/
theorem chunkKey_unique (distinct : (chunks.map Chunk.chunkId).Nodup) :
    ∀ a ∈ chunks, ∀ b ∈ chunks, (chunkKey query chunks a : K ×ₗ Text) = chunkKey query chunks b →
      a = b := by
  intro a inChunks b inChunks' same
  have sameId : a.chunkId = b.chunkId := congrArg (fun key => (ofLex key).2) same
  exact List.inj_on_of_nodup_map distinct inChunks inChunks' sameId

omit [IsStrictOrderedRing K] in
/-- The score does not depend on the order of the chunks. -/
theorem chunkScore_perm {permuted : List Chunk} (perm : permuted.Perm chunks) (chunk : Chunk) :
    (chunkScore query permuted chunk : K) = chunkScore query chunks chunk := by
  have prepared := perm.map (prepare : Chunk → PreparedDocument K)
  have inverse : ∀ term, inverseFrequency (permuted.map (prepare : Chunk → PreparedDocument K)) term =
      inverseFrequency (chunks.map prepare) term := by
    intro term
    simp only [inverseFrequency, prepared.countP_eq, prepared.length_eq]
  have weights : weightsOf query (permuted.map (prepare : Chunk → PreparedDocument K)) =
      weightsOf query (chunks.map prepare) := by
    simp only [weightsOf, inverse, ExactArithmetic.sum_eq, prepared.length_eq,
      (prepared.map PreparedDocument.length).sum_eq]
  rw [chunkScore, chunkScore, weights]

theorem rank_perm [UnicodeTerms] (distinct : (chunks.map Chunk.chunkId).Nodup)
    {permuted : List Chunk} (perm : permuted.Perm chunks) (cache cache' : PreparedCache K)
    (limit : Nat) :
    (rank cache query permuted limit).1 = (rank cache' query chunks limit).1 := by
  have key : (chunkKey query permuted : Chunk → K ×ₗ Text) = chunkKey query chunks := by
    funext chunk
    rw [chunkKey, chunkKey, chunkScore_perm perm]
  have unique := distinct.of_map
  rw [rank_eq, rank_eq, key]
  simp only [chunkScore_perm perm]
  congr 1
  apply Table.orderBy_congr ((perm.nodup_iff.mpr unique).filter _) (unique.filter _)
  · intro chunk
    rw [List.mem_filter, List.mem_filter, perm.mem_iff]
  · intro a left b right
    exact chunkKey_unique distinct a (perm.subset (List.mem_filter.mp left).1) b
      (perm.subset (List.mem_filter.mp right).1)

/-! ## The divisors -/

/-- What `rank` divides by: the number of chunks, the smoothed frequencies, the average length
where it is not 0, the normalized term frequencies where they are positive, and 2. -/
def divisors (query : Text) (prepared : List (PreparedDocument K)) : List K :=
  let weights := weightsOf query prepared
  [float prepared.length] ++ (lexicalTerms query).map (smoothed prepared) ++
    ([weights.averageLength].filter fun length => !eq length (float 0)) ++
    (prepared.flatMap fun document =>
      ((lexicalTerms query).filter fun term => lt (float 0) (termFrequency document term)).map
        fun term => add (termFrequency document term) (normalization weights document)) ++
    [float 2]

omit [HashedSet Text] [HashedSet (Text × Text)] in
theorem divisors_nonzero (query : Text) (some : chunks ≠ []) :
    ∀ divisor ∈ (divisors query (chunks.map prepare) : List K), divisor ≠ 0 := by
  have measured := measured_prepare (K := K) some
  have count : (0 : K) < float (chunks.map (prepare : Chunk → PreparedDocument K)).length := by
    rw [float_eq]
    exact Nat.cast_pos.mpr (List.length_pos_of_ne_nil measured.some)
  have two : (0 : K) < float 2 := by
    rw [float_eq]
    exact Nat.cast_pos.mpr (by decide)
  intro divisor member
  simp only [divisors, List.mem_append, List.mem_singleton] at member
  obtain (((rfl | smooth) | average) | normalized) | rfl := member
  · exact ne_of_gt count
  · obtain ⟨term, -, rfl⟩ := List.mem_map.mp smooth
    exact ne_of_gt (smoothed_pos _ term)
  · obtain ⟨-, nonzero⟩ := List.mem_filter.mp average
    simpa [ExactArithmetic.eq_eq, float_eq] using nonzero
  · obtain ⟨document, isPrepared, isTerm⟩ := List.mem_flatMap.mp normalized
    obtain ⟨term, frequent, rfl⟩ := List.mem_map.mp isTerm
    obtain ⟨-, positive⟩ := List.mem_filter.mp frequent
    rw [ExactArithmetic.lt_eq, decide_eq_true_eq, float_eq, Nat.cast_zero] at positive
    rw [ExactArithmetic.add_eq]
    exact ne_of_gt (add_pos positive (normalization_pos measured isPrepared))
  · exact ne_of_gt two

/-! ## The ranking -/

/-- The ranking is sound, complete and independent of the order of the chunks. -/
theorem rank_exact [UnicodeTerms] (query : Text) (distinct : (chunks.map Chunk.chunkId).Nodup) :
    (chunks ≠ [] → ∀ divisor ∈ (divisors query (chunks.map prepare) : List K), divisor ≠ 0) ∧
    (∀ (cache : PreparedCache K) limit, chunks.length ≤ limit →
      (rank cache query chunks limit).1.Nodup ∧
      ∀ chunk, chunk ∈ (rank cache query chunks limit).1 ↔ chunk ∈ chunks ∧ Shares query chunk) ∧
    (∀ (cache cache' : PreparedCache K) permuted limit, permuted.Perm chunks →
      (rank cache query permuted limit).1 = (rank cache' query chunks limit).1) ∧
    (∀ (cache : PreparedCache K) limit, (rank cache query chunks limit).1.Pairwise
      fun earlier later => (chunkScore query chunks later : K) < chunkScore query chunks earlier ∨
        (chunkScore query chunks later : K) = chunkScore query chunks earlier ∧
          earlier.chunkId < later.chunkId) ∧
    ∀ (cache cache' : PreparedCache K) limit limit', limit ≤ limit' →
      (rank cache query chunks limit).1 <+: (rank cache' query chunks limit').1 := by
  have unique := distinct.of_map
  -- what is ranked are the chunks that share a term with the query
  have kept : ∀ chunk, chunk ∈ (chunks.filter fun chunk =>
      0 < (chunkScore query chunks chunk : K)) ↔ chunk ∈ chunks ∧ Shares query chunk := by
    intro chunk
    rw [List.mem_filter, decide_eq_true_eq]
    exact and_congr_right fun member => chunkScore_pos_iff member
  have sorted := Table.orderBy_sorted (chunkKey (K := K) query chunks)
    (chunks.filter fun chunk => 0 < (chunkScore query chunks chunk : K))
  have nodup : (Table.orderBy (chunkKey (K := K) query chunks)
      (chunks.filter fun chunk => 0 < (chunkScore query chunks chunk : K))).Nodup :=
    (List.perm_insertionSort _ _).nodup_iff.mpr (unique.filter _)
  refine ⟨divisors_nonzero query, ?_, fun cache cache' permuted limit perm =>
    rank_perm distinct perm cache cache' limit, ?_, ?_⟩
  · intro cache limit all
    have short : (Table.orderBy (chunkKey (K := K) query chunks)
        (chunks.filter fun chunk => 0 < (chunkScore query chunks chunk : K))).length ≤ limit := by
      rw [Table.orderBy, List.length_insertionSort]
      exact le_trans (List.length_filter_le _ _) all
    rw [rank_eq, List.take_of_length_le short]
    refine ⟨nodup, fun chunk => ?_⟩
    rw [Table.mem_orderBy, kept]
  · intro cache limit
    rw [rank_eq]
    apply List.Pairwise.sublist (List.take_sublist _ _)
    have both := List.pairwise_and_iff.mpr ⟨sorted, nodup⟩
    apply List.Pairwise.imp_of_mem _ both
    intro earlier later inRanking inRanking' ordered
    obtain ⟨less, differ⟩ := ordered
    have inChunks := (List.mem_filter.mp (Table.mem_orderBy.1 inRanking)).1
    have inChunks' := (List.mem_filter.mp (Table.mem_orderBy.1 inRanking')).1
    -- the key is the negated score, then the identifier
    obtain above | ⟨same, ids⟩ := Prod.Lex.toLex_le_toLex.mp less
    · exact .inl (neg_lt_neg_iff.mp above)
    · have differentIds : earlier.chunkId ≠ later.chunkId := fun sameId =>
        differ (List.inj_on_of_nodup_map distinct inChunks inChunks' sameId)
      exact .inr ⟨(neg_inj.mp same).symm, lt_of_le_of_ne ids differentIds⟩
  · intro cache cache' limit limit' less
    rw [rank_eq, rank_eq]
    exact List.take_prefix_take_left less

end Rank

/-! ## A ranking of two chunks -/

theorem exact_ofRat (q : Rat) : q = (q : Rat) := rfl

theorem sub_one_strictMono : StrictMonoOn (fun x : Rat => x - 1) (Set.Ioi 0) :=
  fun _ _ _ _ less => sub_lt_sub_right less 1

theorem sub_one_one : (1 : Rat) - 1 = 0 := sub_self 1

/-- Rational numbers, with `x - 1` as the logarithm. -/
@[reducible] def rationals : ExactArithmetic Rat where
  ofRat q := q
  add x y := x + y
  sub x y := x - y
  mul x y := x * y
  div x y := x / y
  neg x := -x
  log x := x - 1
  sum := List.sum
  eq x y := x = y
  lt x y := x < y
  ofRat_eq := exact_ofRat
  add_eq _ _ := rfl
  sub_eq _ _ := rfl
  mul_eq _ _ := rfl
  div_eq _ _ _ := rfl
  neg_eq _ := rfl
  log_strictMono := sub_one_strictMono
  log_one := sub_one_one
  sum_eq _ := rfl
  eq_eq _ _ := rfl
  lt_eq _ _ := rfl

theorem asciiTerms_unicode : @UnicodeTerms asciiTerms :=
  @UnicodeTerms.mk asciiTerms (fun _ _ => List.map_append) rfl

theorem noteBlock_nonempty : "b000000".toList ≠ [] := List.cons_ne_nil _ _

def noteLocator : SourceLocator :=
  ⟨"b000000".toList, 0, 0, 1, none, noteBlock_nonempty, Nat.zero_lt_one, unpaged_positive⟩

theorem noteId_length (letter : Char) : (List.replicate 64 letter).length = 64 :=
  List.length_replicate

/-- A chunk without headings and title. -/
def noteChunk (letter : Char) (text : Text) (visible : strip text ≠ []) : Chunk where
  chunkId := List.replicate 64 letter
  documentId := 1
  versionId := 2
  order := 0
  text := text
  embeddingText := text
  tokenCount := 1
  locators := [noteLocator]
  headingPath := []
  pageNumber := none
  documentTitle := []
  chunkId_length := noteId_length letter
  text_nonempty := visible
  embeddingText_nonempty := visible
  tokenCount_positive := Nat.le_refl 1
  locators_nonempty := List.cons_ne_nil noteLocator []

theorem refund_visible : strip "refund code".toList ≠ [] := by decide

theorem code_visible : strip "code x1".toList ≠ [] := by decide

def twoNotes : List Chunk :=
  [noteChunk 'a' "refund code".toList refund_visible, noteChunk 'b' "code x1".toList code_visible]

theorem twoNotes_distinct : (twoNotes.map Chunk.chunkId).Nodup := by decide

def twoNotesRanking (chunks : List Chunk) (limit : Nat) : List Chunk :=
  (@rank Rat rationals.toFloatArithmetic asciiTerms (listedSets Text) (listedSets (Text × Text))
    LruCache.empty "code x1".toList chunks limit).1

theorem rank_exact_twoNotes :
    (twoNotesRanking twoNotes 2).map Chunk.chunkId =
      [List.replicate 64 'b', List.replicate 64 'a'] ∧
    (twoNotesRanking twoNotes 2).Nodup ∧
    twoNotesRanking twoNotes.reverse 2 = twoNotesRanking twoNotes 2 ∧
    twoNotesRanking twoNotes 1 <+: twoNotesRanking twoNotes 2 := by
  obtain ⟨-, complete, permuted, -, limited⟩ := @rank_exact Rat _ _ _ rationals asciiTerms
    (listedSets Text) (listedSets (Text × Text)) twoNotes asciiTerms_unicode "code x1".toList
    twoNotes_distinct
  exact ⟨by decide +kernel, (complete LruCache.empty 2 (Nat.le_refl 2)).1,
    permuted LruCache.empty LruCache.empty twoNotes.reverse 2 (List.reverse_perm twoNotes),
    limited LruCache.empty LruCache.empty 1 2 (by decide)⟩

end SupportPilot.Rag
