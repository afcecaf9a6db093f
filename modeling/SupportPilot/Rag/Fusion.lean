import Mathlib.Data.ENat.Basic
import SupportPilot.Rag.Ranking
import SupportPilot.Rag.Search

/-! # Fused rankings

`_fuse_rankings` in exact arithmetic.  The fused ranking has every chunk of the two rankings
once, and sorts by a score that decreases strictly in both ranks (`reciprocal_lt`). -/

namespace SupportPilot.Rag

open Lib FloatArithmetic

/-- No ranking repeats a chunk id, and equal ids mean equal chunks. -/
structure Rankings (dense lexical : List Chunk) : Prop where
  denseIds : (dense.map Chunk.chunkId).Nodup
  lexicalIds : (lexical.map Chunk.chunkId).Nodup
  same : ∀ a ∈ dense, ∀ b ∈ lexical, a.chunkId = b.chunkId → a = b

section Ranks

variable {dense lexical : List Chunk}

theorem Rankings.symm (rankings : Rankings dense lexical) : Rankings lexical dense where
  denseIds := rankings.lexicalIds
  lexicalIds := rankings.denseIds
  same a inLexical b inDense same := (rankings.same b inDense a inLexical same.symm).symm

theorem Rankings.eq_of_id (rankings : Rankings dense lexical) {a b : Chunk}
    (ranked : a ∈ dense ∨ a ∈ lexical) (ranked' : b ∈ dense ∨ b ∈ lexical)
    (same : a.chunkId = b.chunkId) : a = b := by
  obtain inDense | inLexical := ranked
  · obtain inDense' | inLexical' := ranked'
    · exact List.inj_on_of_nodup_map rankings.denseIds inDense inDense' same
    · exact rankings.same a inDense b inLexical' same
  · obtain inDense' | inLexical' := ranked'
    · exact (rankings.same b inDense' a inLexical same.symm).symm
    · exact List.inj_on_of_nodup_map rankings.lexicalIds inLexical inLexical' same

/-- The rank of the chunk, counted from 1, if it is ranked. -/
def HasRank (ranking : List Chunk) (chunk : Chunk) : Option Nat → Prop
  | none => chunk ∉ ranking
  | some rank => ∃ n, rank = n + 1 ∧ ranking[n]? = some chunk

theorem get?_ranks {ranking : List Chunk} (distinct : (ranking.map Chunk.chunkId).Nodup)
    {chunkId : Text} {rank : Nat} : Dict.get? (ranks ranking) chunkId = some rank ↔
      ∃ n chunk, rank = n + 1 ∧ ranking[n]? = some chunk ∧ chunk.chunkId = chunkId := by
  have keys : (ranking.zipIdx.map fun item => (item.1.chunkId, item.2 + 1)).map Prod.fst =
      ranking.map Chunk.chunkId := by
    rw [List.map_map]
    have chunks := congrArg (List.map Chunk.chunkId) (List.zipIdx_map_fst 0 ranking)
    rwa [List.map_map] at chunks
  rw [ranks, Dict.get?_ofPairs (keys ▸ distinct), List.mem_map]
  constructor
  · intro found
    obtain ⟨⟨chunk, n⟩, member, same⟩ := found
    obtain ⟨rfl, rfl⟩ := Prod.mk.inj same
    exact ⟨n, chunk, rfl, List.mem_zipIdx_iff_getElem?.mp member, rfl⟩
  · intro found
    obtain ⟨n, chunk, rfl, member, rfl⟩ := found
    exact ⟨(chunk, n), List.mem_zipIdx_iff_getElem?.mpr member, rfl⟩

theorem Rankings.hasRank (rankings : Rankings dense lexical) {chunk : Chunk}
    (ranked : chunk ∈ dense ∨ chunk ∈ lexical) :
    HasRank dense chunk (Dict.get? (ranks dense) chunk.chunkId) := by
  cases found : Dict.get? (ranks dense) chunk.chunkId with
  | none =>
    intro member
    obtain ⟨n, isNth⟩ := List.mem_iff_getElem?.mp member
    have rank := (get?_ranks rankings.denseIds).mpr ⟨n, chunk, rfl, isNth, rfl⟩
    rw [found] at rank
    cases rank
  | some rank =>
    obtain ⟨n, other, isNext, isNth, same⟩ := (get?_ranks rankings.denseIds).mp found
    have inDense := List.mem_of_getElem? isNth
    rw [rankings.eq_of_id (.inl inDense) ranked same] at isNth
    exact ⟨n, isNext, isNth⟩

/-- The items of `chunks`. -/
theorem Rankings.mem_chunks (rankings : Rankings dense lexical) {item : Text × Chunk} :
    item ∈ Dict.ofPairs ((dense ++ lexical).map fun chunk => (chunk.chunkId, chunk)) ↔
      (item.2 ∈ dense ∨ item.2 ∈ lexical) ∧ item.1 = item.2.chunkId := by
  have listed : ∀ item ∈ Dict.ofPairs ((dense ++ lexical).map fun chunk => (chunk.chunkId, chunk)),
      (item.2 ∈ dense ∨ item.2 ∈ lexical) ∧ item.1 = item.2.chunkId := by
    intro item member
    obtain ⟨chunk, ranked, rfl⟩ := List.mem_map.mp (Dict.mem_ofPairs member)
    exact ⟨List.mem_append.mp ranked, rfl⟩
  constructor
  · exact listed item
  · intro ranked
    obtain ⟨ranked, isKey⟩ := ranked
    have keyed : item.1 ∈ ((dense ++ lexical).map fun chunk => (chunk.chunkId, chunk)).map
        Prod.fst := by
      rw [isKey, List.map_map]
      exact List.mem_map_of_mem (List.mem_append.mpr ranked)
    obtain ⟨other, member, same⟩ := List.mem_map.mp (Dict.mem_keys_ofPairs.2 keyed)
    obtain ⟨otherRanked, otherKey⟩ := listed other member
    have chunk : other.2 = item.2 :=
      rankings.eq_of_id otherRanked ranked (by rw [← otherKey, ← isKey, same])
    rwa [← Prod.ext same chunk]

end Ranks

/-! ## The score -/

/-- The place in a ranking; what is not ranked comes last. -/
def rankOrLast : Option Nat → ℕ∞
  | none => ⊤
  | some rank => rank

/-- The places of a result in the two rankings. -/
def SearchResult.places {F : Type} (result : SearchResult F) : ℕ∞ × ℕ∞ :=
  (rankOrLast result.denseRank, rankOrLast result.lexicalRank)

/-- The result with its ranks swapped. -/
def SearchResult.swapped {F : Type} (result : SearchResult F) : SearchResult F :=
  { result with denseRank := result.lexicalRank, lexicalRank := result.denseRank }

@[simp] theorem SearchResult.swapped_swapped {F : Type} (result : SearchResult F) :
    result.swapped.swapped = result := rfl

section Scores

variable {K : Type} [Field K] [LinearOrder K] [IsStrictOrderedRing K] [ExactArithmetic K]

/-- What a rank adds to the score. -/
def reciprocal : Option Nat → K
  | none => 0
  | some rank => 1 / (PIPELINE.rrfConstant + rank : Nat)

theorem addReciprocal_eq (score : K) (rank : Option Nat) :
    addReciprocal score rank = score + reciprocal rank := by
  cases rank with
  | none => simp [addReciprocal, reciprocal]
  | some rank =>
    have nonzero : (float (PIPELINE.rrfConstant + rank) : K) ≠ 0 := by
      rw [float_eq]
      exact Nat.cast_ne_zero.mpr (by simp [PIPELINE.rrfConstant])
    rw [addReciprocal, ExactArithmetic.add_eq, ExactArithmetic.div_eq _ _ nonzero, float_eq,
      float_eq, Nat.cast_one, reciprocal]

omit [ExactArithmetic K] in
theorem reciprocal_pos (rank : Nat) : (0 : K) < reciprocal (some rank) := by
  rw [reciprocal]
  have positive : (0 : K) < (PIPELINE.rrfConstant + rank : Nat) :=
    Nat.cast_pos.mpr (by simp [PIPELINE.rrfConstant])
  positivity

omit [ExactArithmetic K] in
theorem reciprocal_lt {a b : Option Nat} (better : rankOrLast a < rankOrLast b) :
    (reciprocal b : K) < reciprocal a := by
  cases a with
  | none => exact absurd better not_top_lt
  | some rank =>
    cases b with
    | none => exact reciprocal_pos rank
    | some other =>
      have less : rank < other := Nat.cast_lt.mp better
      have positive : (0 : K) < (PIPELINE.rrfConstant + rank : Nat) :=
        Nat.cast_pos.mpr (by simp [PIPELINE.rrfConstant])
      rw [reciprocal, reciprocal]
      exact one_div_lt_one_div_of_lt positive (Nat.cast_lt.mpr (by omega))

omit [ExactArithmetic K] in
theorem reciprocal_le {a b : Option Nat} (better : rankOrLast a ≤ rankOrLast b) :
    (reciprocal b : K) ≤ reciprocal a := by
  obtain less | same := lt_or_eq_of_le better
  · exact le_of_lt (reciprocal_lt less)
  · have ranks : a = b := by
      cases a <;> cases b <;> simp_all [rankOrLast]
    rw [ranks]

variable {dense lexical : List Chunk}

theorem fusedScore_eq (item : Text × Chunk) :
    (fused dense lexical item : SearchResult K).fusedScore =
      reciprocal (Dict.get? (ranks dense) item.1) + reciprocal (Dict.get? (ranks lexical) item.1) := by
  rw [fused, addReciprocal_eq, addReciprocal_eq, float_eq, Nat.cast_zero, zero_add]

theorem fused_swapped (item : Text × Chunk) :
    (fused lexical dense item : SearchResult K) = (fused dense lexical item).swapped := by
  have scores : (fused lexical dense item : SearchResult K).fusedScore =
      (fused dense lexical item).fusedScore := by rw [fusedScore_eq, fusedScore_eq, add_comm]
  rw [SearchResult.swapped, ← scores]
  rfl

/-- The sort key of the fusion. -/
def fusedKey (result : SearchResult K) : K ×ₗ Text := rankKey (result.fusedScore, result.chunk)

/-- All results, in their order. -/
def fusion (dense lexical : List Chunk) : List (SearchResult K) :=
  Table.orderBy fusedKey ((Dict.ofPairs ((dense ++ lexical).map fun chunk =>
    (chunk.chunkId, chunk))).map (fused dense lexical))

omit [IsStrictOrderedRing K] in
theorem fuseRankings_eq (dense lexical : List Chunk) (resultCount : Nat) :
    (fuseRankings dense lexical resultCount : List (SearchResult K)) =
      (fusion dense lexical).take resultCount := by
  rw [fuseRankings, fusion, ← sortedBy_eq_orderBy fun _ _ => rankedBefore_eq _ _]
  rfl

/-! ## The fused ranking -/

omit [IsStrictOrderedRing K] in
theorem Rankings.mem_fusion (rankings : Rankings dense lexical) {result : SearchResult K} :
    result ∈ fusion dense lexical ↔ (result.chunk ∈ dense ∨ result.chunk ∈ lexical) ∧
      result = fused dense lexical (result.chunk.chunkId, result.chunk) := by
  rw [fusion, Table.mem_orderBy, List.mem_map]
  constructor
  · intro found
    obtain ⟨⟨key, chunk⟩, member, rfl⟩ := found
    obtain ⟨ranked, isKey⟩ := rankings.mem_chunks.mp member
    exact ⟨ranked, by rw [show key = chunk.chunkId from isKey]; rfl⟩
  · intro found
    obtain ⟨ranked, same⟩ := found
    exact ⟨_, rankings.mem_chunks.mpr ⟨ranked, rfl⟩, same.symm⟩

omit [IsStrictOrderedRing K] in
theorem Rankings.mem_chunks_fusion (rankings : Rankings dense lexical) {chunk : Chunk} :
    chunk ∈ (fusion dense lexical : List (SearchResult K)).map SearchResult.chunk ↔
      chunk ∈ dense ∨ chunk ∈ lexical := by
  rw [List.mem_map]
  constructor
  · intro found
    obtain ⟨result, member, rfl⟩ := found
    exact (rankings.mem_fusion.mp member).1
  · intro ranked
    exact ⟨fused dense lexical (chunk.chunkId, chunk), rankings.mem_fusion.mpr ⟨ranked, rfl⟩, rfl⟩

omit [IsStrictOrderedRing K] in
theorem Rankings.nodup_fusion (rankings : Rankings dense lexical) :
    ((fusion dense lexical : List (SearchResult K)).map SearchResult.chunk).Nodup := by
  have keys := Dict.nodup_ofPairs ((dense ++ lexical).map fun chunk => (chunk.chunkId, chunk))
  have ids : (Dict.ofPairs ((dense ++ lexical).map fun chunk => (chunk.chunkId, chunk))).map
      Prod.fst = ((Dict.ofPairs ((dense ++ lexical).map fun chunk =>
        (chunk.chunkId, chunk))).map Prod.snd).map Chunk.chunkId := by
    rw [List.map_map]
    exact List.map_congr_left fun item member => (rankings.mem_chunks.mp member).2
  rw [ids] at keys
  rw [fusion, Table.orderBy, ((List.perm_insertionSort _ _).map _).nodup_iff, List.map_map]
  exact keys.of_map

omit [IsStrictOrderedRing K] in
theorem Rankings.fusedKey_unique (rankings : Rankings dense lexical) {a b : SearchResult K}
    (inFusion : a ∈ fusion dense lexical) (inFusion' : b ∈ fusion dense lexical)
    (same : fusedKey a = fusedKey b) : a = b := by
  obtain ⟨ranked, isFused⟩ := rankings.mem_fusion.mp inFusion
  obtain ⟨ranked', isFused'⟩ := rankings.mem_fusion.mp inFusion'
  have sameId : a.chunk.chunkId = b.chunk.chunkId := congrArg (fun key => (ofLex key).2) same
  rw [isFused, isFused', rankings.eq_of_id ranked ranked' sameId]

/-- Swapping the rankings swaps the ranks and keeps the order. -/
theorem Rankings.fusion_swapped (rankings : Rankings dense lexical) :
    (fusion lexical dense : List (SearchResult K)) =
      (fusion dense lexical).map SearchResult.swapped := by
  apply Table.eq_of_sorted rankings.symm.nodup_fusion.of_map _ _
    (fun a member b member' => rankings.symm.fusedKey_unique member member')
    (Table.orderBy_sorted fusedKey _)
  · exact List.pairwise_map.mpr (Table.orderBy_sorted fusedKey _)
  · exact rankings.nodup_fusion.of_map.map fun a b same => by
      rw [← SearchResult.swapped_swapped a, same, SearchResult.swapped_swapped]
  · intro result
    rw [List.mem_map, rankings.symm.mem_fusion, or_comm, fused_swapped]
    constructor
    · intro found
      obtain ⟨ranked, same⟩ := found
      exact ⟨fused dense lexical (result.chunk.chunkId, result.chunk),
        rankings.mem_fusion.mpr ⟨ranked, rfl⟩, same.symm⟩
    · intro found
      obtain ⟨original, member, rfl⟩ := found
      obtain ⟨ranked, same⟩ := rankings.mem_fusion.mp member
      exact ⟨ranked, congrArg SearchResult.swapped same⟩

/-- A result with better places comes before. -/
theorem Rankings.fusedKey_lt (rankings : Rankings dense lexical) {a b : SearchResult K}
    (inFusion : a ∈ fusion dense lexical) (inFusion' : b ∈ fusion dense lexical)
    (better : a.places < b.places) : fusedKey a < fusedKey b := by
  obtain ⟨-, isFused⟩ := rankings.mem_fusion.mp inFusion
  obtain ⟨-, isFused'⟩ := rankings.mem_fusion.mp inFusion'
  have score : a.fusedScore = reciprocal a.denseRank + reciprocal a.lexicalRank := by
    rw [isFused]
    exact fusedScore_eq _
  have score' : b.fusedScore = reciprocal b.denseRank + reciprocal b.lexicalRank := by
    rw [isFused']
    exact fusedScore_eq _
  have less : b.fusedScore < a.fusedScore := by
    rw [score, score']
    obtain ⟨dense, lexical⟩ | ⟨dense, lexical⟩ := Prod.lt_iff.mp better
    · exact add_lt_add_of_lt_of_le (reciprocal_lt dense) (reciprocal_le lexical)
    · exact add_lt_add_of_le_of_lt (reciprocal_le dense) (reciprocal_lt lexical)
  exact Prod.Lex.toLex_lt_toLex.mpr (.inl (neg_lt_neg less))

/-- The fusion is complete, respects the ranks and is symmetric. -/
theorem fuseRankings_exact (rankings : Rankings dense lexical) :
    ∃ all : List (SearchResult K),
      (∀ resultCount, fuseRankings dense lexical resultCount = all.take resultCount) ∧
      (all.map SearchResult.chunk).Nodup ∧
      (∀ chunk, chunk ∈ all.map SearchResult.chunk ↔ chunk ∈ dense ∨ chunk ∈ lexical) ∧
      (∀ result ∈ all, HasRank dense result.chunk result.denseRank ∧
        HasRank lexical result.chunk result.lexicalRank) ∧
      (∀ (i j : Nat) (a b : SearchResult K), all[i]? = some a → all[j]? = some b →
        a.places < b.places → i < j) ∧
      (∀ (i j : Nat) (a b : SearchResult K), all[i]? = some a → all[j]? = some b →
        a.fusedScore = b.fusedScore → a.chunk.chunkId < b.chunk.chunkId → i < j) ∧
      ∀ resultCount, fuseRankings lexical dense resultCount =
        (fuseRankings dense lexical resultCount).map (SearchResult.swapped (F := K)) := by
  have sorted : (fusion dense lexical : List (SearchResult K)).Pairwise fun a b =>
      fusedKey a ≤ fusedKey b := Table.orderBy_sorted fusedKey _
  refine ⟨fusion dense lexical, fuseRankings_eq dense lexical, rankings.nodup_fusion,
    fun _ => rankings.mem_chunks_fusion, ?_, ?_, ?_, ?_⟩
  · intro result member
    obtain ⟨ranked, isFused⟩ := rankings.mem_fusion.mp member
    rw [isFused]
    exact ⟨rankings.hasRank ranked, rankings.symm.hasRank ranked.symm⟩
  · intro i j a b first second better
    -- the order is that of the key, so each clause is about the keys of two results
    exact Table.lt_of_key_lt sorted first second (rankings.fusedKey_lt
      (List.mem_of_getElem? first) (List.mem_of_getElem? second) better)
  · intro i j a b first second same ids
    exact Table.lt_of_key_lt sorted first second
      (Prod.Lex.toLex_lt_toLex.mpr (.inr ⟨congrArg Neg.neg same, ids⟩))
  · intro resultCount
    rw [fuseRankings_eq, fuseRankings_eq, rankings.fusion_swapped, List.map_take]

end Scores

theorem twoNotes_rankings : Rankings twoNotes twoNotes.tail where
  denseIds := by decide
  lexicalIds := by decide
  same a inDense b inTail same := by
    have inDense' : b ∈ twoNotes := List.mem_of_mem_tail inTail
    exact List.inj_on_of_nodup_map twoNotes_distinct inDense inDense' same

def fusedNotes (dense lexical : List Chunk) : List (SearchResult Rat) :=
  @fuseRankings Rat rationals.toFloatArithmetic dense lexical 2

/-- The second chunk is in both rankings. -/
theorem fuseRankings_exact_twoNotes :
    (fusedNotes twoNotes twoNotes.tail).map (fun result =>
      (result.chunk.chunkId, result.denseRank, result.lexicalRank)) =
        [(List.replicate 64 'b', some 2, some 1), (List.replicate 64 'a', some 1, none)] ∧
    fusedNotes twoNotes.tail twoNotes =
      (fusedNotes twoNotes twoNotes.tail).map SearchResult.swapped := by
  obtain ⟨-, -, -, -, -, -, -, swapped⟩ :=
    @fuseRankings_exact Rat _ _ _ rationals twoNotes twoNotes.tail twoNotes_rankings
  exact ⟨by decide +kernel, swapped 2⟩

end SupportPilot.Rag
