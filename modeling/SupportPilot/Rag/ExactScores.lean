import Mathlib.Algebra.Order.Field.Basic
import Mathlib.Algebra.BigOperators.Group.List.Basic
import Mathlib.Algebra.Order.BigOperators.Group.List
import Mathlib.Data.Rat.Cast.Order
import Mathlib.Order.Interval.Set.Basic
import Mathlib.Tactic.Linarith
import Mathlib.Tactic.Positivity
import SupportPilot.Rag.Terms

/-! # Scores in exact arithmetic

With exact operations and a strictly increasing logarithm, no divisor of the ranking is zero,
and the score of a chunk is positive exactly when the chunk shares a term or an identifier
with the query (`score_pos_iff`). -/

namespace SupportPilot.Rag

open Lib FloatArithmetic

/-- Exact operations, with any strictly increasing logarithm that is 0 at 1.  Nothing is said
about a division by zero. -/
class ExactArithmetic (K : Type) [Field K] [LinearOrder K] extends FloatArithmetic K where
  ofRat_eq : ∀ q : Rat, ofRat q = (q : K)
  add_eq : ∀ x y : K, add x y = x + y
  sub_eq : ∀ x y : K, sub x y = x - y
  mul_eq : ∀ x y : K, mul x y = x * y
  div_eq : ∀ x y : K, y ≠ 0 → div x y = x / y
  neg_eq : ∀ x : K, neg x = -x
  log_strictMono : StrictMonoOn log (Set.Ioi (0 : K))
  log_one : log 1 = 0
  sum_eq : ∀ xs : List K, sum xs = xs.sum
  eq_eq : ∀ x y : K, eq x y = decide (x = y)
  lt_eq : ∀ x y : K, lt x y = decide (x < y)

section Exact

variable {K : Type} [Field K] [LinearOrder K] [IsStrictOrderedRing K] [ExactArithmetic K]

omit [IsStrictOrderedRing K] in
theorem float_eq (n : Nat) : (float n : K) = n := by
  rw [float, ExactArithmetic.ofRat_eq, Rat.cast_natCast]

theorem ofRat_pos {q : Rat} (positive : 0 < q) : (0 : K) < ofRat q := by
  rw [ExactArithmetic.ofRat_eq]
  exact Rat.cast_pos.mpr positive

theorem log_pos {x : K} (above : 1 < x) : 0 < FloatArithmetic.log x := by
  have increasing := ExactArithmetic.log_strictMono (K := K) (Set.mem_Ioi.mpr one_pos)
    (Set.mem_Ioi.mpr (one_pos.trans above)) above
  rwa [ExactArithmetic.log_one] at increasing

/-! ## The weight of a term -/

/-- `frequency`. -/
def frequency (prepared : List (PreparedDocument K)) (term : Text) : Nat :=
  prepared.countP fun document => document.presentTerms.contains term

/-- `frequency + 0.5`. -/
def smoothed (prepared : List (PreparedDocument K)) (term : Text) : K :=
  add (float (frequency prepared term)) (ofRat (1 / 2))

theorem smoothed_pos (prepared : List (PreparedDocument K)) (term : Text) :
    0 < smoothed prepared term := by
  have half : (0 : K) < ofRat (1 / 2) := ofRat_pos (by norm_num)
  rw [smoothed, ExactArithmetic.add_eq, float_eq]
  positivity

theorem inverseFrequency_pos (prepared : List (PreparedDocument K)) (term : Text) :
    0 < inverseFrequency prepared term := by
  have positive := smoothed_pos prepared term
  have half : (0 : K) < ofRat (1 / 2) := ofRat_pos (by norm_num)
  have shape : inverseFrequency prepared term = FloatArithmetic.log (add (float 1)
      (div (add (float (prepared.length - frequency prepared term)) (ofRat (1 / 2)))
        (smoothed prepared term))) := rfl
  rw [shape, ExactArithmetic.div_eq _ _ (ne_of_gt positive)]
  apply log_pos
  simp only [ExactArithmetic.add_eq, float_eq, Nat.cast_one]
  have quotient : 0 < (((prepared.length - frequency prepared term : Nat) : K) +
      ofRat (1 / 2)) / smoothed prepared term := by positivity
  linarith

/-! ## The weighted terms of a chunk -/

/-- The dictionary holds the terms seen so far, with positive weights. -/
def Weighs (seen : List Text) (weighted : List (Text × K)) : Prop :=
  ∀ term, (term ∈ seen → ∃ v, Dict.get? weighted term = some v ∧ 0 < v) ∧
    (term ∉ seen → Dict.get? weighted term = none)

omit [IsStrictOrderedRing K] in
theorem Weighs.getD {seen : List Text} {weighted : List (Text × K)} (weighs : Weighs seen weighted)
    (term : Text) : 0 < (Dict.get? weighted term).getD (float 0) ↔ term ∈ seen := by
  by_cases member : term ∈ seen
  · obtain ⟨v, found, positive⟩ := (weighs term).1 member
    simp [found, positive, member]
  · simp [(weighs term).2 member, member, float_eq]

theorem Weighs.weigh {seen terms : List Text} {weighted : List (Text × K)} {weight : K}
    (positive : 0 < weight) (weighs : Weighs seen weighted) :
    Weighs (seen ++ terms) (weigh weight weighted terms) := by
  induction terms generalizing seen weighted with
  | nil => simpa [Rag.weigh] using weighs
  | cons first terms ih =>
    have next : Weighs (seen ++ [first])
        (Dict.set weighted first (add ((Dict.get? weighted first).getD (float 0)) weight)) := by
      intro term
      rw [Dict.get?_set]
      by_cases same : first = term
      · subst same
        have before : 0 ≤ (Dict.get? weighted first).getD (float 0) := by
          by_cases member : first ∈ seen
          · exact le_of_lt ((weighs.getD first).mpr member)
          · simp [(weighs first).2 member, float_eq]
        rw [if_pos rfl, ExactArithmetic.add_eq]
        exact ⟨fun _ => ⟨_, rfl, by positivity⟩, fun absent => absurd (by simp) absent⟩
      · simpa [same, Ne.symm same] using weighs term
    simpa [Rag.weigh] using ih next

theorem Weighs.foldl {seen : List Text} {weighted : List (Text × K)} {weight : K}
    (positive : 0 < weight) (weighs : Weighs seen weighted) (headings : List (List Text)) :
    Weighs (seen ++ headings.flatten) (headings.foldl (Rag.weigh weight) weighted) := by
  induction headings generalizing seen weighted with
  | nil => simpa using weighs
  | cons heading headings ih =>
    have next : Weighs (seen ++ heading) (Rag.weigh weight weighted heading) := weighs.weigh positive
    simpa using ih next

theorem weighs_counter (terms : List Text) :
    Weighs terms ((Dict.counter terms).map fun item => (item.1, (float item.2 : K))) := by
  intro term
  rw [Dict.get?_map]
  constructor
  · intro member
    obtain ⟨count, found⟩ := Dict.exists_mem_counter member
    have positive := (Dict.mem_counter (Dict.mem_of_get? found)).2
    refine ⟨float count, by rw [found]; rfl, ?_⟩
    rw [float_eq]
    exact_mod_cast positive
  · intro absent
    rw [Option.map_eq_none_iff, Dict.get?_eq_none]
    rintro item member rfl
    exact absent (Dict.mem_counter member).1

section Chunks

variable [TermTables]

/-- The weights of a chunk are positive on its terms, and 0 elsewhere. -/
theorem weighs_prepare (chunk : Chunk) :
    Weighs (prepare chunk : PreparedDocument K).presentTerms
      (prepare chunk : PreparedDocument K).weightedTerms := by
  have headings := (weighs_counter (K := K) (lexicalTerms chunk.text)).foldl
    (ofRat_pos (q := PIPELINE.headingWeight) (by norm_num [PIPELINE.headingWeight]))
    (chunk.headingPath.map lexicalTerms)
  have whole : Weighs (_ ++ lexicalTerms chunk.documentTitle) _ := headings.weigh
    (ofRat_pos (q := PIPELINE.titleWeight) (by norm_num [PIPELINE.titleWeight]))
  simpa [prepare] using whole

theorem length_prepare_nonneg (chunk : Chunk) : 0 ≤ (prepare chunk : PreparedDocument K).length := by
  have heading : (0 : K) < ofRat PIPELINE.headingWeight :=
    ofRat_pos (by norm_num [PIPELINE.headingWeight])
  have title : (0 : K) < ofRat PIPELINE.titleWeight :=
    ofRat_pos (by norm_num [PIPELINE.titleWeight])
  simp only [prepare, ExactArithmetic.add_eq, ExactArithmetic.mul_eq, float_eq]
  positivity

end Chunks

/-! ## The parts of a score -/

omit [ExactArithmetic K] in
/-- A sum of terms that are not negative. -/
theorem sum_pos_iff {xs : List K} (nonneg : ∀ x ∈ xs, 0 ≤ x) : 0 < xs.sum ↔ ∃ x ∈ xs, 0 < x := by
  constructor
  · intro positive
    by_contra none
    have zero : xs.sum = 0 := List.sum_eq_zero fun x member =>
      le_antisymm (not_lt.mp fun above => none ⟨x, member, above⟩) (nonneg x member)
    exact absurd positive (not_lt_of_ge (le_of_eq zero))
  · intro found
    obtain ⟨x, member, above⟩ := found
    exact lt_of_lt_of_le above (List.single_le_sum nonneg x member)

omit [IsStrictOrderedRing K] in
theorem foldl_add_if {α : Type} (p : α → Bool) (f : α → K) (items : List α) (total : K) :
    items.foldl (fun total item => if p item then add total (f item) else total) total =
      total + (items.map fun item => if p item then f item else 0).sum := by
  induction items generalizing total with
  | nil => simp
  | cons item items ih =>
    rw [List.foldl_cons, ih, List.map_cons, List.sum_cons]
    split
    · rw [ExactArithmetic.add_eq, add_assoc]
    · rw [zero_add]

section Scores

variable [TermTables] {query : Text} {prepared : List (PreparedDocument K)}
  {document : PreparedDocument K}

omit [IsStrictOrderedRing K] in
theorem get?_inverse (query : Text) (prepared : List (PreparedDocument K)) (term : Text) :
    Dict.get? (weightsOf query prepared).inverse term =
      if term ∈ lexicalTerms query then some (inverseFrequency prepared term) else none := by
  simp [weightsOf, Dict.get?_tabulated, List.mem_eraseDups]

/-- `inverse.get(term, default)`. -/
theorem getD_inverse (query : Text) (prepared : List (PreparedDocument K)) (term : Text)
    {default : K} (nonneg : 0 ≤ default) :
    0 ≤ (Dict.get? (weightsOf query prepared).inverse term).getD default := by
  rw [get?_inverse]
  split
  · exact le_of_lt (inverseFrequency_pos prepared term)
  · exact nonneg

/-- `document.length / average_length if average_length else 1`. -/
def relativeLength (weights : Weights K) (document : PreparedDocument K) : K :=
  if eq weights.averageLength (float 0) then float 1 else div document.length weights.averageLength

/-- `normalization`. -/
def normalization (weights : Weights K) (document : PreparedDocument K) : K :=
  mul (ofRat PIPELINE.bm25K1) (add (sub (float 1) (ofRat PIPELINE.bm25B))
    (mul (ofRat PIPELINE.bm25B) (relativeLength weights document)))

/-- `term_frequency`. -/
def termFrequency (document : PreparedDocument K) (term : Text) : K :=
  (Dict.get? document.weightedTerms term).getD (float 0)

/-- What a term of the query adds to the score. -/
def contribution (weights : Weights K) (document : PreparedDocument K) (item : Text × Nat) : K :=
  div (mul (mul (mul ((Dict.get? weights.inverse item.1).getD (float 0)) (float item.2))
    (termFrequency document item.1)) (add (ofRat PIPELINE.bm25K1) (float 1)))
    (add (termFrequency document item.1) (normalization weights document))

omit [IsStrictOrderedRing K] [TermTables] in
theorem termScore_eq (weights : Weights K) (document : PreparedDocument K) :
    termScore weights document = ((Dict.counter weights.terms).map fun item =>
      if lt (float 0) (termFrequency document item.1) then contribution weights document item
      else 0).sum := by
  have folded := foldl_add_if (fun item : Text × Nat => lt (float 0) (termFrequency document item.1))
    (contribution weights document) (Dict.counter weights.terms) (float 0)
  have zero : (float 0 : K) = 0 := by rw [float_eq, Nat.cast_zero]
  exact folded.trans (by rw [zero, zero_add])

/-- The documents have lengths, and there is one. -/
structure Measured (prepared : List (PreparedDocument K)) : Prop where
  some : prepared ≠ []
  nonneg : ∀ document ∈ prepared, 0 ≤ document.length

theorem averageLength_eq (measured : Measured prepared) :
    (weightsOf query prepared).averageLength =
      (prepared.map PreparedDocument.length).sum / prepared.length := by
  have positive := List.length_pos_of_ne_nil measured.some
  have count : (float prepared.length : K) ≠ 0 := by
    rw [float_eq]
    exact Nat.cast_ne_zero.mpr (Nat.ne_of_gt positive)
  rw [weightsOf, ExactArithmetic.div_eq _ _ count, ExactArithmetic.sum_eq, float_eq]

theorem averageLength_nonneg (measured : Measured prepared) :
    0 ≤ (weightsOf query prepared).averageLength := by
  rw [averageLength_eq measured]
  have total : 0 ≤ (prepared.map PreparedDocument.length).sum := by
    apply List.sum_nonneg
    intro x member
    obtain ⟨document, isPrepared, rfl⟩ := List.mem_map.mp member
    exact measured.nonneg document isPrepared
  positivity

theorem relativeLength_nonneg (measured : Measured prepared) (member : document ∈ prepared) :
    0 ≤ relativeLength (weightsOf query prepared) document := by
  have average : 0 ≤ (weightsOf query prepared).averageLength := averageLength_nonneg measured
  have length := measured.nonneg document member
  rw [relativeLength, ExactArithmetic.eq_eq]
  split
  · rw [float_eq]
    positivity
  next differs =>
    have nonzero : (weightsOf query prepared).averageLength ≠ 0 := by
      simpa [float_eq] using differs
    rw [ExactArithmetic.div_eq _ _ nonzero]
    positivity

theorem normalization_pos (measured : Measured prepared) (member : document ∈ prepared) :
    0 < normalization (weightsOf query prepared) document := by
  have relative : 0 ≤ relativeLength (weightsOf query prepared) document :=
    relativeLength_nonneg measured member
  have scale : (0 : K) < ofRat PIPELINE.bm25K1 := ofRat_pos (by norm_num [PIPELINE.bm25K1])
  have slope : (0 : K) < ofRat PIPELINE.bm25B := ofRat_pos (by norm_num [PIPELINE.bm25B])
  have constant : (0 : K) < 1 - ofRat PIPELINE.bm25B := by
    rw [ExactArithmetic.ofRat_eq, sub_pos, ← Rat.cast_one, Rat.cast_lt]
    norm_num [PIPELINE.bm25B]
  simp only [normalization, ExactArithmetic.mul_eq, ExactArithmetic.add_eq, ExactArithmetic.sub_eq,
    float_eq, Nat.cast_one]
  positivity

theorem contribution_pos (measured : Measured prepared) (member : document ∈ prepared)
    {item : Text × Nat} (counted : item ∈ Dict.counter (lexicalTerms query))
    (present : 0 < termFrequency document item.1) :
    0 < contribution (weightsOf query prepared) document item := by
  obtain ⟨isTerm, count⟩ := Dict.mem_counter counted
  have normalized : 0 < normalization (weightsOf query prepared) document :=
    normalization_pos measured member
  have divisor := add_pos present normalized
  have inverse := inverseFrequency_pos prepared item.1
  have scale : (0 : K) < ofRat PIPELINE.bm25K1 := ofRat_pos (by norm_num [PIPELINE.bm25K1])
  have times : (0 : K) < (item.2 : K) := Nat.cast_pos.mpr count
  rw [contribution, ExactArithmetic.add_eq (termFrequency document item.1),
    ExactArithmetic.div_eq _ _ (ne_of_gt divisor), get?_inverse, if_pos isTerm]
  simp only [Option.getD_some, ExactArithmetic.mul_eq, ExactArithmetic.add_eq, float_eq,
    Nat.cast_one]
  positivity

/-- The terms of the score are not negative. -/
theorem contribution_nonneg (measured : Measured prepared) (member : document ∈ prepared) :
    ∀ x ∈ (Dict.counter (lexicalTerms query)).map fun item =>
      if lt (float 0) (termFrequency document item.1) then
        contribution (weightsOf query prepared) document item else 0, 0 ≤ x := by
  intro x listed
  obtain ⟨item, counted, rfl⟩ := List.mem_map.mp listed
  split
  next present =>
    rw [ExactArithmetic.lt_eq, decide_eq_true_eq, float_eq, Nat.cast_zero] at present
    exact le_of_lt (contribution_pos measured member counted present)
  · exact le_refl 0

theorem termScore_nonneg (measured : Measured prepared) (member : document ∈ prepared) :
    0 ≤ termScore (weightsOf query prepared) document := by
  rw [termScore_eq]
  exact List.sum_nonneg (contribution_nonneg measured member)

/-- The chunk has a term of the query. -/
theorem termScore_pos_iff (measured : Measured prepared) (member : document ∈ prepared)
    (weighs : Weighs document.presentTerms document.weightedTerms) :
    0 < termScore (weightsOf query prepared) document ↔
      ∃ term ∈ lexicalTerms query, term ∈ document.presentTerms := by
  have zero : (float 0 : K) = 0 := by rw [float_eq, Nat.cast_zero]
  rw [termScore_eq]
  refine (sum_pos_iff (contribution_nonneg measured member)).trans ?_
  constructor
  · intro found
    obtain ⟨x, listed, positive⟩ := found
    obtain ⟨item, counted, rfl⟩ := List.mem_map.mp listed
    split at positive
    next present =>
      rw [ExactArithmetic.lt_eq, decide_eq_true_eq, zero] at present
      exact ⟨item.1, (Dict.mem_counter counted).1, (weighs.getD item.1).mp present⟩
    · exact absurd positive (lt_irrefl 0)
  · intro found
    obtain ⟨term, isTerm, present⟩ := found
    obtain ⟨count, counted⟩ := Dict.exists_mem_counter isTerm
    have isItem := Dict.mem_of_get? counted
    have frequent : 0 < termFrequency document term := (weighs.getD term).mpr present
    refine ⟨_, List.mem_map_of_mem isItem, ?_⟩
    rw [ExactArithmetic.lt_eq, zero, if_pos (decide_eq_true frequent)]
    exact contribution_pos measured member isItem frequent

/-! ## The bonus for identifiers -/

theorem exactBonus_terms_pos (query : Text) (prepared : List (PreparedDocument K))
    (identifiers : List Text) : ∀ x ∈ identifiers.map fun identifier =>
      (Dict.get? (weightsOf query prepared).inverse identifier).getD (float 1), 0 < x := by
  intro x listed
  obtain ⟨identifier, -, rfl⟩ := List.mem_map.mp listed
  rw [get?_inverse]
  split
  · exact inverseFrequency_pos prepared identifier
  · rw [Option.getD_none, float_eq, Nat.cast_one]
    exact one_pos

section Identifiers

variable [HashedSet Text]

/-- `exact_identifier_bonus * sum(...)`. -/
def exactBonus (weights : Weights K) (document : PreparedDocument K) : K :=
  mul (ofRat PIPELINE.exactIdentifierBonus)
    (sum ((HashedSet.inter weights.identifiers document.identifiers).map fun identifier =>
      (Dict.get? weights.inverse identifier).getD (float 1)))

omit [IsStrictOrderedRing K] [TermTables] in
theorem exactBonus_eq (weights : Weights K) (document : PreparedDocument K) :
    exactBonus weights document = ofRat PIPELINE.exactIdentifierBonus *
      ((HashedSet.inter weights.identifiers document.identifiers).map fun identifier =>
        (Dict.get? weights.inverse identifier).getD (float 1)).sum := by
  rw [exactBonus, ExactArithmetic.mul_eq, ExactArithmetic.sum_eq]

theorem exactBonus_nonneg (query : Text) (prepared : List (PreparedDocument K))
    (document : PreparedDocument K) : 0 ≤ exactBonus (weightsOf query prepared) document := by
  have bonus : (0 : K) < ofRat PIPELINE.exactIdentifierBonus :=
    ofRat_pos (by norm_num [PIPELINE.exactIdentifierBonus])
  rw [exactBonus_eq]
  apply mul_nonneg (le_of_lt bonus)
  exact List.sum_nonneg fun x listed => le_of_lt (exactBonus_terms_pos query prepared _ x listed)

/-- The chunk has an identifier of the query. -/
theorem exactBonus_pos_iff (query : Text) (prepared : List (PreparedDocument K))
    (document : PreparedDocument K) : 0 < exactBonus (weightsOf query prepared) document ↔
      ∃ identifier ∈ identifiers query, identifier ∈ document.identifiers := by
  have bonus : (0 : K) < ofRat PIPELINE.exactIdentifierBonus :=
    ofRat_pos (by norm_num [PIPELINE.exactIdentifierBonus])
  have terms := exactBonus_terms_pos query prepared
    (HashedSet.inter (weightsOf query prepared).identifiers document.identifiers)
  rw [exactBonus_eq, mul_pos_iff_of_pos_left bonus,
    sum_pos_iff fun x listed => le_of_lt (terms x listed)]
  constructor
  · intro found
    obtain ⟨x, listed, -⟩ := found
    obtain ⟨identifier, shared, rfl⟩ := List.mem_map.mp listed
    exact ⟨identifier, (HashedSet.mem_inter _ _ _).mp shared⟩
  · intro found
    obtain ⟨identifier, inQuery, inDocument⟩ := found
    have shared := (HashedSet.mem_inter _ _ _).mpr ⟨inQuery, inDocument⟩
    have listed := List.mem_map_of_mem
      (f := fun identifier => (Dict.get? (weightsOf query prepared).inverse identifier).getD
        (float 1)) shared
    exact ⟨_, listed, terms _ listed⟩

end Identifiers

/-! ## The bonus for phrases -/

section Phrases

variable [HashedSet (Text × Text)]

/-- `query_bigrams & document_bigrams`. -/
def sharedPairs (weights : Weights K) (document : PreparedDocument K) : List (Text × Text) :=
  HashedSet.inter (pairwise weights.terms) (document.sequences.flatMap pairwise)

/-- `phrase_bonus * sum(...)`. -/
def phraseBonuses (weights : Weights K) (document : PreparedDocument K) : K :=
  mul (ofRat PIPELINE.phraseBonus) (sum ((sharedPairs weights document).map fun pair =>
    div (add ((Dict.get? weights.inverse pair.1).getD (float 0))
      ((Dict.get? weights.inverse pair.2).getD (float 0))) (float 2)))

theorem phraseBonuses_nonneg (query : Text) (prepared : List (PreparedDocument K))
    (document : PreparedDocument K) : 0 ≤ phraseBonuses (weightsOf query prepared) document := by
  have bonus : (0 : K) < ofRat PIPELINE.phraseBonus := ofRat_pos (by norm_num [PIPELINE.phraseBonus])
  have zero : (0 : K) ≤ float 0 := by rw [float_eq, Nat.cast_zero]
  have two : (float 2 : K) ≠ 0 := by
    rw [float_eq]
    exact Nat.cast_ne_zero.mpr (by decide)
  rw [phraseBonuses, ExactArithmetic.mul_eq, ExactArithmetic.sum_eq]
  apply mul_nonneg (le_of_lt bonus)
  apply List.sum_nonneg
  intro x listed
  obtain ⟨pair, -, rfl⟩ := List.mem_map.mp listed
  have left := getD_inverse query prepared pair.1 zero
  have right := getD_inverse query prepared pair.2 zero
  have half : (0 : K) ≤ float 2 := by
    rw [float_eq]
    positivity
  rw [ExactArithmetic.div_eq _ _ two, ExactArithmetic.add_eq]
  exact div_nonneg (add_nonneg left right) half

omit [IsStrictOrderedRing K] in
theorem phraseBonuses_eq_zero (query : Text) (prepared : List (PreparedDocument K))
    (none : sharedPairs (weightsOf query prepared) document = []) :
    phraseBonuses (weightsOf query prepared) document = 0 := by
  rw [phraseBonuses, none, ExactArithmetic.mul_eq, ExactArithmetic.sum_eq, List.map_nil,
    List.sum_nil, mul_zero]

omit [IsStrictOrderedRing K] in
/-- The terms of a shared phrase are shared. -/
theorem shared_of_pair (presentTerms : document.presentTerms = document.sequences.flatten)
    {pair : Text × Text} (shared : pair ∈ sharedPairs (weightsOf query prepared) document) :
    pair.1 ∈ lexicalTerms query ∧ pair.1 ∈ document.presentTerms := by
  obtain ⟨inQuery, inDocument⟩ := (HashedSet.mem_inter _ _ _).mp shared
  obtain ⟨terms, isSequence, inTerms⟩ := List.mem_flatMap.mp inDocument
  rw [presentTerms]
  exact ⟨(List.of_mem_zip inQuery).1,
    List.mem_flatten.mpr ⟨terms, isSequence, (List.of_mem_zip inTerms).1⟩⟩

end Phrases

omit [IsStrictOrderedRing K] [TermTables] in
theorem score_eq [HashedSet Text] [HashedSet (Text × Text)] (weights : Weights K) (document : PreparedDocument K) :
    score weights document = termScore weights document + exactBonus weights document +
      phraseBonuses weights document := by
  have shape : score weights document = add (add (termScore weights document)
    (exactBonus weights document)) (phraseBonuses weights document) := rfl
  rw [shape, ExactArithmetic.add_eq, ExactArithmetic.add_eq]

/-- The query and the chunk have a lexical term or an identifier in common. -/
def Shares (query : Text) (chunk : Chunk) : Prop :=
  (∃ term ∈ lexicalTerms query, ∃ text ∈ chunk.text :: (chunk.headingPath ++ [chunk.documentTitle]),
    term ∈ lexicalTerms text) ∨
  ∃ identifier ∈ identifiers query, identifier ∈
    identifiers (joined (chunk.text :: (chunk.headingPath ++ [chunk.documentTitle])))

omit [IsStrictOrderedRing K] in
theorem mem_presentTerms {chunk : Chunk} {term : Text} :
    term ∈ (prepare chunk : PreparedDocument K).presentTerms ↔
      ∃ text ∈ chunk.text :: (chunk.headingPath ++ [chunk.documentTitle]),
        term ∈ lexicalTerms text := by
  simp [prepare]

/-- A positive score means that something is shared. -/
theorem score_pos_iff [HashedSet Text] [HashedSet (Text × Text)] {chunk : Chunk}
    (measured : Measured prepared) (member : prepare chunk ∈ prepared) :
    0 < score (weightsOf query prepared) (prepare chunk) ↔ Shares query chunk := by
  have terms : 0 < termScore (weightsOf query prepared) (prepare chunk) ↔
      ∃ term ∈ lexicalTerms query, term ∈ (prepare chunk : PreparedDocument K).presentTerms :=
    termScore_pos_iff measured member (weighs_prepare chunk)
  have bonus : 0 < exactBonus (weightsOf query prepared) (prepare chunk) ↔
      ∃ identifier ∈ identifiers query, identifier ∈
        identifiers (joined (chunk.text :: (chunk.headingPath ++ [chunk.documentTitle]))) :=
    exactBonus_pos_iff query prepared (prepare chunk)
  have termsNonneg : 0 ≤ termScore (weightsOf query prepared) (prepare chunk) :=
    termScore_nonneg measured member
  have bonusNonneg := exactBonus_nonneg query prepared (prepare chunk)
  have phrases := phraseBonuses_nonneg query prepared (prepare chunk)
  simp only [mem_presentTerms] at terms
  rw [score_eq, Shares, ← terms, ← bonus]
  constructor
  · intro positive
    by_contra none
    rw [not_or] at none
    -- without a shared term there is no shared phrase
    have noPairs : sharedPairs (weightsOf query prepared) (prepare chunk) = [] := by
      rw [List.eq_nil_iff_forall_not_mem]
      intro pair shared
      have found : pair.1 ∈ lexicalTerms query ∧
          pair.1 ∈ (prepare chunk : PreparedDocument K).presentTerms := shared_of_pair rfl shared
      rw [mem_presentTerms] at found
      exact none.1 (terms.mpr ⟨pair.1, found⟩)
    rw [phraseBonuses_eq_zero query prepared noPairs] at positive
    linarith [not_lt.mp none.1, not_lt.mp none.2]
  · rintro (shared | shared) <;> linarith

end Scores

end Exact

end SupportPilot.Rag
