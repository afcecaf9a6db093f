import SupportPilot.Rag.Ranking

/-! # The apostrophes of a text

`lexical_terms` straightens typographic apostrophes and `_identifiers` does not.  They agree
where no identifier is written with one (`Plain`), and then the ranking does not depend on
the spelling (`rank_respelled`).  Elsewhere a text with just that identifier tells the
spellings apart (`query_indifferent_iff`, `chunk_indifferent_iff`). -/

namespace SupportPilot.Rag

open Lib FloatArithmetic

/-! ## Respelling -/

/-- Some typographic apostrophes are replaced by straight ones. -/
def Respelled : Text → Text → Prop :=
  List.Forall₂ fun c c' => c' = c ∨ c = typographic ∧ c' = '\''

theorem Respelled.refl (text : Text) : Respelled text text :=
  List.forall₂_same.mpr fun _ _ => .inl rfl

theorem respelled_straightened (text : Text) : Respelled text (straightened text) := by
  induction text with
  | nil => exact .nil
  | cons c rest ih =>
    rw [straightened_cons]
    refine .cons ?_ ih
    split
    next same => exact .inr ⟨same, rfl⟩
    · exact .inl rfl

theorem Respelled.straightened_eq {text text' : Text} (respelled : Respelled text text') :
    straightened text' = straightened text := by
  induction respelled with
  | nil => rfl
  | @cons c c' rest rest' head _ ih =>
    rw [straightened_cons, straightened_cons, ih]
    obtain rfl | ⟨rfl, rfl⟩ := head
    · rfl
    · rfl

theorem Respelled.mem {text text' : Text} (respelled : Respelled text text')
    (member : typographic ∈ text') : typographic ∈ text := by
  induction respelled with
  | nil => exact member
  | cons head _ ih =>
    obtain first | later := List.mem_cons.mp member
    · obtain same | ⟨-, straight⟩ := head
      · rw [first, same]
        exact List.mem_cons_self
      · rw [straight] at first
        exact absurd first (by decide)
    · exact .tail _ (ih later)

theorem Respelled.append {a a' b b' : Text} (left : Respelled a a') (right : Respelled b b') :
    Respelled (a ++ b) (a' ++ b') := List.rel_append left right

theorem Respelled.slice {text text' : Text} (respelled : Respelled text text') (start stop : Nat) :
    Respelled (slice start stop text) (slice start stop text') :=
  List.forall₂_drop start (List.forall₂_take stop respelled)

section Identifiers

variable [TermTables]

/-- No identifier is written with a typographic apostrophe. -/
def Plain (text : Text) : Prop :=
  ∀ written ∈ termSlices text, typographic ∈ written →
    isIdentifier (TermTables.casefold (straightened written)) = false

theorem Plain.respelled {text text' : Text} (plain : Plain text)
    (respelled : Respelled text text') : Plain text' := by
  intro written' member inside
  rw [termSlices, respelled.straightened_eq] at member
  obtain ⟨x, isTerm, rfl⟩ := List.mem_map.mp member
  have slices := respelled.slice x.start x.stop
  rw [slices.straightened_eq]
  exact plain _ (List.mem_map_of_mem isTerm) (slices.mem inside)

variable [UnicodeTerms]

/-- A plain text has the identifiers of the straightened one. -/
theorem Plain.identifiers_eq {text : Text} (plain : Plain text) :
    identifiers text = identifiers (straightened text) := by
  rw [Rag.identifiers_eq, Rag.identifiers_eq, termTexts_eq, ← map_straightened_termSlices]
  unfold Plain at plain
  generalize termSlices text = slices at plain
  induction slices with
  | nil => rfl
  | cons written slices ih =>
    have others := ih fun written member => plain written (.tail _ member)
    rw [List.flatMap_cons, List.map_append, List.filter_append, others, List.map_cons,
      List.map_cons, ← List.singleton_append, List.filter_append]
    congr 1
    by_cases inside : typographic ∈ written
    · -- neither the term nor a part of it is an identifier
      have whole := plain written List.mem_cons_self inside
      have none : ((parts written).map TermTables.casefold).filter isIdentifier = [] := by
        rw [List.filter_eq_nil_iff]
        intro value listed isId
        obtain ⟨part, member, rfl⟩ := List.mem_map.mp listed
        rw [isIdentifier_part member isId] at whole
        cases whole
      rw [none]
      simp [whole]
    · rw [parts, List.splitOn_eq_singleton inside, straightened_eq_self inside, List.map_singleton]

/-- The identifiers of a plain text are among its terms. -/
theorem Plain.identifiers_subset {text : Text} (plain : Plain text) :
    identifiers text ⊆ lexicalTerms text := by
  intro value member
  rw [plain.identifiers_eq, Rag.identifiers_eq, ← map_straightened_termSlices, List.mem_filter,
    List.map_map, List.mem_map] at member
  obtain ⟨⟨written, isTerm, rfl⟩, isId⟩ := member
  exact mem_lexicalTerms isTerm isId

end Identifiers

/-! ## The ranking of respelled texts -/

/-- `source` in `_prepare`. -/
def source (chunk : Chunk) : Text :=
  joined (chunk.text :: (chunk.headingPath ++ [chunk.documentTitle]))

/-- The same chunk, with its texts respelled. -/
structure RespelledChunk (chunk chunk' : Chunk) : Prop where
  chunkId : chunk'.chunkId = chunk.chunkId
  text : Respelled chunk.text chunk'.text
  headingPath : List.Forall₂ Respelled chunk.headingPath chunk'.headingPath
  documentTitle : Respelled chunk.documentTitle chunk'.documentTitle

theorem respelled_joined {texts texts' : List Text} (respelled : List.Forall₂ Respelled texts texts') :
    Respelled (joined texts) (joined texts') := by
  induction respelled with
  | nil => exact .nil
  | @cons text text' rest rest' head others ih =>
    cases others with
    | nil => simpa [joined] using head
    | cons _ _ =>
      rw [joined, joined, List.intercalate_cons_cons, List.intercalate_cons_cons]
      exact (head.append (.refl [' '])).append ih

theorem RespelledChunk.source {chunk chunk' : Chunk} (respelled : RespelledChunk chunk chunk') :
    Respelled (source chunk) (source chunk') :=
  respelled_joined (.cons respelled.text
    (List.rel_append respelled.headingPath (.cons respelled.documentTitle .nil)))

theorem straightened_visible {text : Text} (visible : strip text ≠ []) :
    strip (straightened text) ≠ [] := by
  intro blank
  apply visible
  rw [strip_eq_nil] at blank ⊢
  intro c member
  have image := blank _ (List.mem_map_of_mem member)
  split at image
  · exact absurd image (by decide)
  · exact image

/-- The chunk with its texts straightened. -/
def Chunk.straightened (chunk : Chunk) : Chunk :=
  { chunk with
    text := Rag.straightened chunk.text
    headingPath := chunk.headingPath.map Rag.straightened
    documentTitle := Rag.straightened chunk.documentTitle
    text_nonempty := straightened_visible chunk.text_nonempty }

theorem Chunk.respelled_straightened (chunk : Chunk) : RespelledChunk chunk chunk.straightened where
  chunkId := rfl
  text := Rag.respelled_straightened chunk.text
  headingPath := List.forall₂_map_right_iff.mpr
    (List.forall₂_same.mpr fun heading _ => Rag.respelled_straightened heading)
  documentTitle := Rag.respelled_straightened chunk.documentTitle

theorem straightened_joined (texts : List Text) :
    straightened (joined texts) = joined (texts.map straightened) := by
  induction texts with
  | nil => rfl
  | cons text rest ih =>
    cases rest with
    | nil => simp [joined]
    | cons next rest =>
      rw [joined, joined, List.map_cons, List.map_cons, List.intercalate_cons_cons,
        List.intercalate_cons_cons, straightened_append, straightened_append]
      congr 1

theorem Chunk.source_straightened (chunk : Chunk) :
    source chunk.straightened = Rag.straightened (source chunk) := by
  rw [source, source, straightened_joined, List.map_cons, List.map_append, List.map_singleton]
  rfl

theorem Respelled.lexicalTerms_eq [TermTables] {text text' : Text}
    (respelled : Respelled text text') : lexicalTerms text' = lexicalTerms text := by
  rw [lexicalTerms, lexicalTerms, respelled.straightened_eq]

section Ranking

variable {F : Type} [FloatArithmetic F] [TermTables] [UnicodeTerms]

theorem Plain.identifiers_respelled {text text' : Text} (plain : Plain text)
    (respelled : Respelled text text') : identifiers text' = identifiers text := by
  rw [plain.identifiers_eq, (plain.respelled respelled).identifiers_eq, respelled.straightened_eq]

/-- The documents differ in their chunks at most, which have the same identifier. -/
structure Alike (document document' : PreparedDocument F) : Prop where
  rest : document' = { document with chunk := document'.chunk }
  chunkId : document'.chunk.chunkId = document.chunk.chunkId

theorem RespelledChunk.alike {chunk chunk' : Chunk} (respelled : RespelledChunk chunk chunk')
    (plain : Plain (Rag.source chunk)) :
    Alike (prepare chunk : PreparedDocument F) (prepare chunk') := by
  have headings := map_eq_of_forall₂ (f := lexicalTerms) (g := lexicalTerms)
    (fun _ _ (same : Respelled _ _) => same.lexicalTerms_eq) respelled.headingPath
  have same := plain.identifiers_respelled respelled.source
  rw [Rag.source, Rag.source] at same
  constructor
  · simp only [prepare, headings, same, respelled.text.lexicalTerms_eq,
      respelled.documentTitle.lexicalTerms_eq]
  · exact respelled.chunkId

variable [HashedSet Text] [HashedSet (Text × Text)]

/-- The scores and identifiers that are sorted. -/
def scoredIds (query : Text) (prepared : List (PreparedDocument F)) : List (F × Text) :=
  (prepared.map fun document => (score (weightsOf query prepared) document,
    document.chunk.chunkId)).filter fun item => lt (float 0) item.1

/-- `rankedBefore`, for the identifiers. -/
def idBefore (left right : F × Text) : Bool :=
  if eq (neg left.1) (neg right.1) then left.2 < right.2 else lt (neg left.1) (neg right.1)

omit [UnicodeTerms] in
theorem rankPrepared_ids (query : Text) (prepared : List (PreparedDocument F)) (limit : Nat) :
    (rankPrepared query prepared limit).map Chunk.chunkId =
      ((sortedBy idBefore (scoredIds query prepared)).take limit).map Prod.snd := by
  have scored : scoredIds query prepared =
      ((prepared.map fun document => (score (weightsOf query prepared) document,
        document.chunk)).filter fun item => lt (float 0) item.1).map fun item =>
          (item.1, item.2.chunkId) := by
    rw [scoredIds, List.filter_map, List.filter_map, List.map_map]
    rfl
  have sorted := List.map_insertionSort (fun left right => (!rankedBefore right left) = true)
    (fun left right => (!idBefore right left) = true)
    (fun item : F × Chunk => (item.1, item.2.chunkId))
    ((prepared.map fun document => (score (weightsOf query prepared) document,
      document.chunk)).filter fun item => lt (float 0) item.1) fun _ _ _ _ => Iff.rfl
  rw [scored, sortedBy, ← sorted, ← List.map_take, List.map_map, rankPrepared, List.map_map]
  rfl

omit [UnicodeTerms] in
theorem rankPrepared_alike {query query' : Text} {prepared prepared' : List (PreparedDocument F)}
    (terms : lexicalTerms query' = lexicalTerms query)
    (ids : identifiers query' = identifiers query) (alike : List.Forall₂ Alike prepared prepared')
    (limit : Nat) : (rankPrepared query' prepared' limit).map Chunk.chunkId =
      (rankPrepared query prepared limit).map Chunk.chunkId := by
  have lengths : prepared'.map PreparedDocument.length = prepared.map PreparedDocument.length :=
    map_eq_of_forall₂ (fun _ _ same => by rw [same.rest]) alike
  have present : prepared'.map PreparedDocument.presentTerms =
      prepared.map PreparedDocument.presentTerms :=
    map_eq_of_forall₂ (fun _ _ same => by rw [same.rest]) alike
  have inverse : ∀ term, inverseFrequency prepared' term = inverseFrequency prepared term := by
    intro term
    have counts := congrArg (List.countP fun terms => terms.contains term) present
    rw [List.countP_map, List.countP_map] at counts
    simp only [Function.comp_def] at counts
    simp only [inverseFrequency, counts, ← alike.length_eq]
  have weights : weightsOf query' prepared' = weightsOf query prepared := by
    simp only [weightsOf, terms, ids, inverse, lengths, alike.length_eq]
  have scored : scoredIds query' prepared' = scoredIds query prepared := by
    rw [scoredIds, weights, scoredIds]
    congr 1
    apply map_eq_of_forall₂ _ alike
    intro document document' same
    rw [same.chunkId, same.rest]
    rfl
  rw [rankPrepared_ids, rankPrepared_ids, scored]

/-- The ranking does not depend on how the apostrophes of plain texts are written. -/
theorem rank_respelled (cache cache' : PreparedCache F) {query query' : Text}
    {chunks chunks' : List Chunk} (limit : Nat) (plain : Plain query)
    (respelled : Respelled query query')
    (prepared : List.Forall₂ (Alike (F := F)) (chunks.map prepare) (chunks'.map prepare)) :
    (rank cache' query' chunks' limit).1.map Chunk.chunkId =
      (rank cache query chunks limit).1.map Chunk.chunkId := by
  have terms := respelled.lexicalTerms_eq
  have size := prepared.length_eq
  rw [List.length_map, List.length_map] at size
  have empty : chunks'.isEmpty = chunks.isEmpty := by
    rw [Bool.eq_iff_iff, List.isEmpty_iff_length_eq_zero, List.isEmpty_iff_length_eq_zero, size]
  rw [rank_fst, rank_fst, terms, empty]
  split
  · rfl
  · exact rankPrepared_alike terms (plain.identifiers_respelled respelled) prepared limit

end Ranking

/-! ## Texts with one identifier -/

/-- The identifier, with a part behind it that is too long to be a term elsewhere. -/
def probe (identifier : Text) (n : Nat) : Text :=
  identifier ++ typographic :: List.replicate (n + 1) 'z'

theorem probe_visible (identifier : Text) (n : Nat) : strip (probe identifier n) ≠ [] := by
  intro blank
  have member : 'z' ∈ probe identifier n := by simp [probe]
  exact absurd (strip_eq_nil.1 blank 'z' member) (by decide)

section Probes

variable [TermTables]

theorem termLength_append {u : Text} (full : termLength u = u.length) (rest : Text) :
    termLength (u ++ rest) = u.length + termLength rest := by
  induction u with
  | nil => simp
  | cons c u ih =>
    rw [termLength] at full
    split at full
    next taken =>
      have shorter := ih (by simpa using full)
      have longer : (isWord c || (isJoiner c && (u ++ rest).head?.any isWord)) = true := by
        cases u with
        | nil => simp_all
        | cons d u => simpa using taken
      rw [List.cons_append, termLength, if_pos longer, shorter, List.length_cons]
      omega
    · cases full

theorem termLength_take (text : Text) : termLength (text.take (termLength text)) = termLength text := by
  induction text with
  | nil => rfl
  | cons c rest ih =>
    rw [termLength]
    split
    next taken =>
      have kept : (isWord c || (isJoiner c && (rest.take (termLength rest)).head?.any isWord)) =
          true := by
        cases rest with
        | nil => simpa using taken
        | cons d rest => cases word : isWord d <;> simp_all [termLength]
      rw [List.take_succ_cons, termLength, if_pos kept, ih]
    · rfl

variable [UnicodeTerms]

/-- A term starts with a word character and is taken whole. -/
theorem exists_term {text written : Text} (isTerm : written ∈ termSlices text) :
    (∃ c rest, written = c :: rest ∧ isWord c = true) ∧
      termLength (straightened written) = written.length := by
  induction length : text.length using Nat.strong_induction_on generalizing text with
  | _ n shorter =>
    subst length
    cases text with
    | nil => cases isTerm
    | cons c rest =>
      cases word : isWord c with
      | false =>
        rw [termSlices_skip rest word] at isTerm
        exact shorter rest.length (Nat.lt_succ_self _) isTerm rfl
      | true =>
        have first : isWord (if c = typographic then '\'' else c) = true := by
          rw [isWord_straight, word]
        have within := termLength_le (straightened (c :: rest))
        rw [length_straightened] at within
        have positive : 0 < termLength (straightened (c :: rest)) := by
          simp [straightened_cons, termLength, first]
        rw [termSlices_word rest word] at isTerm
        obtain rfl | later := List.mem_cons.mp isTerm
        · obtain ⟨m, size⟩ := Nat.exists_eq_succ_of_ne_zero (Nat.ne_of_gt positive)
          refine ⟨⟨c, rest.take m, by rw [size, List.take_succ_cons], word⟩, ?_⟩
          rw [straightened_take, termLength_take, List.length_take, Nat.min_eq_left within]
        · refine shorter _ ?_ later rfl
          rw [List.length_drop]
          omega

/-- The text is one term, is written with straight apostrophes, and is an identifier. -/
structure Identifies (identifier : Text) : Prop where
  starts : ∃ c rest, identifier = c :: rest ∧ isWord c = true
  whole : termLength identifier = identifier.length
  straight : typographic ∉ identifier
  isId : isIdentifier (TermTables.casefold identifier) = true

omit [UnicodeTerms] in
theorem isWord_z : isWord 'z' = true := WordChars.ascii _ (by decide)

omit [UnicodeTerms] in
theorem casefold_straight (n : Nat) :
    TermTables.casefold ('\'' :: List.replicate n 'z') = '\'' :: List.replicate n 'z' := by
  rw [TermTables.casefold_ascii]
  · simp
  · intro c member
    obtain rfl | later := List.mem_cons.mp member
    · decide
    · rw [List.eq_of_mem_replicate later]
      decide

omit [UnicodeTerms] in
theorem casefold_tail (n : Nat) :
    TermTables.casefold (List.replicate n 'z') = List.replicate n 'z' := by
  rw [TermTables.casefold_ascii]
  · simp
  · intro c member
    rw [List.eq_of_mem_replicate member]
    decide

omit [UnicodeTerms] in
theorem isIdentifier_tail (n : Nat) : isIdentifier (List.replicate n 'z') = false := by
  have digit : TermTables.isDigit 'z' = false := TermTables.isDigit_ascii 'z' (by decide)
  rw [isIdentifier, Bool.or_eq_false_iff, List.any_eq_false, List.any_eq_false]
  constructor
  · intro c member
    rw [List.eq_of_mem_replicate member, digit]
    exact Bool.false_ne_true
  · intro c member
    rw [List.eq_of_mem_replicate member]
    decide

variable {identifier : Text} {n : Nat}

omit [UnicodeTerms] in
theorem Identifies.straightened_probe (identifies : Identifies identifier) :
    straightened (probe identifier n) = identifier ++ '\'' :: List.replicate (n + 1) 'z' := by
  have tail : typographic ∉ List.replicate (n + 1) 'z' := fun member =>
    absurd (List.eq_of_mem_replicate member) (by decide)
  rw [probe, straightened_append, straightened_eq_self identifies.straight, straightened_cons,
    if_pos rfl, straightened_eq_self tail]

/-- Behind a probe a text ends, or goes on with a space. -/
theorem Identifies.termSlices_probe (identifies : Identifies identifier) {rest : Text}
    (ends : termLength (straightened rest) = 0) (none : termSlices rest = []) :
    termSlices (probe identifier n ++ rest) = [probe identifier n] := by
  have zs : ∀ c ∈ List.replicate (n + 1) 'z', isWord c = true := by
    intro c member
    rw [List.eq_of_mem_replicate member]
    exact isWord_z
  have joiner : isJoiner '\'' = true := by decide
  have follows : (List.replicate (n + 1) 'z' ++ straightened rest).head?.any isWord = true := by
    simp [List.replicate_succ, isWord_z]
  obtain ⟨c, tail, shape, word⟩ := identifies.starts
  have size : termLength (straightened (probe identifier n ++ rest)) = (probe identifier n).length := by
    rw [straightened_append, identifies.straightened_probe, List.append_assoc,
      termLength_append identifies.whole, List.cons_append, termLength, joiner, follows,
      termLength_word zs, ends]
    simp [probe]
  have starts : probe identifier n ++ rest =
      c :: (tail ++ typographic :: List.replicate (n + 1) 'z' ++ rest) := by
    rw [probe, shape]
    rfl
  rw [starts, termSlices_word _ word, ← starts, size, List.take_left, List.drop_left, none]

omit [UnicodeTerms] in
theorem Identifies.parts_probe (identifies : Identifies identifier) :
    parts (probe identifier n) = [identifier, List.replicate (n + 1) 'z'] := by
  have tail : typographic ∉ List.replicate (n + 1) 'z' := fun member =>
    absurd (List.eq_of_mem_replicate member) (by decide)
  rw [parts, probe, List.splitOn_append_cons_self_of_not_mem identifies.straight,
    List.splitOn_eq_singleton tail]

/-- The identifier is found in the probe. -/
theorem Identifies.identifiers_probe (identifies : Identifies identifier) {rest : Text}
    (ends : termLength (straightened rest) = 0) (none : termSlices rest = []) :
    identifiers (probe identifier n ++ rest) = [TermTables.casefold identifier] := by
  rw [identifiers_eq, termTexts_eq, identifies.termSlices_probe ends none]
  simp only [List.flatMap_cons, List.flatMap_nil, List.append_nil, identifies.parts_probe,
    List.map_cons, List.map_nil, casefold_tail, List.filter_cons, isIdentifier_tail,
    identifies.isId, if_true, Bool.false_eq_true, if_false, List.filter_nil]

/-- The term of the probe is longer than `n`. -/
theorem Identifies.lexicalTerms_probe (identifies : Identifies identifier) {term : Text}
    (isTerm : term ∈ lexicalTerms (probe identifier n)) : n < term.length := by
  have slices : termSlices (probe identifier n ++ []) = [probe identifier n] :=
    identifies.termSlices_probe rfl rfl
  have whole : isIdentifier (TermTables.casefold (straightened (probe identifier n))) = true := by
    have part : identifier ∈ parts (probe identifier n) := by simp [identifies.parts_probe]
    exact isIdentifier_part part identifies.isId
  rw [List.append_nil] at slices
  rw [lexicalTerms_eq, slices, List.flatMap_cons, List.flatMap_nil, List.append_nil] at isTerm
  split at isTerm
  · cases isTerm
  · rw [variants_identifier whole, List.mem_singleton] at isTerm
    rw [isTerm, identifies.straightened_probe, UnicodeTerms.casefold_append, casefold_straight]
    simp
    omega

/-- What breaks `Plain` is an identifier of the straightened text. -/
theorem exists_identifies {text : Text} (notPlain : ¬ Plain text) :
    ∃ written ∈ termSlices text, typographic ∈ written ∧ Identifies (straightened written) ∧
      TermTables.casefold (straightened written) ∈ identifiers (straightened text) := by
  simp only [Plain, not_forall, Bool.not_eq_false] at notPlain
  obtain ⟨written, isTerm, inside, isId⟩ := notPlain
  obtain ⟨⟨c, rest, shape, word⟩, whole⟩ := exists_term isTerm
  have straight : typographic ∉ straightened written := by
    intro member
    obtain ⟨c, -, same⟩ := List.mem_map.mp member
    split at same
    · exact absurd same (by decide)
    next differs => exact differs (by rw [same]; rfl)
  refine ⟨written, isTerm, inside, ⟨?_, ?_, straight, isId⟩, ?_⟩
  · rw [shape, straightened_cons]
    exact ⟨_, _, rfl, by rw [isWord_straight, word]⟩
  · rw [whole, length_straightened]
  · rw [identifiers_eq, ← map_straightened_termSlices, List.mem_filter, List.map_map]
    exact ⟨List.mem_map_of_mem isTerm, isId⟩

end Probes

/-! ## Where the spelling matters -/

section Spelling

variable {K : Type} [Field K] [LinearOrder K] [IsStrictOrderedRing K] [ExactArithmetic K]
variable [TermTables] [UnicodeTerms] [HashedSet Text] [HashedSet (Text × Text)]

/-- No identifier is written both with a typographic apostrophe and with straight ones. -/
def OneSpelling (text : Text) : Prop :=
  ∀ written ∈ termSlices text, typographic ∈ written →
    TermTables.casefold (straightened written) ∉ identifiers text

theorem rank_single (cache : PreparedCache K) (query : Text) (chunk : Chunk) :
    (rank cache query [chunk] 1).1.map Chunk.chunkId = [] ↔ ¬ Shares query chunk := by
  have measured : chunk ∈ [chunk] := List.mem_singleton_self chunk
  rw [rank_eq, List.map_eq_nil_iff, List.take_eq_nil_iff, ← chunkScore_pos_iff (K := K) measured]
  rw [← List.length_eq_zero_iff, Table.orderBy, List.length_insertionSort]
  cases positive : decide (0 < (chunkScore query [chunk] chunk : K)) <;> simp_all

/-- The length of every term of the texts is at most this. -/
def longest (texts : List Text) : Nat := ((texts.flatMap lexicalTerms).map List.length).sum

omit [UnicodeTerms] [HashedSet Text] [HashedSet (Text × Text)] in
theorem length_le_longest {texts : List Text} {text term : Text} (member : text ∈ texts)
    (isTerm : term ∈ lexicalTerms text) : term.length ≤ longest texts :=
  List.single_le_sum (fun _ _ => Nat.zero_le _) _
    (List.mem_map_of_mem (List.mem_flatMap.mpr ⟨text, member, isTerm⟩))

/-- The query is indifferent to the spelling exactly when it is plain. -/
theorem query_indifferent_iff {query : Text} (spelling : OneSpelling query) :
    (∀ (cache cache' : PreparedCache K) query' chunks limit, Respelled query query' →
      (rank cache' query' chunks limit).1.map Chunk.chunkId =
        (rank cache query chunks limit).1.map Chunk.chunkId) ↔ Plain query := by
  constructor
  · intro indifferent
    by_contra notPlain
    obtain ⟨written, isTerm, inside, identifies, found⟩ := exists_identifies notPlain
    -- a chunk with the identifier, as the straightened query writes it
    let n := longest [query]
    let chunk := noteChunk 'a' (probe (straightened written) n) (probe_visible _ n)
    have inChunk : identifiers (source chunk) = [TermTables.casefold (straightened written)] := by
      have space : isWord ' ' = false := WordChars.ascii _ (by decide)
      have joiner : isJoiner ' ' = false := by decide
      have ends : termLength (straightened [' ']) = 0 := by
        simp [straightened_cons, termLength, space, joiner, show ' ' ≠ typographic by decide]
      have none : termSlices [' '] = [] := by rw [termSlices_skip _ space, termSlices_nil]
      exact identifies.identifiers_probe ends none
    have lost : (rank (LruCache.empty : PreparedCache K) query [chunk] 1).1.map Chunk.chunkId = [] := by
      rw [rank_single]
      intro shares
      obtain ⟨term, inQuery, text, isText, inText⟩ | ⟨value, inQuery, inSource⟩ := shares
      · have short := length_le_longest (List.mem_singleton_self query) inQuery
        obtain rfl | blank := List.mem_cons.mp isText
        · exact absurd (identifies.lexicalTerms_probe inText) (Nat.not_lt.mpr short)
        · obtain rfl := List.mem_singleton.mp blank
          cases inText
      · rw [← source, inChunk, List.mem_singleton] at inSource
        exact spelling written isTerm inside (inSource ▸ inQuery)
    have same := indifferent LruCache.empty LruCache.empty _ [chunk] 1
      (respelled_straightened query)
    rw [lost, rank_single] at same
    refine same (.inr ⟨_, found, ?_⟩)
    rw [← source, inChunk]
    exact List.mem_singleton_self _
  · intro plain cache cache' query' chunks limit respelled
    exact rank_respelled cache cache' limit plain respelled
      (List.forall₂_same.mpr fun document _ => ⟨rfl, rfl⟩)

/-- A chunk is indifferent to the spelling exactly when it is plain. -/
theorem chunk_indifferent_iff {chunk : Chunk} (spelling : OneSpelling (source chunk)) :
    (∀ (cache cache' : PreparedCache K) query chunk' limit, RespelledChunk chunk chunk' →
      (rank cache' query [chunk'] limit).1.map Chunk.chunkId =
        (rank cache query [chunk] limit).1.map Chunk.chunkId) ↔ Plain (source chunk) := by
  constructor
  · intro indifferent
    by_contra notPlain
    obtain ⟨written, isTerm, inside, identifies, found⟩ := exists_identifies notPlain
    -- a query for the identifier, as the straightened chunk writes it
    let n := longest (chunk.text :: (chunk.headingPath ++ [chunk.documentTitle]))
    let query := probe (straightened written) n
    have inQuery : identifiers query = [TermTables.casefold (straightened written)] := by
      have whole : identifiers (query ++ []) = [TermTables.casefold (straightened written)] :=
        identifies.identifiers_probe rfl rfl
      rwa [List.append_nil] at whole
    have lost : (rank (LruCache.empty : PreparedCache K) query [chunk] 1).1.map Chunk.chunkId = [] := by
      rw [rank_single]
      intro shares
      obtain ⟨term, isQuery, text, isText, inText⟩ | ⟨value, isQuery, inSource⟩ := shares
      · exact absurd (identifies.lexicalTerms_probe isQuery)
          (Nat.not_lt.mpr (length_le_longest isText inText))
      · rw [inQuery, List.mem_singleton] at isQuery
        exact spelling written isTerm inside (isQuery ▸ inSource)
    have same := indifferent LruCache.empty LruCache.empty query _ 1 chunk.respelled_straightened
    rw [lost, rank_single] at same
    refine same (.inr ⟨TermTables.casefold (straightened written), ?_, ?_⟩)
    · rw [inQuery]
      exact List.mem_singleton_self _
    · rw [← source, Chunk.source_straightened]
      exact found
  · intro plain cache cache' query chunk' limit respelled
    rw [rank_fst, rank_fst, List.isEmpty_cons, List.isEmpty_cons]
    split
    · rfl
    · exact rankPrepared_alike rfl rfl (.cons (respelled.alike plain) .nil) limit

/-- Where all texts are plain, the spelling does not matter and the identifiers are among the
terms.  Where a query or a chunk is not plain, it matters. -/
theorem rank_spelling {F : Type} [FloatArithmetic F] :
    (∀ (cache cache' : PreparedCache F) query query' chunks chunks' limit,
      Plain query → (∀ chunk ∈ chunks, Plain (source chunk)) → Respelled query query' →
      List.Forall₂ RespelledChunk chunks chunks' →
      (rank cache' query' chunks' limit).1.map Chunk.chunkId =
        (rank cache query chunks limit).1.map Chunk.chunkId) ∧
    (∀ text, Plain text → identifiers text ⊆ lexicalTerms text) ∧
    (∀ query, OneSpelling query →
      ((∀ (cache cache' : PreparedCache K) query' chunks limit, Respelled query query' →
        (rank cache' query' chunks limit).1.map Chunk.chunkId =
          (rank cache query chunks limit).1.map Chunk.chunkId) ↔ Plain query)) ∧
    ∀ chunk, OneSpelling (source chunk) →
      ((∀ (cache cache' : PreparedCache K) query chunk' limit, RespelledChunk chunk chunk' →
        (rank cache' query [chunk'] limit).1.map Chunk.chunkId =
          (rank cache query [chunk] limit).1.map Chunk.chunkId) ↔ Plain (source chunk)) := by
  refine ⟨?_, fun _ plain => plain.identifiers_subset, fun _ => query_indifferent_iff,
    fun _ => chunk_indifferent_iff⟩
  intro cache cache' query query' chunks chunks' limit plain allPlain respelled respelledChunks
  apply rank_respelled cache cache' limit plain respelled
  rw [List.forall₂_map_left_iff, List.forall₂_map_right_iff]
  induction respelledChunks with
  | nil => exact .nil
  | cons head _ ih =>
    exact .cons (head.alike (allPlain _ List.mem_cons_self))
      (ih fun chunk member => allPlain chunk (.tail _ member))

end Spelling

/-! ## A possessive -/

theorem possessive_visible : strip "customer\u2019s code x1".toList ≠ [] := by decide

def possessive : Chunk := noteChunk 'a' "customer\u2019s code x1".toList possessive_visible

/-- The ranking with doubles and ASCII tables. -/
def asciiRanking (query : String) (chunks : List Chunk) : List Text :=
  (@rank Rat (doubles fun x => x - 1) asciiTerms (listedSets Text) (listedSets (Text × Text))
    LruCache.empty query.toList chunks 10).1.map Chunk.chunkId

theorem possessive_plain : @Plain asciiTerms (source possessive) := by
  unfold Plain
  decide

theorem code_plain : @Plain asciiTerms "code x1".toList := by
  unfold Plain
  decide

theorem rank_spelling_possessive :
    asciiRanking "code x1" [possessive.straightened] = asciiRanking "code x1" [possessive] ∧
    asciiRanking "code x1" [possessive] = [List.replicate 64 'a'] := by
  obtain ⟨same, -⟩ := @rank_spelling Rat _ _ _ rationals asciiTerms asciiTerms_unicode
    (listedSets Text) (listedSets (Text × Text)) Rat (doubles fun x => x - 1)
  exact ⟨same LruCache.empty LruCache.empty _ _ _ _ 10 code_plain
    (List.forall_mem_singleton.mpr possessive_plain) (.refl _)
    (.cons possessive.respelled_straightened .nil), by decide +kernel⟩

theorem x1_visible : strip "x1".toList ≠ [] := by decide

/-- The part before the apostrophe is an identifier that the straightened query does not have. -/
theorem rank_depends_on_spelling :
    Respelled "x1\u2019s".toList "x1's".toList ∧
    asciiRanking "x1\u2019s" [noteChunk 'a' "x1".toList x1_visible] = [List.replicate 64 'a'] ∧
    asciiRanking "x1's" [noteChunk 'a' "x1".toList x1_visible] = [] ∧
    @identifiers asciiTerms "x1\u2019s".toList = ["x1".toList] ∧
    @lexicalTerms asciiTerms "x1\u2019s".toList = ["x1's".toList] := by
  have respelled := respelled_straightened "x1\u2019s".toList
  exact ⟨respelled, by decide +kernel, by decide +kernel, by decide +kernel, by decide +kernel⟩

end SupportPilot.Rag
