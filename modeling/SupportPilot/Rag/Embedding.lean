import SupportPilot.Rag.Admission

/-! # The embedder's input limit

`packages/rag/embedding.py` checks the length of what it embeds twice: `E1TokenBudget`
while chunks are made, and `E1Embedder._prepare` before they are embedded.  The first one
checks a text with a header; the second one accepts what the first one let through
(`embedder_accepts`).  The tokenizer is a parameter: the ids it returns for a text. -/

namespace SupportPilot.Rag

open Lib Lib.Regex ChunkTokenizer StructureAwareChunker

section Limit

/-- `PIPELINE.embedding_input_limit`. -/
def embeddingInputLimit : Nat := 512

/-- `PIPELINE.embedding_query_prefix`. -/
def embeddingQueryPrefix : Text :=
  "Represent this sentence for searching relevant passages: ".toList

/-- `E1TokenBudget`. -/
def E1TokenBudget (encode : Text → List Nat) : InputBudget where
  fits text := (encode (strip text)).length ≤ embeddingInputLimit
  assertFits text :=
    if (encode (strip text)).length ≤ embeddingInputLimit then
      .ok ()
    else
      .error (.valueError "chunk exceeds the E1 token limit")

/-- `E1Embedder._prepare`. -/
def E1Embedder.prepare (encode : Text → List Nat) (text : Text) (query : Bool) :
    Except PyError Text := do
  let value := strip text
  if value = [] then
    throw (.valueError "embedding input cannot be empty")
  let prepared := (if query then embeddingQueryPrefix else []) ++ value
  if (encode prepared).length > embeddingInputLimit then
    throw (.valueError "embedding input exceeds the E1 token limit")
  return prepared

theorem E1TokenBudget_lawful (encode : Text → List Nat) : (E1TokenBudget encode).Lawful := by
  intro text fits
  simp only [E1TokenBudget, decide_eq_true_eq] at fits ⊢
  rw [if_pos fits]

/-- A passage that fits is embedded as it is stored. -/
theorem prepare_of_fits {encode : Text → List Nat} {text : Text} (content : strip text ≠ [])
    (fits : (E1TokenBudget encode).fits text = true) :
    E1Embedder.prepare encode text false = .ok (strip text) := by
  simp only [E1TokenBudget, decide_eq_true_eq] at fits
  simp only [E1Embedder.prepare, if_neg content, Bool.false_eq_true, if_false, List.nil_append,
    if_neg (Nat.not_lt.mpr fits)]
  rfl

/-- What fits under a header fits without it. -/
def InputBudget.HeaderFree (budget : InputBudget) : Prop :=
  ∀ document path body, budget.fits (budgetHeader document path ++ body) = true →
    budget.fits body = true

variable [WordChars] {budget : InputBudget} {document : CanonicalDocument}

/-! ## Packed lists fit -/

/-- The parts of any piece fit, whatever its text. -/
theorem fits_of_fitPiece {piece : Fragment} {parts : List Fragment}
    (returned : fitPiece budget document piece = .ok parts) :
    ∀ part ∈ parts, budget.fits (budgetText document [part]) = true := by
  obtain ⟨fits, same⟩ | ⟨-, ⟨parts', same, runs⟩ | ⟨raised, -⟩⟩ :=
    fitPiece_cases budget document piece
  · cases same.symm.trans returned
    exact List.forall_mem_singleton.mpr fits
  · cases same.symm.trans returned
    intro part member
    obtain ⟨start, stop, greedy⟩ := runs.exists_of_mem member
    exact greedy.1.fits
  · cases raised.symm.trans returned

/-- A round of the loop leaves lists that fit. -/
theorem fits_step {state state' : PackState} {piece : Fragment}
    (fits : budget.fits (budgetText document [piece]) = true)
    (allFit : ∀ pack ∈ state.packs, budget.fits (budgetText document pack) = true)
    (packs : Packs budget document state piece state') :
    ∀ pack ∈ state'.packs, budget.fits (budgetText document pack) = true := by
  cases packs with
  | extend room =>
    rw [packs_append, List.forall_mem_append, List.forall_mem_singleton]
    cases empty : state.current with
    | nil =>
      simp only [PackState.packs, empty, List.isEmpty_nil, if_true] at allFit
      exact ⟨allFit, fits⟩
    | cons f rest =>
      obtain ⟨-, extended⟩ := room.resolve_left (by simp [empty])
      simp only [PackState.packs, empty, List.isEmpty_cons, Bool.false_eq_true, if_false,
        List.forall_mem_append] at allFit
      rw [empty] at extended
      exact ⟨allFit.1, extended⟩
  | close overlap some isTail room =>
    rw [packs_append, List.forall_mem_append, List.forall_mem_singleton]
    constructor
    · simpa [PackState.packs, some] using allFit
    · obtain rfl | shrunk := room
      · exact fits
      · exact shrunk

/-- Every list that `_pack_section` returns fits under its header. -/
theorem packSection_fits {pieces : List Fragment} {packs : List (List Fragment)}
    (returned : packSection budget document pieces = .ok packs) :
    ∀ pack ∈ packs, budget.fits (budgetText document pack) = true := by
  rw [packSection, bind_eq_ok] at returned
  obtain ⟨groups, fitted, returned⟩ := returned
  rw [bind_eq_ok] at returned
  obtain ⟨state, folded, returned⟩ := returned
  have single : ∀ f ∈ groups.flatten, budget.fits (budgetText document [f]) = true := by
    intro f member
    obtain ⟨group, present, inside⟩ := List.mem_flatten.mp member
    obtain ⟨piece, -, called⟩ := mem_mapM fitted present
    exact fits_of_fitPiece called f inside
  have allFit : ∀ pack ∈ state.packs, budget.fits (budgetText document pack) = true := by
    apply foldlM_ok (motive := fun _ state => ∀ pack ∈ PackState.packs state,
      budget.fits (budgetText document pack) = true) (by simp [PackState.packs]) _ folded
    intro done piece state state' isPrefix before stepped
    exact fits_step (single piece (isPrefix.subset (by simp))) before (packStep_ok stepped)
  simp only [pure, Except.pure, Except.ok.injEq] at returned
  rw [← returned]
  exact allFit

/-! ## What the embedder gets -/

theorem IsPack.assertFits (free : budget.HeaderFree) (lawful : budget.Lawful)
    {pack : List Fragment} (isPack : IsPack budget document pack) :
    budget.assertFits (joinTexts (mergeFragments pack)) = .ok () :=
  lawful _ (free document _ _ isPack.fits)

/-- Every packed list fits, the final check never raises, and the embedder accepts the text of
every chunk that was made under its own budget. -/
theorem embedder_accepts [IdentityDigest] (budget : InputBudget) (document : CanonicalDocument)
    (free : budget.HeaderFree) (lawful : budget.Lawful) :
    (∀ pieces packs, packSection budget document pieces = .ok packs →
      ∀ pack ∈ packs, budget.fits (budgetText document pack) = true) ∧
    (∀ pack, IsPack budget document pack →
      budget.assertFits (joinTexts (mergeFragments pack)) = .ok ()) ∧
    (∀ e, chunk budget document = .error e → e = sourceTokenTooLong ∨ e = noContent) ∧
    ∀ encode, budget = E1TokenBudget encode → ∀ chunks, chunk budget document = .ok chunks →
      ∀ c ∈ chunks,
        E1Embedder.prepare encode c.embeddingText false = .ok (strip c.embeddingText) := by
  refine ⟨fun pieces packs => packSection_fits, fun pack isPack => isPack.assertFits free lawful,
    ?_, ?_⟩
  · intro e raised
    -- the assertion cannot fail, so an error comes from a single token or an empty document
    obtain ⟨piece, -, unfit⟩ | ⟨pack, isPack, refused⟩ | ⟨same, -⟩ := chunk_error raised
    · left
      obtain ⟨-, returned⟩ | ⟨-, ⟨parts, returned, -⟩ | ⟨returned, -⟩⟩ :=
        fitPiece_cases budget document piece
      · cases returned.symm.trans unfit
      · cases returned.symm.trans unfit
      · cases returned.symm.trans unfit
        rfl
    · rw [isPack.assertFits free lawful] at refused
      cases refused
    · exact .inr same
  · intro encode same chunks returned c member
    obtain ⟨packs, spec, related⟩ := chunk_ok returned
    obtain ⟨pack, present, isChunk⟩ := exists_of_mem_forall₂ related member
    apply prepare_of_fits c.embeddingText_nonempty
    rw [isChunk.embeddingText_eq, isChunk.text_eq, ← same]
    exact free document _ _ (spec.fits pack present)

end Limit

/-! ## A tokenizer with one id a character -/

theorem length_rdropWhile_append (p : Char → Bool) (before text : Text) :
    (text.rdropWhile p).length ≤ ((before ++ text).rdropWhile p).length := by
  rw [List.rdropWhile, List.rdropWhile, List.reverse_append, List.dropWhile_append]
  split
  next empty =>
    rw [List.isEmpty_iff] at empty
    simp [empty]
  next => simp

/-- A text does not get shorter behind a header. -/
theorem length_strip_header (document : CanonicalDocument) (path : List Text) (body : Text) :
    (strip body).length ≤ (strip (budgetHeader document path ++ body)).length := by
  have head : (budgetHeader document path ++ body).dropWhile isSpace =
      budgetHeader document path ++ body := rfl
  have split := List.takeWhile_append_dropWhile (p := isSpace) (l := body)
  rw [strip, strip, head]
  conv => rhs; rw [← split, ← List.append_assoc]
  exact length_rdropWhile_append _ _ _

/-- One id a character, between the ids that start and end a text. -/
def characterIds (text : Text) : List Nat := 101 :: (text.map fun _ => 1037) ++ [102]

theorem characterIds_headerFree : (E1TokenBudget characterIds).HeaderFree := by
  intro document path body fits
  have shorter := length_strip_header document path body
  simp [E1TokenBudget, characterIds] at fits ⊢
  omega

theorem embedder_accepts_headed :
    ∃ chunks, @chunk asciiWords (E1TokenBudget characterIds) fixedDigest headedDocument =
        .ok chunks ∧
      ∀ c ∈ chunks, E1Embedder.prepare characterIds c.embeddingText false =
        .ok (strip c.embeddingText) := by
  let := asciiWords
  let := fixedDigest
  obtain ⟨-, -, -, accepted⟩ := embedder_accepts (E1TokenBudget characterIds) headedDocument
    characterIds_headerFree (E1TokenBudget_lawful characterIds)
  have returned : (chunk (E1TokenBudget characterIds) headedDocument).isOk = true := by
    decide
  cases result : chunk (E1TokenBudget characterIds) headedDocument with
  | error e =>
    rw [result] at returned
    cases returned
  | ok chunks => exact ⟨chunks, rfl, accepted characterIds rfl chunks result⟩

end SupportPilot.Rag
