import SupportPilot.Lib.Fallible
import SupportPilot.Rag.Models
import SupportPilot.Rag.Tokenizer

/-! # Structure-aware chunking

`packages/rag/chunking.py`, function by function.  Loops over lists are folds;
the two `while` loops of `_fit_piece` are recursions on a fuel argument, which
`StructureAwareChunker.fitPiece` chooses large enough for them to run to their
end. -/

namespace SupportPilot.Rag

open Lib Lib.Regex ChunkTokenizer

/-- The settings of `packages/rag/config.py` that indexing reads. -/
structure PipelineConfig where
  version : Text
  chunkTargetTokens : Nat
  chunkMaxTokens : Nat
  chunkOverlapTokens : Nat
  embeddingDimension : Nat

def PIPELINE : PipelineConfig where
  version := "rag-v1-c1-e1".toList
  chunkTargetTokens := 350
  chunkMaxTokens := 500
  chunkOverlapTokens := 60
  embeddingDimension := 384

@[simp] theorem chunkTargetTokens_eq : PIPELINE.chunkTargetTokens = 350 := rfl
@[simp] theorem chunkMaxTokens_eq : PIPELINE.chunkMaxTokens = 500 := rfl
@[simp] theorem chunkOverlapTokens_eq : PIPELINE.chunkOverlapTokens = 60 := rfl

/-- `[.!?]`. -/
def isStop (c : Char) : Bool := c = '.' || c = '!' || c = '?'

/-- `[.!?]+(?=\s|$)|$`. -/
def sentenceEnd : Regex :=
  .alt (.seq (plus (.char isStop)) (.lookahead (.alt (.char isSpace) .atEnd))) .atEnd

/-- `_SENTENCE_PATTERN`: `[^.!?]+(?:[.!?]+(?=\s|$)|$)`. -/
def sentencePattern : Regex := .seq (plus (.char fun c => !isStop c)) sentenceEnd

/-- The protocol of the embedder's token limit. -/
structure InputBudget where
  fits : Text → Bool
  assertFits : Text → Except PyError Unit

/-- `_Fragment`. -/
structure Fragment where
  block : CanonicalBlock
  charStart : Nat
  charEnd : Nat
  tokenCount : Nat
  deriving DecidableEq

namespace Fragment

def text (fragment : Fragment) : Text :=
  slice fragment.charStart fragment.charEnd fragment.block.text

def locator (fragment : Fragment) : Except PyError SourceLocator :=
  SourceLocator.new fragment.block.blockId fragment.block.order fragment.charStart fragment.charEnd
    (fragment.block.pageNumber.map Int.ofNat)

end Fragment

def fragmentFromTokens (block : CanonicalBlock) (tokens : List TokenSpan) :
    Except PyError Fragment :=
  match tokens.head?, tokens.getLast? with
  | some first, some last => .ok ⟨block, first.start, last.stop, tokens.length⟩
  | _, _ => .error (.valueError "cannot create a fragment without tokens")

/-- One round of the loop of `_merge_fragments`. -/
def mergeStep (merged : List Fragment) (fragment : Fragment) : List Fragment :=
  match merged.getLast? with
  | none => merged ++ [fragment]
  | some previous =>
    if previous.block.blockId = fragment.block.blockId then
      merged.dropLast ++ [⟨previous.block, min previous.charStart fragment.charStart,
        max previous.charEnd fragment.charEnd, 0⟩]
    else
      merged ++ [fragment]

variable [WordChars]

def mergeFragments (fragments : List Fragment) : List Fragment :=
  (fragments.foldl mergeStep []).map fun item => { item with tokenCount := count item.text }

/-- The columns of `zip(*rows, strict=False)`. -/
def zipColumns {α : Type} (rows : List (List α)) : List (List α) :=
  match (rows.map List.length).min? with
  | none => []
  | some width => (List.range width).map fun i => rows.filterMap (·[i]?)

def commonHeadingPath (fragments : List Fragment) : List Text :=
  let paths := fragments.map (·.block.headingPath)
  ((zipColumns paths).takeWhile fun values => values.dedup.length = 1).filterMap List.head?

def joinTexts (fragments : List Fragment) : Text :=
  "\n\n".toList.intercalate (fragments.map Fragment.text)

def budgetText (document : CanonicalDocument) (fragments : List Fragment) : Text :=
  let merged := mergeFragments fragments
  let joined := " > ".toList.intercalate (commonHeadingPath merged)
  let sectionName := if joined = [] then "[root]".toList else joined
  let title := if document.title = [] then "[untitled]".toList else document.title
  "Document: ".toList ++ title ++ "\nSection: ".toList ++ sectionName ++ "\n\n".toList ++
    joinTexts merged

/-- The loop of `_tail_overlap`, over the fragments from last to first. -/
def tailOverlapLoop : List Fragment → Nat → List Fragment
  | [], _ => []
  | fragment :: rest, remaining =>
    if remaining = 0 then []
    else
      let tokens := spans fragment.text
      if tokens.length ≤ remaining then
        fragment :: tailOverlapLoop rest (remaining - tokens.length)
      else
        let suffix := tokens.drop (tokens.length - remaining)
        match suffix.head?, suffix.getLast? with
        | some first, some last =>
          -- the next round breaks, as nothing remains
          [⟨fragment.block, fragment.charStart + first.start, fragment.charStart + last.stop,
            suffix.length⟩]
        -- not reached: the suffix has `remaining` tokens
        | _, _ => []

def tailOverlap (fragments : List Fragment) (limit : Int) : List Fragment :=
  if limit ≤ 0 then [] else (tailOverlapLoop fragments.reverse limit.toNat).reverse

namespace StructureAwareChunker

def splitBlock (block : CanonicalBlock) : Except PyError (List Fragment) := do
  let tokens := spans block.text
  if tokens.length ≤ PIPELINE.chunkMaxTokens then
    return [← fragmentFromTokens block tokens]
  let sentences ← (finditer sentencePattern block.text).mapM fun sentence => do
    let sentenceTokens := spans sentence.text
    if sentenceTokens.isEmpty then
      return []
    let absolute := sentenceTokens.map (Span.shift sentence.start)
    (rangeStep absolute.length PIPELINE.chunkTargetTokens).mapM fun start =>
      fragmentFromTokens block (slice start (start + PIPELINE.chunkTargetTokens) absolute)
  return sentences.flatten

variable (budget : InputBudget)

/-- `_fragment_from_tokens` on tokens of the piece's text, moved to the piece. -/
def candidate (piece : Fragment) (tokens : List TokenSpan) : Except PyError Fragment := do
  let relative ← fragmentFromTokens piece.block tokens
  return { relative with
    charStart := piece.charStart + relative.charStart
    charEnd := piece.charStart + relative.charEnd }

/-- The binary search of `_fit_piece` for the largest `middle` that fits. -/
def bisect (document : CanonicalDocument) (piece : Fragment) (tokens : List TokenSpan)
    (start : Nat) : Nat → Nat → Nat → Nat → Except PyError Nat
  | 0, _, _, best => return best
  | fuel + 1, low, high, best => do
    if low ≤ high then
      let middle := (low + high) / 2
      let tried ← candidate piece (slice start middle tokens)
      if budget.fits (budgetText document [tried]) then
        bisect document piece tokens start fuel (middle + 1) high middle
      else
        bisect document piece tokens start fuel low (middle - 1) best
    else
      return best

/-- The outer loop of `_fit_piece`. -/
def fitFrom (document : CanonicalDocument) (piece : Fragment) (tokens : List TokenSpan) :
    Nat → Nat → Except PyError (List Fragment)
  | 0, _ => return []
  | fuel + 1, start => do
    if start < tokens.length then
      let best ← bisect budget document piece tokens start tokens.length (start + 1) tokens.length
        start
      if best = start then
        throw (.valueError "one source token cannot fit the E1 budget")
      let part ← candidate piece (slice start best tokens)
      return part :: (← fitFrom document piece tokens fuel best)
    else
      return []

def fitPiece (document : CanonicalDocument) (piece : Fragment) : Except PyError (List Fragment) :=
  if budget.fits (budgetText document [piece]) then
    return [piece]
  else
    let tokens := spans piece.text
    fitFrom budget document piece tokens tokens.length 0

/-- The local variables of `_pack_section`. -/
structure PackState where
  packed : List (List Fragment)
  current : List Fragment
  currentTokens : Nat

def totalTokens (fragments : List Fragment) : Nat := (fragments.map Fragment.tokenCount).sum

/-- The inner `while` of `_pack_section`. -/
def dropUntilFits (document : CanonicalDocument) (piece : Fragment) :
    List Fragment → List Fragment
  | [] => []
  | fragment :: rest =>
    if budget.fits (budgetText document (fragment :: rest ++ [piece])) then fragment :: rest
    else dropUntilFits document piece rest

def packStep (document : CanonicalDocument) (state : PackState) (piece : Fragment) :
    Except PyError PackState := do
  let proposed := state.current ++ [piece]
  let exceedsTarget : Bool := state.currentTokens + piece.tokenCount > PIPELINE.chunkTargetTokens
  let exceedsBudget := !budget.fits (budgetText document proposed)
  let state :=
    if !state.current.isEmpty && (exceedsTarget || exceedsBudget) then
      let overlap := min (PIPELINE.chunkOverlapTokens : Int)
        (max 0 (PIPELINE.chunkTargetTokens - piece.tokenCount))
      let current := dropUntilFits budget document piece (tailOverlap state.current overlap)
      { packed := state.packed ++ [state.current], current, currentTokens := totalTokens current }
    else
      state
  let currentTokens := state.currentTokens + piece.tokenCount
  if currentTokens > PIPELINE.chunkMaxTokens then
    throw (.valueError "C1 chunk exceeded its hard maximum")
  return { state with current := state.current ++ [piece], currentTokens }

def packSection (document : CanonicalDocument) (pieces : List Fragment) :
    Except PyError (List (List Fragment)) := do
  let fitted := (← pieces.mapM (fitPiece budget document)).flatten
  let state ← fitted.foldlM (packStep budget document) ⟨[], [], 0⟩
  return if state.current.isEmpty then state.packed else state.packed ++ [state.current]

def sectionKey (block : CanonicalBlock) : Option Nat × List Text :=
  (block.pageNumber, block.headingPath)

/-- `itertools.groupby(blocks, key=section_key)`. -/
def sections (blocks : List CanonicalBlock) : List (List CanonicalBlock) :=
  blocks.splitBy fun block block' => sectionKey block = sectionKey block'

variable [IdentityDigest]

/-- `next(iter(pages)) if len(pages) == 1 else None`. -/
def singlePage : List (Option Nat) → Option Nat
  | [page] => page
  | _ => none

/-- One chunk of the inner loop of `chunk`. -/
def addChunk (document : CanonicalDocument) (chunks : List Chunk) (fragments : List Fragment) :
    Except PyError (List Chunk) := do
  let merged := mergeFragments fragments
  let text := joinTexts merged
  let pages := (merged.map (·.block.pageNumber)).dedup
  let locators ← merged.mapM Fragment.locator
  let chunk ← Chunk.create document.documentId document.versionId chunks.length text (count text)
    locators (commonHeadingPath merged) (singlePage pages) document.title
  budget.assertFits chunk.embeddingText
  return chunks ++ [chunk]

def chunkSection (document : CanonicalDocument) (chunks : List Chunk)
    (blocks : List CanonicalBlock) : Except PyError (List Chunk) := do
  let pieces ← blocks.mapM splitBlock
  let packed ← packSection budget document pieces.flatten
  packed.foldlM (addChunk budget document) chunks

def chunk (document : CanonicalDocument) : Except PyError (List Chunk) := do
  let chunks ← (sections document.blocks).foldlM (chunkSection budget document) []
  if chunks.isEmpty then
    throw (.valueError "chunking produced no content")
  return chunks

end StructureAwareChunker

end SupportPilot.Rag
