import SupportPilot.Lib.Collections
import SupportPilot.Lib.Scan
import SupportPilot.Rag.Repository

/-! # Lexical ranking

`packages/rag/lexical.py`.  The terms of a text come from a regular expression and
case folding (`TermTables`); the scores are computed with the operations of
`FloatArithmetic`, in the order of the source, since they are neither associative
nor exact.  The scorer keeps the prepared documents in an `lru_cache` that all
workspaces share. -/

namespace SupportPilot.Rag

open Lib Lib.Regex

/-! ## Terms -/

/-- `str.casefold`, and `str.isdigit` of one code point, with the ASCII rules in the
ASCII range. -/
class TermTables extends WordChars where
  casefold : List Char → List Char
  isDigit : Char → Bool
  casefold_ascii : ∀ text : List Char, (∀ c ∈ text, c.toNat < 128) →
    casefold text = text.map Char.toLower
  isDigit_ascii : ∀ c, c.toNat < 128 → isDigit c = c.isDigit

theorem casefold_asciiTerms : ∀ text : List Char, (∀ c ∈ text, c.toNat < 128) →
    text.map Char.toLower = text.map Char.toLower := fun _ _ => rfl

theorem isDigit_asciiTerms : ∀ c : Char, c.toNat < 128 → c.isDigit = c.isDigit := fun _ _ => rfl

/-- The tables restricted to the ASCII range. -/
@[reducible] def asciiTerms : TermTables where
  toWordChars := asciiWords
  casefold := List.map Char.toLower
  isDigit := Char.isDigit
  casefold_ascii := casefold_asciiTerms
  isDigit_ascii := isDigit_asciiTerms

def stopWords : List Text :=
  ["a", "about", "an", "and", "are", "as", "at", "be", "been", "before", "but", "by", "can",
    "could", "did", "do", "does", "for", "from", "has", "have", "how", "i", "if", "in", "into",
    "is", "it", "its", "me", "my", "of", "on", "or", "our", "should", "that", "the", "their",
    "them", "then", "there", "these", "they", "this", "those", "to", "use", "using", "was", "we",
    "were", "what", "when", "where", "which", "who", "why", "will", "with", "would", "you",
    "your"].map String.toList

section Terms

variable [TermTables]

/-- `[-_.']`. -/
def isJoiner (c : Char) : Bool := c = '-' || c = '_' || c = '.' || c = '\''

/-- `_TERM_PATTERN`: `[\w]+(?:[-_.'][\w]+)*`. -/
def termPattern : Regex :=
  .seq (plus (.char isWord)) (.star true (.seq (.char isJoiner) (plus (.char isWord))))

/-- A digit, or one of `-_.`, in the term. -/
def isIdentifier (term : Text) : Bool :=
  term.any TermTables.isDigit || term.any fun c => c = '-' || c = '_' || c = '.'

def endsWith (term : Text) (ending : String) : Bool := ending.toList.isSuffixOf term

/-- `term[:-n]`. -/
def dropEnd (term : Text) (n : Nat) : Text := term.take (term.length - n)

/-- `_variants`. -/
def variants (term : Text) : List Text :=
  if isIdentifier term then [term]
  else if 5 < term.length && endsWith term "ies" then
    [term, dropEnd term 3 ++ ['y']].eraseDups
  else if 6 < term.length && endsWith term "ing" then
    [term, dropEnd term 3, dropEnd term 3 ++ ['e']].eraseDups
  else if 5 < term.length && endsWith term "ed" then
    [term, dropEnd term 2, dropEnd term 2 ++ ['e']].eraseDups
  else if 4 < term.length && endsWith term "s" &&
      !(endsWith term "ss" || endsWith term "us" || endsWith term "is") then
    [term, dropEnd term 1].eraseDups
  else [term]

/-- `text.replace("\u2019", "'")`. -/
def straightened (text : Text) : Text := text.map fun c => if c.toNat = 0x2019 then '\'' else c

/-- `lexical_terms`. -/
def lexicalTerms (text : Text) : List Text :=
  (finditer termPattern (straightened text)).flatMap fun span =>
    let term := TermTables.casefold span.text
    if stopWords.contains term then [] else variants term

/-- `_identifiers`, in the order in which the set is filled. -/
def identifiers (text : Text) : List Text :=
  ((finditer termPattern text).map fun span => TermTables.casefold span.text).filter fun value =>
    !value.isEmpty && isIdentifier value

end Terms

/-! ## Scores -/

/-- The `float` operations of the interpreter.  `sum` is the built-in function, which
does not add from left to right. -/
class FloatArithmetic (F : Type) where
  ofRat : Rat → F
  add : F → F → F
  sub : F → F → F
  mul : F → F → F
  div : F → F → F
  neg : F → F
  log : F → F
  sum : List F → F
  eq : F → F → Bool
  lt : F → F → Bool

open FloatArithmetic

/-- The rounded quotient, ties to even. -/
def roundHalfEven (n d : Nat) : Nat :=
  if 2 * (n % d) < d then n / d
  else if d < 2 * (n % d) then n / d + 1
  else n / d + n / d % 2

/-- The closest number with 53 binary digits, and of two the even one. -/
def roundDouble (x : Rat) : Rat :=
  let n := x.num.natAbs
  let shift : Int := 53 - n.log2 + x.den.log2
  -- the shifted quotient has 53 digits or one more
  let shift := if n * 2 ^ shift.toNat < x.den * 2 ^ (-shift).toNat * 2 ^ 53 then shift else shift - 1
  let digits := roundHalfEven (n * 2 ^ shift.toNat) (x.den * 2 ^ (-shift).toNat)
  x.num.sign * (digits * 2 ^ (-shift).toNat : Nat) / (2 ^ shift.toNat : Nat)

/-- Doubles in the range of the exponents, with a given table of logarithms. -/
@[reducible] def doubles (log : Rat → Rat) : FloatArithmetic Rat where
  ofRat := roundDouble
  add x y := roundDouble (x + y)
  sub x y := roundDouble (x - y)
  mul x y := roundDouble (x * y)
  div x y := roundDouble (x / y)
  neg x := -x
  log := log
  sum := List.foldl (fun x y => roundDouble (x + y)) 0
  eq x y := x = y
  lt x y := x < y

/-! The settings of `packages/rag/config.py` that the ranking reads. -/

namespace PIPELINE

def bm25K1 : Rat := 12 / 10
def bm25B : Rat := 75 / 100
def headingWeight : Rat := 75 / 100
def titleWeight : Rat := 5 / 10
def exactIdentifierBonus : Rat := 15 / 10
def phraseBonus : Rat := 25 / 100

end PIPELINE

/-- `_PreparedDocument`; the sets are the sequences that fill them. -/
structure PreparedDocument (F : Type) where
  chunk : Chunk
  weightedTerms : List (Text × F)
  presentTerms : List Text
  sequences : List (List Text)
  identifiers : List Text
  length : F

section Scoring

variable {F : Type} [FloatArithmetic F] [TermTables]

/-- `float(n)`. -/
def float (n : Nat) : F := ofRat (n : Rat)

/-- `weighted[term] = weighted.get(term, 0.0) + weight` for each of the terms. -/
def weigh (weight : F) (weighted : List (Text × F)) (terms : List Text) : List (Text × F) :=
  terms.foldl (fun weighted term =>
    Dict.set weighted term (add ((Dict.get? weighted term).getD (float 0)) weight)) weighted

/-- `" ".join(parts)`. -/
def joined (parts : List Text) : Text := [' '].intercalate parts

/-- `_prepare`. -/
def prepare (chunk : Chunk) : PreparedDocument F :=
  let textTerms := lexicalTerms chunk.text
  let headings := chunk.headingPath.map lexicalTerms
  let titleTerms := lexicalTerms chunk.documentTitle
  let counted := (Dict.counter textTerms).map fun item => (item.1, float item.2)
  let headed := headings.foldl (weigh (ofRat PIPELINE.headingWeight)) counted
  let sequences := textTerms :: (headings ++ [titleTerms])
  { chunk := chunk
    weightedTerms := weigh (ofRat PIPELINE.titleWeight) headed titleTerms
    presentTerms := sequences.flatten
    sequences := sequences
    identifiers := identifiers (joined (chunk.text :: (chunk.headingPath ++ [chunk.documentTitle])))
    length := add (add (float textTerms.length)
      (mul (ofRat PIPELINE.headingWeight) (float ((headings.map List.length).sum))))
      (mul (ofRat PIPELINE.titleWeight) (float titleTerms.length)) }

/-- `math.log(1 + (count - frequency + 0.5) / (frequency + 0.5))` for a term. -/
def inverseFrequency (prepared : List (PreparedDocument F)) (term : Text) : F :=
  let frequency := prepared.countP fun document => document.presentTerms.contains term
  log (add (float 1) (div (add (float (prepared.length - frequency)) (ofRat (1 / 2)))
    (add (float frequency) (ofRat (1 / 2)))))

variable [HashedSet Text] [HashedSet (Text × Text)]

/-- What the query contributes to the score of every document. -/
structure Weights (F : Type) where
  terms : List Text
  identifiers : List Text
  averageLength : F
  inverse : List (Text × F)

/-- The `average_length` and `inverse` of `rank`. -/
def weightsOf (query : Text) (prepared : List (PreparedDocument F)) : Weights F where
  terms := lexicalTerms query
  identifiers := identifiers query
  averageLength := div (sum (prepared.map PreparedDocument.length)) (float prepared.length)
  inverse := (lexicalTerms query).eraseDups.map fun term => (term, inverseFrequency prepared term)

/-- The BM25 part of the score. -/
def termScore (weights : Weights F) (document : PreparedDocument F) : F :=
  let relative := if eq weights.averageLength (float 0) then float 1
    else div document.length weights.averageLength
  let normalization := mul (ofRat PIPELINE.bm25K1)
    (add (sub (float 1) (ofRat PIPELINE.bm25B)) (mul (ofRat PIPELINE.bm25B) relative))
  (Dict.counter weights.terms).foldl (fun score (term, queryFrequency) =>
    let termFrequency := (Dict.get? document.weightedTerms term).getD (float 0)
    if lt (float 0) termFrequency then
      -- every term of the query is a key of `inverse`
      let inverse := (Dict.get? weights.inverse term).getD (float 0)
      add score (div (mul (mul (mul inverse (float queryFrequency)) termFrequency)
        (add (ofRat PIPELINE.bm25K1) (float 1))) (add termFrequency normalization))
    else score) (float 0)

/-- The score of a document. -/
def score (weights : Weights F) (document : PreparedDocument F) : F :=
  let inverse := weights.inverse
  let shared := HashedSet.inter weights.identifiers document.identifiers
  let pairs := HashedSet.inter (pairwise weights.terms) (document.sequences.flatMap pairwise)
  let exact := mul (ofRat PIPELINE.exactIdentifierBonus)
    (sum (shared.map fun identifier => (Dict.get? inverse identifier).getD (float 1)))
  let phrases := mul (ofRat PIPELINE.phraseBonus) (sum (pairs.map fun (left, right) =>
    div (add ((Dict.get? inverse left).getD (float 0)) ((Dict.get? inverse right).getD (float 0)))
      (float 2)))
  add (add (termScore weights document) exact) phrases

/-- Sorting by `(-score, chunk_id)`, as tuples are compared. -/
def rankedBefore (left right : F × Chunk) : Bool :=
  if eq (neg left.1) (neg right.1) then left.2.chunkId < right.2.chunkId
  else lt (neg left.1) (neg right.1)

/-- `list.sort`, which is stable. -/
def sortedBy {α : Type} (before : α → α → Bool) (items : List α) : List α :=
  items.insertionSort fun left right => !before right left

/-- The cache of `_prepare`. -/
abbrev PreparedCache (F : Type) [FloatArithmetic F] : Type :=
  LruCache (prepare : Chunk → PreparedDocument F) 100000

/-- The ranking of the prepared documents. -/
def rankPrepared (query : Text) (prepared : List (PreparedDocument F)) (limit : Nat) : List Chunk :=
  let weights := weightsOf query prepared
  let scored := (prepared.map fun document => (score weights document, document.chunk)).filter
    fun item => lt (float 0) item.1
  ((sortedBy rankedBefore scored).take limit).map Prod.snd

/-- `BM25LexicalScorer.rank`. -/
def rank (cache : PreparedCache F) (query : Text) (chunks : List Chunk) (limit : Nat) :
    List Chunk × PreparedCache F :=
  if (lexicalTerms query).isEmpty || chunks.isEmpty || limit < 1 then ([], cache)
  else
    let (prepared, cache) := cache.callAll chunks
    (rankPrepared query prepared limit, cache)

/-! ## What a ranking depends on -/

omit [HashedSet Text] [HashedSet (Text × Text)] in
@[simp] theorem prepare_chunk (chunk : Chunk) :
    (prepare chunk : PreparedDocument F).chunk = chunk := rfl

omit [FloatArithmetic F] [TermTables] [HashedSet Text] [HashedSet (Text × Text)] in
@[simp] theorem mem_sortedBy {α : Type} {before : α → α → Bool} {items : List α} {item : α} :
    item ∈ sortedBy before items ↔ item ∈ items := by
  simp [sortedBy]

/-- The ranking does not show what the scorer has seen before. -/
theorem rank_fst (cache : PreparedCache F) (query : Text) (chunks : List Chunk) (limit : Nat) :
    (rank cache query chunks limit).1 =
      if (lexicalTerms query).isEmpty || chunks.isEmpty || limit < 1 then []
      else rankPrepared query (chunks.map (prepare : Chunk → PreparedDocument F)) limit := by
  rw [rank]
  split
  · rfl
  · simp

/-- The scorer ranks what it was given. -/
theorem mem_of_mem_rank {cache : PreparedCache F} {query : Text} {chunks : List Chunk} {limit : Nat}
    {chunk : Chunk} (ranked : chunk ∈ (rank cache query chunks limit).1) : chunk ∈ chunks := by
  rw [rank_fst] at ranked
  split at ranked
  · cases ranked
  · obtain ⟨item, taken, rfl⟩ := List.mem_map.mp ranked
    have scored := (List.mem_filter.mp (mem_sortedBy.1 (List.mem_of_mem_take taken))).1
    obtain ⟨document, prepared, rfl⟩ := List.mem_map.mp scored
    obtain ⟨chunk, given, rfl⟩ := List.mem_map.mp prepared
    exact given

end Scoring

end SupportPilot.Rag
