import SupportPilot.Documents.Filenames
import SupportPilot.Lib.Utf8
import SupportPilot.Rag.HtmlParser
import SupportPilot.Rag.Markdown
import SupportPilot.Rag.PlainText

/-! # Parsing documents

`CanonicalParser.parse`.  The readers of PDF files and the events of `html.parser` are parameters.
`parse_plainText` is about plain text: the blocks of a document are its runs of lines with text. -/

namespace SupportPilot.Rag

open Lib Documents

structure CanonicalParser where
  maxPages : Nat := 1000
  maxCharacters : Nat := 5000000

namespace CanonicalParser

section Parse

variable [DecimalChars] [UnicodeTables] (parsePdf : Nat → Bytes → Except PyError BlockCollector)
  (htmlEvents : Text → List HtmlEvent)

/-- The part of `parse` that fills the collector. -/
def collect (parser : CanonicalParser) (content : Bytes) (mediaType : Text) :
    Except PyError BlockCollector :=
  if mediaType = "application/pdf".toList then parsePdf parser.maxPages content
  else do
    let some decoded := decodeUtf8 content
      | throw (.valueError "text documents must be UTF-8 encoded")
    if decoded.length > parser.maxCharacters then
      throw (.valueError "document exceeds the parsed text limit")
    if mediaType = "text/markdown".toList then
      parseMarkdown decoded
    else if mediaType = "text/html".toList then do
      let fed ← CanonicalHtmlParser.feed (htmlEvents decoded)
      return fed.2
    else if mediaType = "text/plain".toList then
      parsePlainText decoded
    else
      throw (.valueError ("unsupported media type: " ++ String.ofList mediaType))

def parse (parser : CanonicalParser) (content : Bytes) (documentId versionId : UUID)
    (title mediaType : Text) : Except PyError CanonicalDocument := do
  if content = [] then
    throw (.valueError "cannot parse an empty document")
  let collector ← collect parsePdf htmlEvents parser content mediaType
  if collector.blocks = [] then
    throw (.valueError "document contains no indexable text")
  if collector.characters > parser.maxCharacters then
    throw (.valueError "document exceeds the parsed text limit")
  CanonicalDocument.new documentId versionId (normalizeBlockText title) mediaType collector.blocks

variable {parser : CanonicalParser} {content : Bytes} {text : Text} {documentId versionId : UUID}
  {title : Text} {document : CanonicalDocument}

theorem collect_plainText (decoded : decodeUtf8 content = some text)
    (within : text.length ≤ parser.maxCharacters) :
    collect parsePdf htmlEvents parser content "text/plain".toList = parsePlainText text := by
  have short : ¬ text.length > parser.maxCharacters := Nat.not_lt.mpr within
  have notPdf : "text/plain".toList ≠ "application/pdf".toList := by decide
  have notMarkdown : "text/plain".toList ≠ "text/markdown".toList := by decide
  have notHtml : "text/plain".toList ≠ "text/html".toList := by decide
  rw [collect, if_neg notPdf, decoded]
  simp only [if_neg short, if_neg notMarkdown, if_neg notHtml, if_true]

/-- Where the collector has blocks within the limit, they make a document. -/
theorem parse_collected {mediaType : Text} {collector : BlockCollector} (some : content ≠ [])
    (collected : collect parsePdf htmlEvents parser content mediaType = .ok collector)
    (consistent : BlockCollector.Consistent collector) (typed : mediaType ≠ [])
    (within : collector.characters ≤ parser.maxCharacters) (blocks : collector.blocks ≠ []) :
    ∃ document, parse parsePdf htmlEvents parser content documentId versionId title mediaType =
      .ok document ∧ document.blocks = collector.blocks := by
  have short : ¬ collector.characters > parser.maxCharacters := Nat.not_lt.mpr within
  have made := CanonicalDocument.new_of_valid ⟨documentId, versionId, normalizeBlockText title,
    mediaType, collector.blocks, typed, blocks, BlockCollector.nodup_blockIds consistent,
    consistent.orders⟩
  rw [parse, if_neg some, collected]
  simp only [bind, Except.bind, if_neg blocks, if_neg short]
  exact ⟨_, made, rfl⟩

/-- The blocks of a document are those of the collector. -/
theorem blocks_of_parse {mediaType : Text}
    (parsed : parse parsePdf htmlEvents parser content documentId versionId title mediaType =
      .ok document) :
    ∃ collector, collect parsePdf htmlEvents parser content mediaType = .ok collector ∧
      document.blocks = collector.blocks := by
  rw [parse] at parsed
  by_cases empty : content = []
  · rw [if_pos empty] at parsed
    cases parsed
  · rw [if_neg empty, bind_eq_ok] at parsed
    obtain ⟨collector, collected, parsed⟩ := parsed
    refine ⟨collector, collected, ?_⟩
    by_cases none : collector.blocks = []
    · rw [if_pos none] at parsed
      cases parsed
    · rw [if_neg none] at parsed
      by_cases long : collector.characters > parser.maxCharacters
      · rw [if_pos long] at parsed
        cases parsed
      · rw [if_neg long] at parsed
        exact CanonicalDocument.blocks_of_new parsed

/-- Plain text is parsed exactly when there is something to index. -/
theorem plainText_indexable (decoded : decodeUtf8 content = some text)
    (within : text.length ≤ parser.maxCharacters) :
    (∃ document, parse parsePdf htmlEvents parser content documentId versionId title
        "text/plain".toList = .ok document) ↔ visible text ≠ [] := by
  have collected := collect_plainText parsePdf htmlEvents decoded within
  constructor
  · intro parsed blank
    obtain ⟨document, parsed⟩ := parsed
    obtain ⟨collector, collected', blocks⟩ := blocks_of_parse parsePdf htmlEvents parsed
    rw [collected] at collected'
    obtain ⟨block, member⟩ := List.exists_mem_of_ne_nil _ document.blocks_nonempty
    -- every block has something visible
    rw [← visible_of_parsed collected', ← blocks, visible_flatMap, List.flatMap_eq_nil_iff] at blank
    apply block.text_nonempty
    rw [strip_eq_nil_iff_visible]
    exact blank block member
  · intro someVisible
    obtain ⟨collector, parsed, -⟩ := collect_paragraphs text
    have blocks : collector.blocks ≠ [] := by
      intro none
      have kept := visible_of_parsed parsed
      rw [none] at kept
      exact someVisible kept.symm
    have some : content ≠ [] := by
      rintro rfl
      have nothing : decodeUtf8 [] = Option.some [] := Utf8.decode_eq_some.2 rfl
      rw [nothing] at decoded
      rw [← Option.some.inj decoded] at someVisible
      exact someVisible rfl
    obtain ⟨document, made, -⟩ := parse_collected parsePdf htmlEvents some (collected.trans parsed)
      (BlockCollector.consistent_collect parsed) (List.cons_ne_nil _ _)
      ((characters_of_parsed parsed).trans within) blocks
    exact ⟨document, made⟩

/-- Plain text is parsed exactly when there is something to index.  The blocks of the document have
what is visible in the text, and two lines with text are in one block exactly when there is no blank
line between them. -/
theorem parse_plainText (decoded : decodeUtf8 content = some text)
    (within : text.length ≤ parser.maxCharacters) :
    ((∃ document, parse parsePdf htmlEvents parser content documentId versionId title
        "text/plain".toList = .ok document) ↔ ∃ c ∈ text, isSpace c = false) ∧
      ∀ document, parse parsePdf htmlEvents parser content documentId versionId title
          "text/plain".toList = .ok document →
        visible (document.blocks.flatMap CanonicalBlock.text) = visible text ∧
        document.blocks.map CanonicalBlock.text =
          (textRuns (textLines text)).map (fun run => normalizeBlockText (joinLines run)) ∧
        (∀ i j line line', i < j → (textLines text)[i]? = some line →
          (textLines text)[j]? = some line' → hasText line = true → hasText line' = true →
          (Together (runs hasText (textLines text)) i j ↔
            ∀ k between, i < k → k < j → (textLines text)[k]? = some between →
              hasText between = true)) ∧
        (∀ block ∈ document.blocks, block.kind = .paragraph ∧ block.pageNumber = none ∧
          block.text ≠ [] ∧ strip block.text = block.text ∧ block.blockId ≠ []) ∧
        (document.blocks.map CanonicalBlock.blockId).Nodup ∧
        document.blocks.map CanonicalBlock.order = List.range document.blocks.length := by
  rw [← visible_ne_nil]
  refine ⟨plainText_indexable parsePdf htmlEvents decoded within, ?_⟩
  intro document parsed
  obtain ⟨collector, collected, blocks⟩ := blocks_of_parse parsePdf htmlEvents parsed
  rw [collect_plainText parsePdf htmlEvents decoded within] at collected
  refine ⟨?_, ?_, ?_, ?_, document.blockIds_unique, document.orders_contiguous⟩
  · rw [blocks, visible_of_parsed collected]
  · rw [blocks, runs_of_parsed collected]
  · intro i j line line' less first last hasLine hasLine'
    exact together_runs_between less first last hasLine hasLine'
  · -- the calls of the parser are paragraphs without a page
    intro block member
    obtain ⟨collector', collected', -, kinds⟩ := collect_paragraphs text
    rw [collected'] at collected
    cases collected
    obtain ⟨kind, pageNumber⟩ := kinds block (blocks ▸ member)
    have some := block.text_nonempty
    rw [block.text_normalized] at some
    exact ⟨kind, pageNumber, some, block.text_normalized, block.blockId_nonempty⟩

end Parse

/-- Two paragraphs. -/
theorem parse_plainText_paragraphs : ∃ document,
    @parse asciiDecimals asciiTables (fun _ _ => .error (.valueError "PDF could not be parsed"))
      (fun _ => []) {} [0x61, 0x0A, 0x0A, 0x62] 1 2 [] "text/plain".toList = .ok document ∧
    document.blocks.map CanonicalBlock.text = ["a".toList, "b".toList] := by
  have decoded : decodeUtf8 [0x61, 0x0A, 0x0A, 0x62] = some "a\n\nb".toList :=
    Utf8.decode_eq_some.2 rfl
  have spec := @parse_plainText asciiDecimals asciiTables
    (fun _ _ => .error (.valueError "PDF could not be parsed")) (fun _ => []) {} _ _ 1 2 [] decoded
    (by decide)
  obtain ⟨document, parsed⟩ := spec.1.mpr ⟨'a', by decide, rfl⟩
  obtain ⟨-, texts, -⟩ := spec.2 document parsed
  exact ⟨document, parsed, texts.trans (by decide)⟩

end CanonicalParser

end SupportPilot.Rag
