import SupportPilot.Rag.BlockCollector

/-! # Extracting blocks from HTML

`_CanonicalHTMLParser` of `packages/rag/parsing.py`, fed with the events that
`html.parser` reports.  The parser captures the text of the outermost `p`, `li`
and `h1` to `h6` elements with one depth counter, which a start tag increments
and an end tag decrements.  A void element has no end tag, so one inside a
captured element leaves the counter too high at the end tag of that element.

`keepsElements_iff` is exact for the tags of a document: whatever its texts are,
every element is kept if and only if no captured element contains a void one. -/

namespace SupportPilot.Rag

open Lib

/-- The callbacks of `html.parser`. -/
inductive HtmlEvent where
  | startTag (tag : Text)
  | endTag (tag : Text)
  | data (text : Text)

structure CanonicalHtmlParser where
  captureTag : Option Text
  captureDepth : Int
  parts : List Text

namespace CanonicalHtmlParser

/-- `__init__`. -/
def new : CanonicalHtmlParser := ⟨none, 0, []⟩

/-- `_CAPTURE_TAGS`. -/
def captureTags : List Text :=
  ["p".toList, "li".toList, "h1".toList, "h2".toList, "h3".toList, "h4".toList, "h5".toList,
    "h6".toList]

/-- The call of `add` at the end of a captured element; `int(captured[1])` is
the level of a heading. -/
def capturedCall (captured text : Text) : AddCall :=
  if captured.head? = some 'h' then
    ⟨.heading, text, none, some ((captured.getD 1 '0').toNat - '0'.toNat)⟩
  else if captured = "li".toList then ⟨.listItem, text, none, none⟩
  else ⟨.paragraph, text, none, none⟩

variable [UnicodeTables]

def handleStarttag (parser : CanonicalHtmlParser) (tag : Text) : CanonicalHtmlParser :=
  let normalized := UnicodeTables.lower tag
  match parser.captureTag with
  | none => if captureTags.contains normalized then ⟨some normalized, 1, []⟩ else parser
  | some _ => { parser with captureDepth := parser.captureDepth + 1 }

def handleEndtag (parser : CanonicalHtmlParser) (tag : Text) :
    CanonicalHtmlParser × Option AddCall :=
  match parser.captureTag with
  | none => (parser, none)
  | some captured =>
    let depth := parser.captureDepth - 1
    if 0 < depth ∨ UnicodeTables.lower tag ≠ captured then
      ({ parser with captureDepth := depth }, none)
    else
      (⟨none, depth, []⟩, some (capturedCall captured (List.intercalate [' '] parser.parts)))

def handleData (parser : CanonicalHtmlParser) (data : Text) : CanonicalHtmlParser :=
  match parser.captureTag with
  | none => parser
  | some _ => { parser with parts := parser.parts ++ [data] }

/-- One event, and the call of `add` it leads to. -/
def handle (parser : CanonicalHtmlParser) : HtmlEvent → CanonicalHtmlParser × Option AddCall
  | .startTag tag => (parser.handleStarttag tag, none)
  | .endTag tag => parser.handleEndtag tag
  | .data text => (parser.handleData text, none)

/-- The parser after some events, with the calls of `add` on the way. -/
def run (parser : CanonicalHtmlParser) : List HtmlEvent → CanonicalHtmlParser × List AddCall
  | [] => (parser, [])
  | event :: events =>
    let after := run (parser.handle event).1 events
    (after.1, (parser.handle event).2.toList ++ after.2)

/-- `_CanonicalHTMLParser(collector)` fed with events. -/
def feed (events : List HtmlEvent) : Except PyError (CanonicalHtmlParser × BlockCollector) := do
  let (parser, calls) := run new events
  let collector ← BlockCollector.collect calls
  return (parser, collector)

theorem run_append (parser : CanonicalHtmlParser) (first second : List HtmlEvent) :
    run parser (first ++ second) =
      ((run (run parser first).1 second).1,
        (run parser first).2 ++ (run (run parser first).1 second).2) := by
  induction first generalizing parser with
  | nil => rfl
  | cons event first ih => simp [run, ih]

end CanonicalHtmlParser

/-! ## Documents -/

/-- The elements that have no end tag. -/
inductive VoidElement where
  | area | base | br | col | embed | hr | img | input | link | metadata | param | source | track
  | wbr
  deriving DecidableEq

def VoidElement.tag : VoidElement → Text
  | .area => "area".toList
  | .base => "base".toList
  | .br => "br".toList
  | .col => "col".toList
  | .embed => "embed".toList
  | .hr => "hr".toList
  | .img => "img".toList
  | .input => "input".toList
  | .link => "link".toList
  | .metadata => "meta".toList
  | .param => "param".toList
  | .source => "source".toList
  | .track => "track".toList
  | .wbr => "wbr".toList

/-- A sequence of texts and elements, each with what follows it. -/
inductive Forest where
  | nil
  | text (data : Text) (rest : Forest)
  | void (name : VoidElement) (rest : Forest)
  | element (tag : Text) (children rest : Forest)
  deriving DecidableEq

/-- An outermost captured element: its tag in lower case and what is inside. -/
structure Element where
  tag : Text
  content : Forest

namespace Forest

def events : Forest → List HtmlEvent
  | nil => []
  | text data rest => .data data :: events rest
  | void name rest => .startTag name.tag :: events rest
  | element tag children rest => .startTag tag :: events children ++ .endTag tag :: events rest

/-- The texts in document order. -/
def texts : Forest → List Text
  | nil => []
  | text data rest => data :: texts rest
  | void _ rest => texts rest
  | element _ children rest => texts children ++ texts rest

/-- How many void elements there are. -/
def voids : Forest → Nat
  | nil => 0
  | text _ rest => voids rest
  | void _ rest => voids rest + 1
  | element _ children rest => voids children + voids rest

/-- The tags alone. -/
def tags : Forest → Forest
  | nil => nil
  | text _ rest => tags rest
  | void name rest => void name (tags rest)
  | element tag children rest => element tag (tags children) (tags rest)

/-- A letter at the head of every element. -/
def fill : Forest → Forest
  | nil => nil
  | text data rest => text data (fill rest)
  | void name rest => void name (fill rest)
  | element tag children rest => element tag (text ['x'] (fill children)) (fill rest)

variable [UnicodeTables]

def outermost : Forest → List Element
  | nil => []
  | text _ rest => outermost rest
  | void _ rest => outermost rest
  | element tag children rest =>
    if CanonicalHtmlParser.captureTags.contains (UnicodeTables.lower tag) then
      ⟨UnicodeTables.lower tag, children⟩ :: outermost rest
    else outermost children ++ outermost rest

end Forest

namespace Element

/-- Every element inside has an end tag. -/
def Closed (element : Element) : Prop := element.content.voids = 0

instance (element : Element) : Decidable element.Closed :=
  inferInstanceAs (Decidable (_ = _))

def text (element : Element) : Text := element.content.texts.flatten

/-- The call of `add` that keeps the element. -/
def call (element : Element) : AddCall :=
  CanonicalHtmlParser.capturedCall element.tag (List.intercalate [' '] element.content.texts)

end Element

/-- The call keeps the element: its kind, its level and its characters. -/
structure Keeps (element : Element) (call : AddCall) : Prop where
  kind : call.kind = element.call.kind
  headingLevel : call.headingLevel = element.call.headingLevel
  text : visible call.text = visible element.text

/-- The calls of `add` that store a block. -/
def storingCalls [UnicodeTables] (forest : Forest) : List AddCall :=
  (CanonicalHtmlParser.run .new forest.events).2.filter fun call =>
    normalizeBlockText call.text ≠ []

/-- Feeding the events stores one block for each outermost captured element with
visible text, in document order. -/
def KeepsElements [UnicodeTables] (forest : Forest) : Prop :=
  ∃ parser collector, CanonicalHtmlParser.feed forest.events = .ok (parser, collector) ∧
    List.Forall₂ (fun call block => ∃ headings, BlockCollector.Stores call headings block)
      (storingCalls forest) collector.blocks ∧
    List.Forall₂ Keeps (forest.outermost.filter fun element => visible element.text ≠ [])
      (storingCalls forest)

/-! ## Calls and blocks -/

open CanonicalHtmlParser

theorem capturedCall_text (captured text : Text) : (capturedCall captured text).text = text := by
  rw [capturedCall]
  split
  · rfl
  · split <;> rfl

theorem capturedCall_page (captured text : Text) :
    (capturedCall captured text).pageNumber = none := by
  rw [capturedCall]
  split
  · rfl
  · split <;> rfl

theorem keeps_call (element : Element) : Keeps element element.call := by
  refine ⟨rfl, rfl, ?_⟩
  rw [Element.call, capturedCall_text, visible_intercalate]
  rfl

section Running

variable [UnicodeTables]

attribute [local simp] run handle Forest.events Forest.texts Forest.voids Forest.fill Forest.tags

/-- Inside a captured element every text is collected, and only void elements
change the depth. -/
theorem run_inside (forest : Forest) (tag : Text) (depth : Int) (parts : List Text)
    (inside : 1 ≤ depth) :
    run ⟨some tag, depth, parts⟩ forest.events =
      (⟨some tag, depth + forest.voids, parts ++ forest.texts⟩, []) := by
  induction forest generalizing depth parts with
  | nil => simp
  | text data rest ih =>
    simp [handleData, ih _ _ inside]
  | void name rest ih =>
    have next := ih (depth + 1) parts (by omega)
    -- the start tag counts, and no end tag takes it back
    simp only [Forest.events, run, handle, handleStarttag, next, Forest.voids, Forest.texts]
    simp
    omega
  | element name children rest ihChildren ihRest =>
    have first := ihChildren (depth + 1) parts (by omega)
    have next := ihRest (depth + children.voids) (parts ++ children.texts) (by omega)
    -- the end tag undoes the start tag, and leaves the depth positive
    have ends : handleEndtag ⟨some tag, depth + 1 + children.voids, parts ++ children.texts⟩ name =
        (⟨some tag, depth + children.voids, parts ++ children.texts⟩, none) := by
      have same : depth + 1 + children.voids - 1 = depth + (children.voids : Int) := by omega
      simp only [handleEndtag, same]
      rw [if_pos (Or.inl (by omega))]
    simp only [Forest.events, run, run_append, handle, handleStarttag, first, ends, next,
      Forest.voids, Forest.texts]
    simp
    omega

theorem void_not_captured (name : VoidElement) :
    captureTags.contains (UnicodeTables.lower name.tag) = false := by
  have ascii : (name.tag.all fun c => c.toNat < 128) = true := by cases name <;> decide
  rw [List.all_eq_true] at ascii
  rw [UnicodeTables.lower_ascii _ fun c member => of_decide_eq_true (ascii c member)]
  cases name <;> decide

/-- Without a void element inside, every captured element ends its own capture. -/
theorem run_closed (forest : Forest) {parser : CanonicalHtmlParser}
    (idle : parser.captureTag = none) (closed : ∀ element ∈ forest.outermost, element.Closed) :
    (run parser forest.events).1.captureTag = none ∧
      (run parser forest.events).2 = forest.outermost.map Element.call := by
  induction forest generalizing parser with
  | nil => exact ⟨idle, rfl⟩
  | text data rest ih =>
    have next := ih idle closed
    simpa [handleData, idle, Forest.outermost] using next
  | void name rest ih =>
    have next := ih idle closed
    simp only [Forest.events, run, handle, handleStarttag, idle, Forest.outermost,
      void_not_captured, Bool.false_eq_true, if_false]
    exact next
  | element tag children rest ihChildren ihRest =>
    by_cases captured : captureTags.contains (UnicodeTables.lower tag) = true
    · rw [Forest.outermost, if_pos captured, List.forall_mem_cons] at closed
      -- inside a captured element only the depth and the text move
      have inside := run_inside children (UnicodeTables.lower tag) 1 [] (Int.le_refl 1)
      have noVoid : children.voids = 0 := closed.1
      have next := @ihRest ⟨none, 0, []⟩ rfl closed.2
      simp only [Forest.events, run, run_append, handle, handleStarttag, idle, captured, if_true,
        inside, noVoid, handleEndtag, Forest.outermost]
      simpa [Element.call] using next
    · rw [Forest.outermost, if_neg captured, List.forall_mem_append] at closed
      obtain ⟨idle', calls⟩ := ihChildren idle closed.1
      have next := ihRest idle' closed.2
      have ends : handleEndtag (run parser children.events).1 tag =
          ((run parser children.events).1, none) := by
        rw [handleEndtag, idle']
      simp only [Forest.events, run, run_append, handle, handleStarttag, idle, captured,
        Bool.false_eq_true, if_false, ends, calls, Forest.outermost]
      simpa using next

/-! ## A capture that its end tag does not end -/

/-- Behind an element whose capture goes on, the parser has made the calls of the
elements before it, and then either none, with all texts still in `parts`, or
one whose text is that of the element and more. -/
def Leaks (elements : List Element) (after : CanonicalHtmlParser × List AddCall) : Prop :=
  ∃ done element later more, elements = done ++ element :: later ∧
    captureTags.contains element.tag = true ∧
    ((after.2 = done.map Element.call ∧
        ∃ depth, after.1 = ⟨some element.tag, depth, element.content.texts ++ more⟩) ∨
      ∃ call calls, after.2 = done.map Element.call ++ call :: calls ∧
        call.text = List.intercalate [' '] (element.content.texts ++ more) ∧
        visible more.flatten ≠ [])

/-- Once a capture goes on, the next call takes the texts so far and those of a
whole further element. -/
theorem run_capturing (forest : Forest) (tag : Text) (depth : Int) (parts : List Text) :
    ∃ more, ((run ⟨some tag, depth, parts⟩ forest.fill.events).2 = [] ∧
        ∃ depth', (run ⟨some tag, depth, parts⟩ forest.fill.events).1 =
          ⟨some tag, depth', parts ++ more⟩) ∨
      ∃ call calls, (run ⟨some tag, depth, parts⟩ forest.fill.events).2 = call :: calls ∧
        call.text = List.intercalate [' '] (parts ++ more) ∧ visible more.flatten ≠ [] := by
  induction forest generalizing depth parts with
  | nil => exact ⟨[], .inl ⟨rfl, depth, by simp⟩⟩
  | text data rest ih =>
    obtain ⟨more, outcome⟩ := ih depth (parts ++ [data])
    refine ⟨data :: more, ?_⟩
    simp only [Forest.fill, Forest.events, run, handle, handleData]
    obtain ⟨none, depth', after⟩ | ⟨call, calls, first, text, seen⟩ := outcome
    · exact .inl ⟨by simp [none], depth', by simp [after]⟩
    · refine .inr ⟨call, calls, by simp [first], by simp [text], ?_⟩
      simp [seen]
  | void name rest ih => exact ih (depth + 1) parts
  | element name children rest ihChildren ihRest =>
    obtain ⟨more, outcome⟩ := ihChildren (depth + 1) (parts ++ [['x']])
    have letter : ∀ texts : List Text, visible (['x'] :: texts).flatten ≠ [] := by
      intro texts
      rw [List.flatten_cons, visible_append]
      exact List.append_ne_nil_of_left_ne_nil (by decide) _
    simp only [Forest.fill, Forest.events, run, run_append, handle, handleStarttag, handleData]
    obtain ⟨none, depth', after⟩ | ⟨call, calls, first, text, -⟩ := outcome
    · have joined : parts ++ [['x']] ++ more = parts ++ ['x'] :: more := by simp
      rw [joined] at after
      by_cases goesOn : 0 < depth' - 1 ∨ UnicodeTables.lower name ≠ tag
      -- the capture goes on behind the element
      · obtain ⟨more', outcome'⟩ := ihRest (depth' - 1) (parts ++ ['x'] :: more)
        refine ⟨['x'] :: (more ++ more'), ?_⟩
        simp only [none, after, handleEndtag, if_pos goesOn]
        obtain ⟨none', depth'', after'⟩ | ⟨call, calls, first', text', -⟩ := outcome'
        · exact .inl ⟨by simp [none'], depth'', by simp [after']⟩
        · exact .inr ⟨call, calls, by simp [first'], by simp [text'], letter _⟩
      -- the end tag of this element ends the capture
      · refine ⟨['x'] :: more, .inr ?_⟩
        simp only [none, after, handleEndtag, if_neg goesOn]
        exact ⟨_, _, rfl, capturedCall_text _ _, letter _⟩
    · refine ⟨['x'] :: more, .inr ⟨call, ?_⟩⟩
      simp only [first]
      exact ⟨_, rfl, by simp [text], letter _⟩

omit [UnicodeTables] in
theorem Leaks.append {elements : List Element} {after : CanonicalHtmlParser × List AddCall}
    (leaks : Leaks elements after) (earlier : List Element) :
    Leaks (earlier ++ elements) (after.1, earlier.map Element.call ++ after.2) := by
  obtain ⟨done, element, later, more, split, captured, outcome⟩ := leaks
  refine ⟨earlier ++ done, element, later, more, by simp [split], captured, ?_⟩
  obtain ⟨calls, capturing⟩ | ⟨call, calls, first, text⟩ := outcome
  · exact .inl ⟨by simp [calls], capturing⟩
  · exact .inr ⟨call, calls, by simp [first], text⟩

/-- A capture that goes on behind its element leaks into what follows. -/
theorem leaks_of_capturing (done later : List Element) (element : Element) (forest : Forest)
    (captured : captureTags.contains element.tag = true) (depth : Int) (parts : List Text) :
    Leaks (done ++ element :: later)
      ((run ⟨some element.tag, depth, element.content.texts ++ parts⟩ forest.fill.events).1,
        done.map Element.call ++
          (run ⟨some element.tag, depth, element.content.texts ++ parts⟩ forest.fill.events).2) := by
  obtain ⟨more, outcome⟩ :=
    run_capturing forest element.tag depth (element.content.texts ++ parts)
  refine ⟨done, element, later, parts ++ more, rfl, captured, ?_⟩
  obtain ⟨none, depth', after⟩ | ⟨call, calls, first, text, seen⟩ := outcome
  · exact .inl ⟨by simp [none], depth', by simp [after]⟩
  · refine .inr ⟨call, calls, by simp [first], by simp [text], ?_⟩
    rw [List.flatten_append, visible_append]
    exact List.append_ne_nil_of_right_ne_nil _ seen

/-- What an element that is not closed does to the rest of the document. -/
theorem run_leaking (forest : Forest) {parser : CanonicalHtmlParser}
    (idle : parser.captureTag = none)
    (leaking : ¬ ∀ element ∈ forest.fill.outermost, element.Closed) :
    Leaks forest.fill.outermost (run parser forest.fill.events) := by
  induction forest generalizing parser with
  | nil => exact absurd nofun leaking
  | text data rest ih =>
    simp only [Forest.fill, Forest.events, run, handle, handleData, idle]
    exact ih idle leaking
  | void name rest ih =>
    simp only [Forest.fill, Forest.events, run, handle, handleStarttag, idle, void_not_captured,
      Bool.false_eq_true, if_false]
    exact ih idle leaking
  | element tag children rest ihChildren ihRest =>
    by_cases captured : captureTags.contains (UnicodeTables.lower tag) = true
    · have inside := run_inside children.fill (UnicodeTables.lower tag) 1 [['x']] (Int.le_refl 1)
      simp only [Forest.fill, Forest.events, run, run_append, handle, handleStarttag, handleData,
        idle, captured, if_true, Forest.outermost, inside, List.nil_append]
      by_cases noVoid : children.fill.voids = 0
      · -- the element ends its own capture, so a later one leaks
        have next := @ihRest ⟨none, 0, []⟩ rfl (by
          intro closed
          apply leaking
          simp only [Forest.fill, Forest.outermost, captured, if_true, List.forall_mem_cons]
          exact ⟨noVoid, closed⟩)
        have first := next.append [⟨UnicodeTables.lower tag, .text ['x'] children.fill⟩]
        simpa [noVoid, handleEndtag, Element.call] using first
      -- the void elements inside keep the depth above zero
      · have goesOn : 0 < (1 : Int) + children.fill.voids - 1 := by omega
        rw [handleEndtag]
        simp only [if_pos (Or.inl goesOn)]
        have next := leaks_of_capturing [] rest.fill.outermost
          ⟨UnicodeTables.lower tag, .text ['x'] children.fill⟩ rest captured
          (1 + children.fill.voids - 1) []
        simpa using next
    · simp only [Forest.fill, Forest.events, run, run_append, handle, handleStarttag, handleData,
        idle, captured, Bool.false_eq_true, if_false, Forest.outermost]
      by_cases closed : ∀ element ∈ children.fill.outermost, element.Closed
      · obtain ⟨idle', calls⟩ := run_closed children.fill idle closed
        have next := @ihRest (run parser children.fill.events).1 idle' (by
          intro closed'
          apply leaking
          simp only [Forest.fill, Forest.outermost, captured, Bool.false_eq_true, if_false,
            List.forall_mem_append]
          exact ⟨closed, closed'⟩)
        simpa [handleEndtag, idle', calls] using next.append children.fill.outermost
      · obtain ⟨done, element, later, more, split, member, outcome⟩ := ihChildren idle closed
        obtain ⟨calls, depth, after⟩ | ⟨call, calls, first, text⟩ := outcome
        · -- the end tag is not the one the capture waits for
          have other : UnicodeTables.lower tag ≠ element.tag := by
            intro same
            exact captured (same ▸ member)
          simp only [calls, after, handleEndtag, if_pos (Or.inr other), split]
          have next := leaks_of_capturing done (later ++ rest.fill.outermost) element rest member
            (depth - 1) more
          simpa using next
        · refine ⟨done, element, later ++ rest.fill.outermost, more, by simp [split], member,
            .inr ⟨call, ?_⟩⟩
          exact ⟨_, by simp [first]; rfl, text⟩

/-! ## Tags and texts -/

namespace Forest

omit [UnicodeTables] in
theorem tags_fill (forest : Forest) : forest.fill.tags = forest.tags := by
  induction forest with
  | nil => rfl
  | text data rest ih => simp [ih]
  | void name rest ih => simp [ih]
  | element tag children rest ihChildren ihRest => simp [ihChildren, ihRest]

omit [UnicodeTables] in
theorem voids_tags (forest : Forest) : forest.tags.voids = forest.voids := by
  induction forest with
  | nil => rfl
  | text data rest ih => simp [ih]
  | void name rest ih => simp [ih]
  | element tag children rest ihChildren ihRest => simp [ihChildren, ihRest]

/-- Which elements are closed is a matter of the tags. -/
theorem closed_tags (forest : Forest) :
    (∀ element ∈ forest.tags.outermost, element.Closed) ↔
      ∀ element ∈ forest.outermost, element.Closed := by
  induction forest with
  | nil => rfl
  | text data rest ih => simpa [outermost] using ih
  | void name rest ih => simpa [outermost] using ih
  | element tag children rest ihChildren ihRest =>
    by_cases captured : captureTags.contains (UnicodeTables.lower tag) = true
    · have same : Element.Closed ⟨UnicodeTables.lower tag, children.tags⟩ ↔
          Element.Closed ⟨UnicodeTables.lower tag, children⟩ := by
        rw [Element.Closed, Element.Closed, voids_tags]
      simp only [tags, outermost, captured, if_true, List.forall_mem_cons, ihRest, same]
    · simp only [tags, outermost, captured, Bool.false_eq_true, if_false,
        List.forall_mem_append, ihChildren, ihRest]

/-- Every captured element of a filled forest starts with a letter. -/
theorem visible_fill (forest : Forest) :
    ∀ element ∈ forest.fill.outermost, visible element.text ≠ [] := by
  induction forest with
  | nil => nofun
  | text data rest ih => exact ih
  | void name rest ih => exact ih
  | element tag children rest ihChildren ihRest =>
    by_cases captured : captureTags.contains (UnicodeTables.lower tag) = true
    · simp only [fill, outermost, captured, if_true, List.forall_mem_cons]
      refine ⟨?_, ihRest⟩
      simp only [Element.text, texts, List.flatten_cons, visible_append]
      exact List.append_ne_nil_of_left_ne_nil (List.cons_ne_nil _ _) _
    · simp only [fill, outermost, captured, Bool.false_eq_true, if_false, List.forall_mem_append]
      exact ⟨ihChildren, ihRest⟩

end Forest

omit [UnicodeTables] in
theorem Element.visible_call (element : Element) :
    visible element.call.text = visible element.text := (keeps_call element).text

omit [UnicodeTables] in
/-- The calls that keep the elements with visible text are those that store a
block. -/
theorem keeps_calls (elements : List Element) :
    List.Forall₂ Keeps (elements.filter fun element => visible element.text ≠ [])
      ((elements.map Element.call).filter fun call => normalizeBlockText call.text ≠ []) := by
  induction elements with
  | nil => exact .nil
  | cons element elements ih =>
    by_cases blank : visible element.text = []
    · simpa [normalizeBlockText_eq_nil, element.visible_call, blank] using ih
    · have kept := List.Forall₂.cons (keeps_call element) ih
      simpa [normalizeBlockText_eq_nil, element.visible_call, blank] using kept

theorem handle_page (parser : CanonicalHtmlParser) (event : HtmlEvent) :
    ∀ call ∈ (parser.handle event).2, call.pageNumber = none := by
  intro call made
  cases event with
  | startTag tag => cases made
  | data text => cases made
  | endTag tag =>
    rw [handle, handleEndtag] at made
    split at made
    · cases made
    · dsimp only at made
      split at made
      · cases made
      · cases made
        exact capturedCall_page _ _

/-- HTML has no pages. -/
theorem run_page (events : List HtmlEvent) (parser : CanonicalHtmlParser) :
    ∀ call ∈ (run parser events).2, call.pageNumber = none := by
  induction events generalizing parser with
  | nil => nofun
  | cons event events ih =>
    simp only [run, List.mem_append, Option.mem_toList]
    rintro call (made | made)
    · exact handle_page parser event call made
    · exact ih _ call made

theorem feed_blocks (events : List HtmlEvent) :
    ∃ parser collector, feed events = .ok (parser, collector) ∧
      List.Forall₂ (fun call block => ∃ headings, BlockCollector.Stores call headings block)
        ((run .new events).2.filter fun call => normalizeBlockText call.text ≠ [])
        collector.blocks := by
  obtain ⟨collector, collected, stored⟩ :=
    @BlockCollector.collect_blocks (run .new events).2 (by
      intro call made page paged
      simp [run_page events _ call made] at paged)
  exact ⟨_, collector, by simp only [feed, collected]; rfl, stored⟩

/-! ## The theorem -/

theorem keepsElements_of_closed {forest : Forest}
    (closed : ∀ element ∈ forest.outermost, element.Closed) : KeepsElements forest := by
  obtain ⟨parser, collector, fed, stored⟩ := feed_blocks forest.events
  refine ⟨parser, collector, fed, stored, ?_⟩
  rw [storingCalls, (run_closed forest rfl closed).2]
  exact keeps_calls forest.outermost

omit [UnicodeTables] in
/-- After a leak either a block is missing or one has text that is not its own. -/
theorem not_keeps_of_leaks {elements : List Element} {after : CanonicalHtmlParser × List AddCall}
    (leaks : Leaks elements after) (seen : ∀ element ∈ elements, visible element.text ≠ []) :
    ¬ List.Forall₂ Keeps elements
      (after.2.filter fun call => normalizeBlockText call.text ≠ []) := by
  intro kept
  obtain ⟨done, element, later, more, rfl, -, outcome⟩ := leaks
  -- what was called for the elements before is stored whole
  have stored : (done.map Element.call).filter (fun call => normalizeBlockText call.text ≠ []) =
      done.map Element.call := by
    apply List.filter_eq_self.mpr
    intro call made
    obtain ⟨element, member, rfl⟩ := List.mem_map.mp made
    simpa [normalizeBlockText_eq_nil, element.visible_call] using
      seen element (List.mem_append_left _ member)
  obtain ⟨calls, -⟩ | ⟨call, calls, first, text, leaked⟩ := outcome
  · rw [calls, stored] at kept
    have same := kept.length_eq
    simp at same
  · -- the call for the element that leaks has more text than the element
    have visibleText : visible call.text = visible element.text ++ visible more.flatten := by
      rw [text, visible_intercalate, List.flatten_append, visible_append]
      rfl
    have storing : normalizeBlockText call.text ≠ [] := by
      rw [Ne, normalizeBlockText_eq_nil, visibleText]
      exact List.append_ne_nil_of_right_ne_nil _ leaked
    rw [first, List.filter_append, stored, List.filter_cons_of_pos (by simpa using storing)] at kept
    have behind := List.forall₂_drop done.length kept
    simp only [List.drop_left', List.length_map] at behind
    have own := (List.forall₂_cons.mp behind).1.text
    rw [visibleText] at own
    exact leaked (List.append_right_eq_self.mp own)

/-- Whatever the texts of a document with these tags are, every element is kept
if and only if no captured element contains a void one. -/
theorem keepsElements_iff (forest : Forest) :
    (∀ document : Forest, document.tags = forest.tags → KeepsElements document) ↔
      ∀ element ∈ forest.outermost, element.Closed := by
  constructor
  · intro keeps
    rw [← Forest.closed_tags, ← Forest.tags_fill, Forest.closed_tags]
    by_contra leaking
    obtain ⟨parser, collector, -, -, kept⟩ := keeps forest.fill forest.tags_fill
    have seen := forest.visible_fill
    rw [List.filter_eq_self.mpr (by simpa using seen)] at kept
    exact not_keeps_of_leaks (run_leaking forest rfl leaking) seen kept
  · intro closed document same
    apply keepsElements_of_closed
    rwa [← Forest.closed_tags, same, Forest.closed_tags]

end Running

/-- `<p>a<br>b</p><p>c</p>`: the parser ends inside the first paragraph. -/
theorem line_break_swallows_document :
    ¬ @KeepsElements asciiTables
      (.element ['p'] (.text ['a'] (.void .br (.text ['b'] .nil)))
        (.element ['p'] (.text ['c'] .nil) .nil)) := by
  rintro ⟨parser, collector, -, -, kept⟩
  exact absurd kept.length_eq (by decide)

end SupportPilot.Rag
