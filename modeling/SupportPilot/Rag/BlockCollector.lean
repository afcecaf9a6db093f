import SupportPilot.Lib.Fallible
import SupportPilot.Lib.Scan
import SupportPilot.Rag.Models

/-! # Collecting blocks and their heading paths

`_BlockCollector` of `packages/rag/parsing.py`.  The collector cuts its list of
open headings by position: a heading of level `n` keeps the first `n - 1` of
them.  A heading should close the open headings of its own level and of deeper
ones (`enclosing`).  The two agree exactly on the headings that are `Regular`
where they stand (`headingPaths_iff`). -/

namespace SupportPilot.Rag

open Lib Lib.Regex

/-- `_WHITESPACE`. -/
def whitespacePattern : Regex := plus (.char isSpace)

def normalizeBlockText (value : Text) : Text := strip (sub whitespacePattern [' '] value)

theorem visible_sub_whitespace (value : Text) :
    visible (sub whitespacePattern [' '] value) = visible value := by
  have nonEmpty : NonEmpty whitespacePattern :=
    nonEmpty_of_consumes (by simp [whitespacePattern, plus, Consumes])
  have inClass : Over isSpace whitespacePattern := by
    simp [whitespacePattern, plus, Over]
  induction value using finditer_induction nonEmpty with
  | nil => rfl
  | unmatched c rest unmatched ih =>
    rw [sub_unmatched _ unmatched]
    simp only [visible, List.filter_cons] at ih ⊢
    rw [ih]
  | matched text n positive within matched ih =>
    have blank : visible (text.take n) = [] :=
      visible_eq_nil.2 (over_of_matchLength inClass matched)
    have split := visible_append (text.take n) (text.drop n)
    rw [List.take_append_drop, blank, List.nil_append] at split
    rw [sub_matched _ positive matched, visible_append, ih, split]
    rfl

/-- Normalising changes whitespace only. -/
theorem visible_normalizeBlockText (value : Text) :
    visible (normalizeBlockText value) = visible value := by
  rw [normalizeBlockText, visible_strip, visible_sub_whitespace]

theorem normalizeBlockText_eq_nil {value : Text} :
    normalizeBlockText value = [] ↔ visible value = [] := by
  rw [← visible_normalizeBlockText, ← strip_eq_nil_iff_visible]
  rw [show strip (normalizeBlockText value) = normalizeBlockText value from strip_idem _]

theorem matchLength_whitespace (c : Char) (rest : Text) :
    matchLength whitespacePattern (c :: rest) =
      if isSpace c then some (1 + (rest.takeWhile isSpace).length) else none :=
  matchLength_plus isSpace c rest

/-- Normalising reads a character, or a run of whitespace. -/
theorem sub_whitespace_cons (c : Char) (rest : Text) :
    sub whitespacePattern [' '] (c :: rest) =
      if isSpace c then ' ' :: sub whitespacePattern [' '] (rest.dropWhile isSpace)
      else c :: sub whitespacePattern [' '] rest := by
  have matched := matchLength_whitespace c rest
  cases space : isSpace c with
  | false =>
    rw [space] at matched
    exact sub_unmatched _ matched
  | true =>
    rw [space, if_pos rfl] at matched
    have whole := List.takeWhile_append_dropWhile (p := isSpace) (l := rest)
    have behind := congrArg (List.drop (rest.takeWhile isSpace).length) whole
    rw [List.drop_left] at behind
    rw [sub_matched _ (by omega) matched, Nat.add_comm 1, List.drop_succ_cons, if_pos rfl, behind]
    rfl

theorem length_sub_whitespace (value : Text) :
    (sub whitespacePattern [' '] value).length ≤ value.length := by
  induction length : value.length using Nat.strong_induction_on generalizing value with
  | _ n shorter =>
    subst length
    cases value with
    | nil => exact Nat.le_refl 0
    | cons c rest =>
      rw [sub_whitespace_cons]
      split
      · have less := (List.dropWhile_suffix isSpace (l := rest)).length_le
        have inner := shorter _ (Nat.lt_succ_of_le less) _ rfl
        simp only [List.length_cons]
        omega
      · have inner := shorter rest.length (Nat.lt_succ_self _) rest rfl
        simp only [List.length_cons]
        omega

theorem length_normalizeBlockText (value : Text) :
    (normalizeBlockText value).length ≤ value.length := by
  have trimmed := (List.rdropWhile_prefix isSpace
    ((sub whitespacePattern [' '] value).dropWhile isSpace)).length_le
  have less := (List.dropWhile_suffix isSpace (l := sub whitespacePattern [' '] value)).length_le
  exact (trimmed.trans less).trans (length_sub_whitespace value)

theorem normalizeBlockText_cons {c : Char} (rest : Text) (space : isSpace c = true) :
    normalizeBlockText (c :: rest) = normalizeBlockText rest := by
  have inner : strip (sub whitespacePattern [' '] (rest.dropWhile isSpace)) =
      strip (sub whitespacePattern [' '] rest) := by
    cases rest with
    | nil => rfl
    | cons d rest =>
      cases again : isSpace d with
      | false => simp [again]
      | true =>
        rw [List.dropWhile_cons, if_pos again, sub_whitespace_cons d, if_pos again]
        rfl
  rw [normalizeBlockText, sub_whitespace_cons, if_pos space, normalizeBlockText, ← inner]
  rfl

/-- Whitespace before the value does not matter. -/
theorem normalizeBlockText_blank_append {blank : Text} (value : Text) (isBlank : visible blank = []) :
    normalizeBlockText (blank ++ value) = normalizeBlockText value := by
  rw [visible_eq_nil] at isBlank
  induction blank with
  | nil => rfl
  | cons c blank ih =>
    rw [List.cons_append, normalizeBlockText_cons _ (isBlank c List.mem_cons_self)]
    exact ih fun d member => isBlank d (.tail _ member)

theorem sub_whitespace_append (value : Text) {blank : Text} (isBlank : visible blank = []) :
    ∃ behind, visible behind = [] ∧ sub whitespacePattern [' '] (value ++ blank) =
      sub whitespacePattern [' '] value ++ behind := by
  induction length : value.length using Nat.strong_induction_on generalizing value with
  | _ n shorter =>
    subst length
    cases value with
    | nil =>
      exact ⟨sub whitespacePattern [' '] blank, by rw [visible_sub_whitespace, isBlank], rfl⟩
    | cons c rest =>
      rw [List.cons_append, sub_whitespace_cons, sub_whitespace_cons c rest]
      split
      · rw [List.dropWhile_append]
        split
        next nothing =>
          rw [List.isEmpty_iff] at nothing
          rw [nothing, List.dropWhile_eq_nil_iff.mpr (visible_eq_nil.1 isBlank)]
          exact ⟨[], rfl, by simp⟩
        · have less := (List.dropWhile_suffix isSpace (l := rest)).length_le
          obtain ⟨behind, isBlank', inner⟩ := shorter _ (Nat.lt_succ_of_le less) _ rfl
          exact ⟨behind, isBlank', by rw [inner, List.cons_append]⟩
      · obtain ⟨behind, isBlank', inner⟩ := shorter rest.length (Nat.lt_succ_self _) rest rfl
        exact ⟨behind, isBlank', by rw [inner, List.cons_append]⟩

/-- Whitespace behind the value does not matter. -/
theorem normalizeBlockText_append_blank (value : Text) {blank : Text} (isBlank : visible blank = []) :
    normalizeBlockText (value ++ blank) = normalizeBlockText value := by
  obtain ⟨behind, isBlank', whole⟩ := sub_whitespace_append value isBlank
  rw [normalizeBlockText, whole, strip_append_blank _ isBlank', normalizeBlockText]

/-- `items[:stop]`. -/
def sliceTo {α : Type} (stop : Int) (items : List α) : List α :=
  items.take (if stop < 0 then (items.length + stop).toNat else stop.toNat)

/-- `f"b{order:06d}"`. -/
def blockIdOf (order : Nat) : Text := 'b' :: (Nat.toDigits 10 order).leftpad 6 '0'

/-- Block ids can be told apart, however many digits they have. -/
theorem blockIdOf_injective : Function.Injective blockIdOf := by
  have value : ∀ order, Nat.ofDigitChars 10 ((Nat.toDigits 10 order).leftpad 6 '0') 0 = order := by
    intro order
    rw [List.leftpad, Nat.ofDigitChars_append, Nat.ofDigitChars_replicate_zero, Nat.mul_zero,
      Nat.ofDigitChars_ten_toDigits]
  intro order order' same
  rw [blockIdOf, blockIdOf, List.cons.injEq] at same
  calc
    order = Nat.ofDigitChars 10 ((Nat.toDigits 10 order).leftpad 6 '0') 0 := (value order).symm
    _ = Nat.ofDigitChars 10 ((Nat.toDigits 10 order').leftpad 6 '0') 0 := by rw [same.2]
    _ = order' := value order'

structure BlockCollector where
  blocks : List CanonicalBlock
  headings : List Text
  characters : Nat

/-- The arguments of a call of `add`. -/
structure AddCall where
  kind : BlockKind
  text : Text
  pageNumber : Option Nat
  headingLevel : Option Int
  deriving DecidableEq

namespace BlockCollector

/-- `_BlockCollector([], [])`. -/
def empty : BlockCollector := ⟨[], [], 0⟩

def add (collector : BlockCollector) (call : AddCall) : Except PyError BlockCollector := do
  let normalized := normalizeBlockText call.text
  if normalized = [] then
    return collector
  let headings := match call.headingLevel with
    | none => collector.headings
    | some level => sliceTo (level - 1) collector.headings ++ [normalized]
  let order := collector.blocks.length
  let block ← CanonicalBlock.new (blockIdOf order) order call.kind normalized headings
    call.pageNumber
  return {
    blocks := collector.blocks ++ [block]
    headings
    characters := collector.characters + normalized.length }

/-- The calls that a parser makes, one after the other. -/
def collect (calls : List AddCall) : Except PyError BlockCollector := calls.foldlM add empty

end BlockCollector

/-! ## Enclosing headings -/

structure Heading where
  level : Int
  text : Text

/-- The heading of a call, unless the call is blank or has no level. -/
def AddCall.heading? (call : AddCall) : Option Heading :=
  if normalizeBlockText call.text = [] then none
  else call.headingLevel.map fun level => ⟨level, normalizeBlockText call.text⟩

/-- The headings that no later heading of the same or a higher rank closes. -/
def enclosing : List Heading → List Heading
  | [] => []
  | heading :: later =>
    if later.all (fun next => heading.level < next.level) then heading :: enclosing later
    else enclosing later

theorem enclosing_cons (heading : Heading) (later : List Heading) :
    enclosing (heading :: later) =
      if later.all (fun next => heading.level < next.level) then heading :: enclosing later
      else enclosing later := rfl

/-- The headings open after the calls. -/
def openHeadings (calls : List AddCall) : List Heading :=
  enclosing (calls.filterMap AddCall.heading?)

/-- The heading path of each block that the calls store. -/
def pathsFrom (before : List AddCall) : List AddCall → List (List Text)
  | [] => []
  | call :: after =>
    let done := before ++ [call]
    if normalizeBlockText call.text = [] then pathsFrom done after
    else (openHeadings done).map Heading.text :: pathsFrom done after

/-- The heading closes no open heading, or no level above it is missing. -/
def Regular (opened : List Heading) (heading : Heading) : Prop :=
  (∀ h ∈ opened, h.level < heading.level) ∨
    ∀ level, 1 ≤ level → level < heading.level → ∃ h ∈ opened, h.level = level

def AllRegular (calls : List AddCall) : Prop :=
  ∀ before call after, calls = before ++ call :: after →
    ∀ heading ∈ call.heading?, Regular (openHeadings before) heading

theorem enclosing_subset (headings : List Heading) : enclosing headings ⊆ headings := by
  induction headings with
  | nil => exact fun _ member => member
  | cons heading later ih =>
    rw [enclosing_cons]
    split
    · exact List.cons_subset_cons heading ih
    · exact List.Subset.trans ih (List.subset_cons_self heading later)

theorem enclosing_sorted (headings : List Heading) :
    (enclosing headings).Pairwise fun h h' => h.level < h'.level := by
  induction headings with
  | nil => exact .nil
  | cons heading later ih =>
    rw [enclosing_cons]
    split
    next below =>
      refine List.pairwise_cons.mpr ⟨fun h member => ?_, ih⟩
      simpa using List.all_eq_true.mp below h (enclosing_subset later member)
    next => exact ih

/-- One more heading closes those that do not rank above it. -/
theorem enclosing_append (headings : List Heading) (heading : Heading) :
    enclosing (headings ++ [heading]) =
      (enclosing headings).filter (fun h => h.level < heading.level) ++ [heading] := by
  induction headings with
  | nil => rfl
  | cons first later ih =>
    simp only [List.cons_append, enclosing_cons, List.all_append, List.all_cons, List.all_nil,
      Bool.and_true, Bool.and_eq_true, ih]
    -- `first` stays open if neither a later heading nor the new one closes it
    by_cases below : later.all (fun next => first.level < next.level) = true
    · by_cases less : first.level < heading.level
      · simp [below, less]
      · simp [below, less]
    · simp [below]

/-- Cutting sorted headings by position and by level gives the same texts
exactly when the heading is regular.  `least` is the smallest level possible. -/
theorem take_eq_filter_iff {opened : List Heading} {least level : Int}
    (sorted : opened.Pairwise fun h h' => h.level < h'.level)
    (bounded : ∀ h ∈ opened, least ≤ h.level) (le : least ≤ level) :
    (opened.take (level - least).toNat).map Heading.text =
        (opened.filter fun h => h.level < level).map Heading.text ↔
      (∀ h ∈ opened, h.level < level) ∨
        ∀ l, least ≤ l → l < level → ∃ h ∈ opened, h.level = l := by
  induction opened generalizing least with
  | nil => simp
  | cons first rest ih =>
    obtain ⟨above, sortedRest⟩ := List.pairwise_cons.mp sorted
    obtain ⟨boundedFirst, boundedRest⟩ := List.forall_mem_cons.mp bounded
    by_cases same : level = least
    · subst same
      have none : (first :: rest).filter (fun h => h.level < level) = [] := by
        refine List.filter_eq_nil_iff.mpr fun h member => ?_
        have := bounded h member
        simpa using this
      rw [none, Int.sub_self]
      exact iff_of_true rfl (.inr fun l low high => absurd low (by omega))
    · have width : (level - least).toNat = (level - (least + 1)).toNat + 1 := by omega
      rw [width, List.take_succ_cons, List.map_cons]
      by_cases less : first.level < level
      · have next := @ih (least + 1) sortedRest
          (fun h member => by have := above h member; omega) (by omega)
        rw [List.filter_cons_of_pos (by simpa using less), List.map_cons, List.cons.injEq,
          and_iff_right rfl, next, List.forall_mem_cons, and_iff_right less]
        refine or_congr_right ⟨fun found l low high => ?_, fun found l low high => ?_⟩
        · by_cases atFirst : first.level = l
          · exact ⟨first, List.mem_cons_self, atFirst⟩
          · by_cases atLeast : first.level = least
            · obtain ⟨h, member, level_eq⟩ := found l (by omega) high
              exact ⟨h, .tail _ member, level_eq⟩
            · -- the level of `first` is not among those behind it
              obtain ⟨h, member, level_eq⟩ := found first.level (by omega) less
              have := above h member
              omega
        · obtain ⟨h, member, level_eq⟩ := found l (by omega) high
          rcases List.mem_cons.mp member with rfl | later
          · -- then `least` would be missing
            obtain ⟨h', member', level_eq'⟩ := found least (Int.le_refl _) (by omega)
            rcases List.mem_cons.mp member' with rfl | later'
            · omega
            · have := above h' later'
              omega
          · exact ⟨h, later, level_eq⟩
      · have none : (first :: rest).filter (fun h => h.level < level) = [] := by
          refine List.filter_eq_nil_iff.mpr fun h member => ?_
          rcases List.mem_cons.mp member with rfl | later
          · simpa using less
          · have := above h later
            simp only [decide_eq_true_eq]
            omega
        rw [none]
        refine iff_of_false (by simp) ?_
        rintro (below | found)
        · exact less (below first List.mem_cons_self)
        · obtain ⟨h, member, level_eq⟩ := found least (Int.le_refl _) (by omega)
          rcases List.mem_cons.mp member with rfl | later
          · omega
          · have := above h later
            omega

/-! ## One call -/

section Calls

variable {call : AddCall} {before : List AddCall}

/-- The open headings behind one more call. -/
theorem openHeadings_append (before : List AddCall) (call : AddCall) :
    openHeadings (before ++ [call]) = call.heading?.elim (openHeadings before) fun heading =>
      (openHeadings before).filter (fun h => h.level < heading.level) ++ [heading] := by
  rw [openHeadings, List.filterMap_append]
  cases heading? : call.heading? with
  | none => simp [heading?, openHeadings]
  | some heading =>
    simp only [List.filterMap_cons, heading?, List.filterMap_nil, Option.elim_some]
    exact enclosing_append _ heading

theorem pathsFrom_append (before calls : List AddCall) (call : AddCall) :
    pathsFrom before (calls ++ [call]) = pathsFrom before calls ++
      if normalizeBlockText call.text = [] then []
      else [(openHeadings (before ++ calls ++ [call])).map Heading.text] := by
  induction calls generalizing before with
  | nil =>
    simp only [List.nil_append, pathsFrom, List.append_nil]
  | cons first calls ih =>
    simp only [List.cons_append, pathsFrom, ih, List.append_assoc, List.nil_append]
    split <;> rfl

theorem allRegular_append : AllRegular (before ++ [call]) ↔
    AllRegular before ∧ ∀ heading ∈ call.heading?, Regular (openHeadings before) heading := by
  constructor
  · intro regular
    refine ⟨fun first c after shape => ?_, regular before call [] rfl⟩
    exact regular first c (after ++ [call]) (by rw [shape, List.append_assoc, List.cons_append])
  · rintro ⟨regular, atCall⟩ first c after shape
    rcases List.eq_nil_or_concat after with rfl | ⟨init, last, rfl⟩
    · obtain ⟨rfl, same⟩ := List.append_inj' shape rfl
      rw [← List.singleton_inj.mp same]
      exact atCall
    · rw [List.concat_eq_append, ← List.cons_append, ← List.append_assoc] at shape
      exact regular first c init (List.append_inj' shape rfl).1

namespace BlockCollector

/-- The block that a call stores. -/
structure Stores (call : AddCall) (headings : List Text) (block : CanonicalBlock) : Prop where
  kind : block.kind = call.kind
  text : block.text = normalizeBlockText call.text
  headingPath : block.headingPath = headings
  pageNumber : block.pageNumber = call.pageNumber

/-- What a call of `add` does: a blank one nothing, any other one stores a block
under the headings that are left. -/
theorem add_stores (collector : BlockCollector) (page : ∀ page ∈ call.pageNumber, 1 ≤ page) :
    ∃ collector', add collector call = .ok collector' ∧
      if normalizeBlockText call.text = [] then collector' = collector
      else (∃ block, collector'.blocks = collector.blocks ++ [block] ∧
          Stores call collector'.headings block) ∧
        collector'.headings = call.headingLevel.elim collector.headings fun level =>
          sliceTo (level - 1) collector.headings ++ [normalizeBlockText call.text] := by
  rw [add]
  by_cases blank : normalizeBlockText call.text = []
  · simp only [blank, if_true]
    exact ⟨collector, rfl, rfl⟩
  · have normalized : strip (normalizeBlockText call.text) = normalizeBlockText call.text :=
      strip_idem _
    -- the block passes every check, whatever the headings
    have valid : ∀ headings, ∃ block, CanonicalBlock.new (blockIdOf collector.blocks.length)
        collector.blocks.length call.kind (normalizeBlockText call.text) headings
        call.pageNumber = .ok block ∧ Stores call headings block := fun headings =>
      ⟨_, CanonicalBlock.new_of_valid ⟨blockIdOf collector.blocks.length, collector.blocks.length,
        call.kind, normalizeBlockText call.text, headings, call.pageNumber, List.cons_ne_nil _ _,
        normalized.symm ▸ blank, normalized, page⟩, rfl, rfl, rfl, rfl⟩
    simp only [if_neg blank]
    cases call.headingLevel with
    | none =>
      obtain ⟨block, built, stores⟩ := valid collector.headings
      simp only [built, bind, Except.bind]
      exact ⟨_, rfl, ⟨block, rfl, stores⟩, rfl⟩
    | some level =>
      obtain ⟨block, built, stores⟩ :=
        valid (sliceTo (level - 1) collector.headings ++ [normalizeBlockText call.text])
      simp only [built, bind, Except.bind]
      exact ⟨_, rfl, ⟨block, rfl, stores⟩, rfl⟩

/-- The heading paths and the open headings after a call. -/
theorem add_ok (collector : BlockCollector) (level : ∀ level ∈ call.headingLevel, 1 ≤ level)
    (page : ∀ page ∈ call.pageNumber, 1 ≤ page) :
    ∃ collector', add collector call = .ok collector' ∧
      if normalizeBlockText call.text = [] then collector' = collector
      else collector'.blocks.map CanonicalBlock.headingPath =
          collector.blocks.map CanonicalBlock.headingPath ++ [collector'.headings] ∧
        collector'.headings = call.heading?.elim collector.headings fun heading =>
          collector.headings.take (heading.level - 1).toNat ++ [heading.text] := by
  obtain ⟨collector', added, spec⟩ := add_stores collector page
  refine ⟨collector', added, ?_⟩
  by_cases blank : normalizeBlockText call.text = []
  · rw [if_pos blank] at spec ⊢
    exact spec
  · rw [if_neg blank] at spec ⊢
    obtain ⟨⟨block, stored, stores⟩, headings⟩ := spec
    constructor
    · rw [stored, List.map_append, List.map_singleton, stores.headingPath]
    · rw [headings, AddCall.heading?, if_neg blank]
      cases known : call.headingLevel with
      | none => rfl
      | some n =>
        have positive := level n known
        simp only [sliceTo, if_neg (show ¬ n - 1 < 0 by omega), Option.map_some, Option.elim_some]

theorem collect_append {calls : List AddCall} {collector collector' : BlockCollector}
    (collected : collect calls = .ok collector) (added : add collector call = .ok collector') :
    collect (calls ++ [call]) = .ok collector' := by
  rw [collect] at collected ⊢
  rw [List.foldlM_append, collected]
  simp only [List.foldlM_cons, List.foldlM_nil, bind, Except.bind, added]
  rfl

/-- Every call that is not blank stores its block. -/
theorem collect_blocks {calls : List AddCall}
    (pages : ∀ call ∈ calls, ∀ page ∈ call.pageNumber, 1 ≤ page) :
    ∃ collector, collect calls = .ok collector ∧
      List.Forall₂ (fun call block => ∃ headings, Stores call headings block)
        (calls.filter fun call => normalizeBlockText call.text ≠ []) collector.blocks := by
  induction calls using List.reverseRecOn with
  | nil => exact ⟨empty, rfl, .nil⟩
  | append_singleton calls call ih =>
    simp only [List.forall_mem_append, List.forall_mem_singleton] at pages
    obtain ⟨collector, collected, related⟩ := ih pages.1
    obtain ⟨collector', added, spec⟩ := add_stores collector pages.2
    refine ⟨collector', collect_append collected added, ?_⟩
    rw [List.filter_append]
    by_cases blank : normalizeBlockText call.text = []
    · rw [if_pos blank] at spec
      simpa [blank, spec] using related
    · rw [if_neg blank] at spec
      obtain ⟨⟨block, stored, stores⟩, -⟩ := spec
      have kept : [call].filter (fun call => normalizeBlockText call.text ≠ []) = [call] := by
        simp [blank]
      rw [stored, kept]
      exact List.rel_append related (.cons ⟨_, stores⟩ .nil)

/-- Ids and orders count the blocks, and `characters` their texts. -/
structure Consistent (collector : BlockCollector) : Prop where
  blockIds : collector.blocks.map CanonicalBlock.blockId =
    (List.range collector.blocks.length).map blockIdOf
  orders : collector.blocks.map CanonicalBlock.order = List.range collector.blocks.length
  characters : collector.characters = (collector.blocks.flatMap CanonicalBlock.text).length

theorem consistent_add {collector collector' : BlockCollector} (consistent : Consistent collector)
    (added : add collector call = .ok collector') : Consistent collector' := by
  rw [add] at added
  by_cases blank : normalizeBlockText call.text = []
  · rw [if_pos blank] at added
    cases added
    exact consistent
  · rw [if_neg blank, bind_eq_ok] at added
    obtain ⟨block, created, stored⟩ := added
    obtain ⟨blockId, order, -, text, -⟩ := CanonicalBlock.new_ok created
    cases stored
    constructor
    · simp [consistent.blockIds, blockId, List.range_succ]
    · simp [consistent.orders, order, List.range_succ]
    · simp [consistent.characters, text]

theorem consistent_collect {calls : List AddCall} {collector : BlockCollector}
    (collected : collect calls = .ok collector) : Consistent collector := by
  apply foldlM_ok (motive := fun _ collector => Consistent collector) _ _ collected
  · exact ⟨rfl, rfl, rfl⟩
  · intro done call collector collector' _ consistent added
    exact consistent_add consistent added

theorem nodup_blockIds {collector : BlockCollector} (consistent : Consistent collector) :
    (collector.blocks.map CanonicalBlock.blockId).Nodup := by
  rw [consistent.blockIds]
  exact List.nodup_range.map blockIdOf_injective

/-- The blocks have what is visible in the calls. -/
theorem visible_stores {calls : List AddCall} {blocks : List CanonicalBlock}
    (stored : List.Forall₂ (fun call block => ∃ headings, Stores call headings block) calls blocks) :
    visible (blocks.flatMap CanonicalBlock.text) = visible (calls.flatMap AddCall.text) := by
  rw [visible_flatMap, visible_flatMap]
  apply flatMap_of_forall₂ (stored.imp _)
  intro call block found
  obtain ⟨headings, stores⟩ := found
  rw [stores.text, visible_normalizeBlockText]

end BlockCollector

/-! ## All calls -/

theorem level_of_heading (level : ∀ level ∈ call.headingLevel, 1 ≤ level) {heading : Heading}
    (known : call.heading? = some heading) : 1 ≤ heading.level := by
  rw [AddCall.heading?] at known
  split at known
  · cases known
  · obtain ⟨l, given, rfl⟩ := Option.map_eq_some_iff.mp known
    exact level l given

theorem level_of_open (levels : ∀ call ∈ before, ∀ level ∈ call.headingLevel, 1 ≤ level)
    {heading : Heading} (member : heading ∈ openHeadings before) : 1 ≤ heading.level := by
  obtain ⟨call, isCall, isHeading⟩ := List.mem_filterMap.mp (enclosing_subset _ member)
  exact level_of_heading (levels call isCall) isHeading

/-- The cut by position and the cut by level agree when the heading is regular. -/
theorem cut_iff (levels : ∀ call ∈ before, ∀ level ∈ call.headingLevel, 1 ≤ level)
    (level : ∀ level ∈ call.headingLevel, 1 ≤ level) :
    (call.heading?.elim ((openHeadings before).map Heading.text) fun heading =>
        ((openHeadings before).map Heading.text).take (heading.level - 1).toNat ++
          [heading.text]) =
      (call.heading?.elim (openHeadings before) fun heading =>
        (openHeadings before).filter (fun h => h.level < heading.level) ++
          [heading]).map Heading.text ↔
      ∀ heading ∈ call.heading?, Regular (openHeadings before) heading := by
  cases known : call.heading? with
  | none => simp
  | some heading =>
    have positive := level_of_heading level known
    simp only [Option.elim_some, List.map_append, List.map_cons, List.map_nil,
      List.append_cancel_right_eq, ← List.map_take, Option.mem_some_iff, forall_eq']
    exact take_eq_filter_iff (enclosing_sorted _) (fun h => level_of_open levels) positive

/-- The collector stores every block under its enclosing headings exactly when
every heading is regular where it stands. -/
theorem headingPaths_iff {calls : List AddCall}
    (levels : ∀ call ∈ calls, ∀ level ∈ call.headingLevel, 1 ≤ level)
    (pages : ∀ call ∈ calls, ∀ page ∈ call.pageNumber, 1 ≤ page) :
    ∃ collector, BlockCollector.collect calls = .ok collector ∧
      (collector.blocks.map CanonicalBlock.headingPath = pathsFrom [] calls ↔ AllRegular calls) := by
  -- as long as the paths agree, so do the open headings
  suffices ∃ collector, BlockCollector.collect calls = .ok collector ∧
      (collector.blocks.map CanonicalBlock.headingPath = pathsFrom [] calls ↔ AllRegular calls) ∧
      (AllRegular calls → collector.headings = (openHeadings calls).map Heading.text) by
    obtain ⟨collector, collected, exact, -⟩ := this
    exact ⟨collector, collected, exact⟩
  induction calls using List.reverseRecOn with
  | nil => exact ⟨BlockCollector.empty, rfl, iff_of_true rfl fun first c after shape => by simp at shape,
      fun _ => rfl⟩
  | append_singleton calls call ih =>
    rw [List.forall_mem_append, List.forall_mem_singleton] at levels pages
    obtain ⟨collector, collected, exact, agree⟩ := ih levels.1 pages.1
    obtain ⟨collector', added, spec⟩ := BlockCollector.add_ok collector levels.2 pages.2
    refine ⟨collector', BlockCollector.collect_append collected added, ?_⟩
    rw [allRegular_append, pathsFrom_append, List.nil_append, openHeadings_append]
    by_cases blank : normalizeBlockText call.text = []
    · have none : call.heading? = none := by rw [AddCall.heading?, if_pos blank]
      rw [if_pos blank] at spec
      rw [if_pos blank, none, spec, List.append_nil]
      simpa using ⟨exact, agree⟩
    · rw [if_neg blank] at spec
      obtain ⟨stored, headings⟩ := spec
      have key := fun regular : AllRegular calls =>
        (headings.trans (by rw [agree regular])).congr_left.trans
          (cut_iff levels.1 levels.2)
      rw [if_neg blank, stored]
      constructor
      · constructor
        · intro same
          obtain ⟨earlier, last⟩ := List.append_singleton_inj.mp same
          have regular := exact.1 earlier
          exact ⟨regular, (key regular).mp last⟩
        · rintro ⟨regular, atCall⟩
          rw [exact.2 regular, (key regular).mpr atCall]
      · rintro ⟨regular, atCall⟩
        exact (key regular).mpr atCall

end Calls

/-- A section with a subsection, then the next section. -/
def nestedCalls : List AddCall :=
  [⟨.heading, "A".toList, none, some 1⟩, ⟨.heading, "B".toList, none, some 2⟩,
    ⟨.paragraph, "text".toList, none, none⟩, ⟨.heading, "C".toList, some 4, some 1⟩]

theorem headingPaths_iff_nested : ∃ collector, BlockCollector.collect nestedCalls = .ok collector ∧
    collector.blocks.map CanonicalBlock.headingPath = pathsFrom [] nestedCalls ∧
    AllRegular nestedCalls := by
  obtain ⟨collector, collected, exact⟩ :=
    @headingPaths_iff nestedCalls (by decide) (by decide)
  have paths : collector.blocks.map CanonicalBlock.headingPath = pathsFrom [] nestedCalls := by
    cases collected.symm.trans rfl
    decide
  exact ⟨collector, collected, paths, exact.1 paths⟩

/-- Two headings of level 3 and nothing above them. -/
def siblingCalls : List AddCall :=
  [⟨.heading, "A".toList, some 1, some 3⟩, ⟨.heading, "B".toList, some 1, some 3⟩]

/-- The second sibling is stored below the first. -/
theorem sibling_stored_as_child : ∃ collector,
    BlockCollector.collect siblingCalls = .ok collector ∧
      collector.blocks.map CanonicalBlock.headingPath = [["A".toList], ["A".toList, "B".toList]] ∧
      pathsFrom [] siblingCalls = [["A".toList], ["B".toList]] :=
  ⟨_, rfl, by decide, by decide⟩

end SupportPilot.Rag
