import SupportPilot.Rag.Candidates

/-! # The tail of a list of fragments

`_tail_overlap` walks a list of fragments from its end.  What it returns is an end of the list, where
the first fragment may have lost tokens (`tailOverlap_shape`), and it holds the last tokens of the
list (`placed_tailOverlap`). -/

namespace SupportPilot.Rag

open Lib Lib.Regex ChunkTokenizer

variable [WordChars]

theorem tailOverlapLoop_zero (fragments : List Fragment) : tailOverlapLoop fragments 0 = [] := by
  cases fragments <;> simp [tailOverlapLoop]

/-- A fragment that is short enough is kept as it is. -/
theorem tailOverlapLoop_whole {fragment : Fragment} {remaining : Nat} (positive : 0 < remaining)
    (short : (spans fragment.text).length ≤ remaining) (rest : List Fragment) :
    tailOverlapLoop (fragment :: rest) remaining =
      fragment :: tailOverlapLoop rest (remaining - (spans fragment.text).length) := by
  rw [tailOverlapLoop, if_neg (Nat.ne_of_gt positive)]
  exact if_pos short

/-- Of a fragment that is too long, the last tokens are kept. -/
theorem tailOverlapLoop_part {fragment : Fragment} (uncut : fragment.Uncut) {remaining : Nat}
    (positive : 0 < remaining) (long : remaining < (spans fragment.text).length)
    (rest : List Fragment) :
    ∃ part, tailOverlapLoop (fragment :: rest) remaining = [part] ∧
      part.block = fragment.block ∧ part.Exact ∧
      part.tokens = fragment.tokens.drop ((spans fragment.text).length - remaining) := by
  -- the suffix that is kept is a candidate of `_fit_piece`
  have cut : (spans fragment.text).length - remaining < (spans fragment.text).length := by omega
  obtain ⟨part, built, sameBlock, exactPart, tokens⟩ :=
    StructureAwareChunker.candidate_ok uncut cut (Nat.le_refl _)
  have length : fragment.tokens.length = (spans fragment.text).length := List.length_map _
  rw [slice, List.take_length] at built
  rw [slice, ← length, List.take_length, length] at tokens
  have some : (spans fragment.text).drop ((spans fragment.text).length - remaining) ≠ [] := by
    rw [← List.length_pos_iff, List.length_drop]
    omega
  refine ⟨part, ?_, sameBlock, exactPart, tokens⟩
  rw [StructureAwareChunker.candidate, fragmentFromTokens_eq _ some] at built
  cases built
  rw [tailOverlapLoop, if_neg (Nat.ne_of_gt positive)]
  dsimp only
  rw [if_neg (Nat.not_le.mpr long), List.head?_eq_some_head some,
    List.getLast?_eq_some_getLast some]

/-! ## Which fragments are returned -/

/-- The loop takes whole fragments, and of one more, if tokens remain, the last tokens. -/
theorem tailOverlapLoop_shape {fragments : List Fragment} (uncut : ∀ f ∈ fragments, f.Uncut)
    (remaining : Nat) :
    ∃ taken left, fragments = taken ++ left ∧
      (tailOverlapLoop fragments remaining = taken ∨
        ∃ whole part behind, taken = behind ++ [whole] ∧
          tailOverlapLoop fragments remaining = behind ++ [part] ∧ part.Exact ∧
          part.Within whole) := by
  induction fragments generalizing remaining with
  | nil => exact ⟨[], [], rfl, .inl rfl⟩
  | cons fragment rest ih =>
    rcases Nat.eq_zero_or_pos remaining with rfl | positive
    · exact ⟨[], fragment :: rest, rfl, .inl (tailOverlapLoop_zero _)⟩
    rcases Nat.lt_or_ge remaining (spans fragment.text).length with long | short
    · obtain ⟨part, cut, sameBlock, exactPart, tokens⟩ :=
        tailOverlapLoop_part (uncut fragment List.mem_cons_self) positive long rest
      have within : part.Within fragment :=
        ⟨sameBlock, fun x member => List.mem_of_mem_drop (tokens ▸ member)⟩
      exact ⟨[fragment], rest, rfl, .inr ⟨fragment, part, [], rfl, cut, exactPart, within⟩⟩
    · -- a whole fragment stands in front of what the loop takes of the others
      obtain ⟨taken, left, whole, shape⟩ := ih (fun f member => uncut f (.tail _ member))
        (remaining - (spans fragment.text).length)
      rw [tailOverlapLoop_whole positive short]
      refine ⟨fragment :: taken, left, by rw [whole, List.cons_append], ?_⟩
      rcases shape with same | ⟨last, part, behind, taken_eq, shape, exactPart, within⟩
      · exact .inl (by rw [same])
      · exact .inr ⟨last, part, fragment :: behind, by rw [taken_eq, List.cons_append],
          by rw [shape, List.cons_append], exactPart, within⟩

/-- The overlap is the end of the list, where its first fragment may have lost tokens. -/
theorem tailOverlap_shape {fragments : List Fragment} (uncut : ∀ f ∈ fragments, f.Uncut)
    (limit : Int) :
    ∃ left taken, fragments = left ++ taken ∧
      (tailOverlap fragments limit = taken ∨
        ∃ whole part behind, taken = whole :: behind ∧
          tailOverlap fragments limit = part :: behind ∧ part.Exact ∧ part.Within whole) := by
  rw [tailOverlap]
  split
  next => exact ⟨fragments, [], (List.append_nil _).symm, .inl rfl⟩
  next =>
    obtain ⟨taken, left, whole, shape⟩ := tailOverlapLoop_shape
      (fun f member => uncut f (List.mem_reverse.mp member)) limit.toNat
    refine ⟨left.reverse, taken.reverse, ?_, ?_⟩
    · rw [← List.reverse_append, ← whole, List.reverse_reverse]
    · rcases shape with same | ⟨last, part, behind, taken_eq, shape, exactPart, within⟩
      · exact .inl (by rw [same])
      · exact .inr ⟨last, part, behind.reverse, by rw [taken_eq, List.reverse_append]; rfl,
          by rw [shape, List.reverse_append]; rfl, exactPart, within⟩

/-- The overlap consists of parts of the list, from its last blocks. -/
theorem tailOverlap_ok {fragments : List Fragment} (exact : ∀ f ∈ fragments, f.Exact)
    (limit : Int) :
    (∀ f ∈ tailOverlap fragments limit, f.Exact ∧ ∃ g ∈ fragments, f.Within g) ∧
      (tailOverlap fragments limit).map Fragment.block <:+ fragments.map Fragment.block := by
  obtain ⟨left, taken, rfl, shape⟩ :=
    tailOverlap_shape (fun f member => (exact f member).uncut) limit
  have inTaken : ∀ f ∈ taken, f.Exact ∧ ∃ g ∈ left ++ taken, f.Within g := by
    intro f member
    have present := List.mem_append_right left member
    exact ⟨exact f present, f, present, .refl f⟩
  rw [List.map_append]
  obtain same | ⟨whole, part, behind, rfl, shape, exactPart, within⟩ := shape
  · rw [same]
    exact ⟨inTaken, List.suffix_append _ _⟩
  · rw [shape, List.map_cons, List.map_cons, within.sameBlock]
    refine ⟨?_, List.suffix_append _ _⟩
    rw [List.forall_mem_cons] at inTaken ⊢
    exact ⟨⟨exactPart, whole, by simp, within⟩, inTaken.2⟩

/-! ## Which tokens they hold -/

/-- The tokens of a fragment, each with its block. -/
def Fragment.placed (fragment : Fragment) : List (CanonicalBlock × TokenSpan) :=
  fragment.tokens.map fun token => (fragment.block, token)

@[simp] theorem Fragment.length_placed (fragment : Fragment) :
    fragment.placed.length = fragment.tokens.length := List.length_map _

theorem Fragment.mem_placed {fragment : Fragment} {b : CanonicalBlock} {x : TokenSpan} :
    (b, x) ∈ fragment.placed ↔ fragment.block = b ∧ x ∈ fragment.tokens := by
  simp only [placed, List.mem_map, Prod.mk.injEq]
  constructor
  · intro found
    obtain ⟨token, member, rfl, rfl⟩ := found
    exact ⟨rfl, member⟩
  · intro found
    obtain ⟨rfl, member⟩ := found
    exact ⟨x, member, rfl, rfl⟩

/-- The counts of fragments add up to their tokens. -/
theorem totalTokens_of_counted {fragments : List Fragment}
    (counted : ∀ f ∈ fragments, f.tokenCount = f.tokens.length) :
    StructureAwareChunker.totalTokens fragments = (fragments.flatMap Fragment.placed).length := by
  induction fragments with
  | nil => rfl
  | cons fragment rest ih =>
    have head := counted fragment List.mem_cons_self
    have others := ih fun f member => counted f (.tail _ member)
    simp only [StructureAwareChunker.totalTokens] at others ⊢
    simp [head, others]

theorem totalTokens_eq {fragments : List Fragment} (exact : ∀ f ∈ fragments, f.Exact) :
    StructureAwareChunker.totalTokens fragments = (fragments.flatMap Fragment.placed).length :=
  totalTokens_of_counted fun f member => (exact f member).tokenCount_eq

omit [WordChars] in
theorem totalTokens_append (left right : List Fragment) :
    StructureAwareChunker.totalTokens (left ++ right) =
      StructureAwareChunker.totalTokens left + StructureAwareChunker.totalTokens right := by
  simp [StructureAwareChunker.totalTokens]

theorem placed_tailOverlapLoop {fragments : List Fragment} (uncut : ∀ f ∈ fragments, f.Uncut)
    (remaining : Nat) :
    (tailOverlapLoop fragments remaining).reverse.flatMap Fragment.placed =
      (fragments.reverse.flatMap Fragment.placed).drop
        ((fragments.reverse.flatMap Fragment.placed).length - remaining) := by
  induction fragments generalizing remaining with
  | nil => simp [tailOverlapLoop]
  | cons fragment rest ih =>
    have uncutHead := uncut fragment List.mem_cons_self
    have length : fragment.placed.length = (spans fragment.text).length := by
      simp [Fragment.tokens]
    have others := ih (fun f member => uncut f (.tail _ member))
      (remaining - (spans fragment.text).length)
    simp only [List.reverse_cons, List.flatMap_append, List.flatMap_singleton, List.length_append]
    generalize rest.reverse.flatMap Fragment.placed = before at others ⊢
    rcases Nat.eq_zero_or_pos remaining with rfl | positive
    · simp [tailOverlapLoop_zero]
    rcases Nat.lt_or_ge remaining (spans fragment.text).length with long | short
    · obtain ⟨part, taken, sameBlock, -, tokens⟩ :=
        tailOverlapLoop_part uncutHead positive long rest
      -- the cut lies inside the fragment
      have inside : before.length + fragment.placed.length - remaining =
          before.length + (fragment.placed.length - remaining) := by omega
      have placed : part.placed = fragment.placed.drop (fragment.placed.length - remaining) := by
        rw [Fragment.placed, Fragment.placed, sameBlock, tokens, List.map_drop, ← length]
        rfl
      rw [taken, List.reverse_singleton, List.flatMap_singleton, inside,
        ← List.drop_drop, List.drop_left, placed]
    · -- the cut lies before the fragment
      have outside : before.length + fragment.placed.length - remaining =
          before.length - (remaining - (spans fragment.text).length) := by omega
      rw [tailOverlapLoop_whole positive short, List.reverse_cons, List.flatMap_append,
        List.flatMap_singleton, others, outside, List.drop_append_of_le_length (Nat.sub_le _ _)]

/-- The overlap holds the last tokens of the list. -/
theorem placed_tailOverlap {fragments : List Fragment} (uncut : ∀ f ∈ fragments, f.Uncut)
    (limit : Int) :
    (tailOverlap fragments limit).flatMap Fragment.placed =
      (fragments.flatMap Fragment.placed).drop
        ((fragments.flatMap Fragment.placed).length - limit.toNat) := by
  rw [tailOverlap]
  split
  next none =>
    have zero : limit.toNat = 0 := by omega
    simp [zero]
  next =>
    have reversed := placed_tailOverlapLoop
      (fun f member => uncut f (List.mem_reverse.mp member)) limit.toNat
    rwa [List.reverse_reverse] at reversed

/-- The overlap has at most `limit` tokens. -/
theorem totalTokens_tailOverlap {fragments : List Fragment} (exact : ∀ f ∈ fragments, f.Exact)
    (limit : Int) :
    StructureAwareChunker.totalTokens (tailOverlap fragments limit) ≤ limit.toNat := by
  have parts := (tailOverlap_ok exact limit).1
  rw [totalTokens_eq fun f member => (parts f member).1,
    placed_tailOverlap (fun f member => (exact f member).uncut), List.length_drop]
  omega

theorem totalTokens_min {fragments : List Fragment}
    (counted : ∀ f ∈ fragments, f.tokenCount = f.tokens.length) (n : Nat) :
    ((fragments.flatMap Fragment.placed).drop
      (StructureAwareChunker.totalTokens fragments - n)).length =
        min n (StructureAwareChunker.totalTokens fragments) := by
  rw [List.length_drop, ← totalTokens_of_counted counted]
  omega

/-- The overlap of fragments that cut no token and carry their number of tokens holds the last
tokens of the list, at their places, in such fragments. -/
theorem tailOverlap_exact {fragments : List Fragment}
    (delimited : ∀ f ∈ fragments, f.Uncut ∧ f.tokenCount = count f.text) (limit : Int) :
    (tailOverlap fragments limit).flatMap Fragment.placed =
        (fragments.flatMap Fragment.placed).drop
          (StructureAwareChunker.totalTokens fragments - limit.toNat) ∧
      StructureAwareChunker.totalTokens (tailOverlap fragments limit) =
        min limit.toNat (StructureAwareChunker.totalTokens fragments) ∧
      (∀ f ∈ tailOverlap fragments limit, f.Uncut ∧ f.tokenCount = count f.text ∧
        f.tokens = (spans f.block.text).filter (Span.inside f.charStart f.charEnd)) ∧
      (∃ left taken, fragments = left ++ taken ∧
        (tailOverlap fragments limit = taken ∨
          ∃ whole part behind, taken = whole :: behind ∧
            tailOverlap fragments limit = part :: behind ∧ part.Within whole)) ∧
      (limit ≤ 0 → tailOverlap fragments limit = []) := by
  have uncut : ∀ f ∈ fragments, f.Uncut := fun f member => (delimited f member).1
  have counted : ∀ f ∈ fragments, f.tokenCount = f.tokens.length := fun f member => by
    rw [(delimited f member).2, Fragment.length_tokens]
  have placed := placed_tailOverlap uncut limit
  rw [← totalTokens_of_counted counted] at placed
  obtain ⟨left, taken, whole, shape⟩ := tailOverlap_shape uncut limit
  have inTaken : ∀ f ∈ taken, f.Uncut ∧ f.tokenCount = count f.text := fun f member =>
    delimited f (by rw [whole]; exact List.mem_append_right _ member)
  -- what is returned is an end of the list, or a part of a fragment and the end behind it
  have each : ∀ f ∈ tailOverlap fragments limit, f.Uncut ∧ f.tokenCount = count f.text := by
    intro f member
    rcases shape with same | ⟨first, part, behind, taken_eq, shape, exact, -⟩
    · exact inTaken f (same ▸ member)
    · rw [shape] at member
      rcases List.mem_cons.mp member with rfl | later
      · exact ⟨exact.uncut, by rw [exact.tokenCount_eq, Fragment.length_tokens]⟩
      · exact inTaken f (by rw [taken_eq]; exact .tail _ later)
  refine ⟨placed, ?_, ?_, ⟨left, taken, whole, ?_⟩, fun none => by rw [tailOverlap, if_pos none]⟩
  · rw [totalTokens_of_counted fun f member => ?_, placed, totalTokens_min counted]
    rw [(each f member).2, Fragment.length_tokens]
  · intro f member
    have ends := each f member
    exact ⟨ends.1, ends.2, Fragment.tokens_eq_filter ends.1⟩
  · rcases shape with same | ⟨first, part, behind, taken_eq, shape, -, within⟩
    · exact .inl same
    · exact .inr ⟨first, part, behind, taken_eq, shape, within⟩

omit [WordChars] in
/-- Two sentences, each a fragment of its own. -/
def sentencesBlock : CanonicalBlock where
  blockId := "b000000".toList
  order := 0
  kind := .paragraph
  text := "One two. Three.".toList
  headingPath := []
  pageNumber := none
  blockId_nonempty := firstId_nonempty
  text_nonempty := List.cons_ne_nil _ _
  text_normalized := rfl
  page_positive := unpaged_positive

omit [WordChars] in
def sentencesFragments : List Fragment :=
  [⟨sentencesBlock, 0, 8, 3⟩, ⟨sentencesBlock, 9, 15, 2⟩]

omit [WordChars] in
/-- The limit lies inside the first fragment. -/
theorem tailOverlap_exact_inside :
    @tailOverlap asciiWords sentencesFragments 3 =
        [⟨sentencesBlock, 7, 8, 1⟩, ⟨sentencesBlock, 9, 15, 2⟩] ∧
      StructureAwareChunker.totalTokens (@tailOverlap asciiWords sentencesFragments 3) = 3 := by
  have delimited : ∀ f ∈ sentencesFragments,
      @Fragment.Uncut asciiWords f ∧ f.tokenCount = @count asciiWords f.text := by
    intro f member
    simp only [sentencesFragments, List.mem_cons, List.not_mem_nil, or_false] at member
    obtain rfl | rfl := member
    · exact ⟨@Fragment.Uncut.mk asciiWords _ (by rw [Boundary]; decide)
        (by rw [Boundary]; decide), by decide⟩
    · exact ⟨@Fragment.Uncut.mk asciiWords _ (by rw [Boundary]; decide)
        (by rw [Boundary]; decide), by decide⟩
  have total := (@tailOverlap_exact asciiWords _ delimited 3).2.1
  exact ⟨by decide, total⟩

end SupportPilot.Rag
