import SupportPilot.Storage.Local

/-! # Sanitised file names

What `sanitize_filename` guarantees.  A name is stripped and then cut to 255 characters, so the cut
can leave a space or a dot at the end, and can cut the extension off.  `sanitizeFilename_exact` says
when it does neither; everything else holds for every name. -/

namespace SupportPilot.Documents

open Lib Storage

/-! ## Stripping -/

/-- A character that `strip(" .")` takes. -/
def isEdge (c : Char) : Bool := c = ' ' || c = '.'

theorem stripDots_subset (text : Text) : stripDots text ⊆ text :=
  ((List.rdropWhile_prefix _ _).sublist.trans (List.dropWhile_suffix _).sublist).subset

theorem stripDots_starts (text : Text) : ∀ c ∈ (stripDots text).head?, isEdge c = false := by
  intro c first
  have isPrefix := List.rdropWhile_prefix isEdge (text.dropWhile isEdge)
  obtain ⟨behind, whole⟩ := isPrefix
  apply stops_dropWhile isEdge text c
  rw [← whole]
  exact List.mem_head?_append_of_mem_head? first

theorem stripDots_ends (text : Text) : ∀ c ∈ (stripDots text).getLast?, isEdge c = false := by
  intro c last
  by_cases nothing : stripDots text = []
  · rw [nothing] at last
    cases last
  · rw [List.getLast?_eq_some_getLast nothing] at last
    rw [← Option.some.inj last]
    exact Bool.eq_false_iff.mpr (List.rdropWhile_last_not isEdge _ nothing)

theorem not_edge {c : Char} (other : isEdge c = false) : c ≠ ' ' ∧ c ≠ '.' := by
  simpa [isEdge] using other

/-! ## The last dot -/

theorem pathName_of_safe {name : Text} (safe : SafePart name) : pathName name = name := by
  have single : '/' ∉ name := fun member => (safe.plain '/' member).1 rfl
  have nonempty := safe.nonempty
  have notDot : name ≠ ['.'] := safe.notDot
  rw [pathName, List.splitOn_eq_singleton single]
  simp [nonempty, notDot]

theorem exists_last_dot {name : Text} (dotted : '.' ∈ name) :
    ∃ u v, name = u ++ '.' :: v ∧ '.' ∉ v := by
  obtain ⟨v, u, shape, first⟩ := List.eq_append_cons_of_mem (List.mem_reverse.mpr dotted)
  refine ⟨u.reverse, v.reverse, ?_, ?_⟩
  · rw [← List.reverse_reverse name, shape]
    simp
  · rw [List.mem_reverse]
    exact first

theorem suffixStart_append (u : Text) {v : Text} (last : '.' ∉ v) :
    suffixStart (u ++ '.' :: v) = if u ≠ [] ∧ v ≠ [] then some u.length else none := by
  have rest : (u ++ '.' :: v).reverse.dropWhile (· ≠ '.') = '.' :: u.reverse := by
    rw [List.reverse_append, List.reverse_cons, List.append_assoc, List.dropWhile_append_of_pos]
    · rfl
    · intro c member
      rw [List.mem_reverse] at member
      simp only [ne_eq, decide_not, Bool.not_eq_true', decide_eq_false_iff_not]
      rintro rfl
      exact last member
  have inside : (1 < u.length + 1 ∧ u.length + 1 < u.length + (v.length + 1)) ↔ u ≠ [] ∧ v ≠ [] := by
    rw [← List.length_pos_iff, ← List.length_pos_iff]
    omega
  simp only [suffixStart, rest, List.length_cons, List.length_reverse, List.length_append, inside,
    Nat.add_sub_cancel]

theorem pathSuffix_append {u v : Text} (safe : SafePart (u ++ '.' :: v)) (last : '.' ∉ v) :
    pathSuffix (u ++ '.' :: v) = if u ≠ [] ∧ v ≠ [] then '.' :: v else [] := by
  rw [pathSuffix, pathName_of_safe safe, suffixStart_append u last]
  by_cases some : u ≠ [] ∧ v ≠ []
  · simp only [if_pos some, List.drop_left]
  · simp only [if_neg some]

theorem pathSuffix_of_no_dot {name : Text} (safe : SafePart name) (noDot : '.' ∉ name) :
    pathSuffix name = [] := by
  have rest : name.reverse.dropWhile (· ≠ '.') = [] := by
    rw [List.dropWhile_eq_nil_iff]
    intro c member
    rw [List.mem_reverse] at member
    simp only [ne_eq, decide_not, Bool.not_eq_true', decide_eq_false_iff_not]
    rintro rfl
    exact noDot member
  have none : suffixStart name = none := by
    simp only [suffixStart, rest, List.length_nil]
    exact if_neg (by omega)
  rw [pathSuffix, pathName_of_safe safe, none]

/-! ## Names -/

section Names

variable [UnicodeTables]

/-- `[\w.() -]`. -/
def isAllowed (c : Char) : Bool := isWord c || c = '.' || c = '(' || c = ')' || c = ' ' || c = '-'

/-- The value of `sanitize_filename` before it is cut. -/
def cleanedName (filename : Option Text) : Text :=
  let given := match filename with
    | none | some [] => "upload".toList
    | some name => name
  let leaf := pathName ((UnicodeTables.nfkc given).map fun c => if c = '\\' then '/' else c)
  let cleaned := stripDots (Regex.sub unsafeRun ['_'] (leaf.filter UnicodeTables.isPrintable))
  if cleaned = [] then "upload".toList else cleaned

theorem sanitizeFilename_eq (filename : Option Text) :
    sanitizeFilename filename = (cleanedName filename).take 255 := rfl

/-- `validate_media_type` knows the extension. -/
def isKnown (extension : Text) : Bool :=
  (mediaByExtension.lookup (UnicodeTables.lower extension)).isSome

def hasKnownExtension (name : Text) : Bool := isKnown (pathSuffix name)

/-- A name that is safe to store. -/
structure SafeName (name : Text) : Prop where
  nonempty : name ≠ []
  short : name.length ≤ 255
  allowed : ∀ c ∈ name, isAllowed c = true
  starts : ∀ c ∈ name.head?, c ≠ ' ' ∧ c ≠ '.'
  ends : ∀ c ∈ name.getLast?, c ≠ ' ' ∧ c ≠ '.'

/-- The first 255 characters of a longer name end neither in a space nor in a dot, and keep a known
extension if the name has one: what is behind their last dot is one. -/
def CutKeeps (name : Text) : Prop :=
  name.length ≤ 255 ∨
    (∀ c ∈ name[254]?, c ≠ ' ' ∧ c ≠ '.') ∧
    (hasKnownExtension name = true → ∃ dot, 0 < dot ∧ dot < 255 ∧ name[dot]? = some '.' ∧
      (∀ k, dot < k → k < 255 → name[k]? ≠ some '.') ∧ isKnown (slice dot 255 name) = true)

/-! ## Cleaning -/

theorem isAllowed_upload : ∀ c ∈ "upload".toList, isAllowed c = true := by
  intro c member
  have letters : ("upload".toList.all fun c => c.toNat < 128 && c.isAlphanum) = true := by decide
  have letter := List.all_eq_true.mp letters c member
  rw [Bool.and_eq_true, decide_eq_true_eq] at letter
  simp [isAllowed, WordChars.ascii c letter.1, letter.2]

theorem isAllowed_underscore : isAllowed '_' = true := by
  have word := WordChars.ascii '_' (by decide)
  simp [isAllowed, word]

/-- What the expression leaves is allowed. -/
theorem sub_allowed (text : Text) : ∀ c ∈ Regex.sub unsafeRun ['_'] text, isAllowed c = true := by
  have nonEmpty : Regex.NonEmpty unsafeRun :=
    Regex.nonEmpty_of_consumes (by simp [unsafeRun, Regex.plus, Regex.Consumes])
  induction text using Regex.finditer_induction nonEmpty with
  | nil =>
    intro c member
    cases member
  | unmatched d rest unmatched ih =>
    have kept : isAllowed d = true := by
      have matched := Regex.matchLength_plus (fun c => !isAllowed c) d rest
      cases allowed : isAllowed d with
      | true => rfl
      | false =>
        rw [allowed, Bool.not_false, if_pos rfl] at matched
        cases unmatched.symm.trans matched
    rw [Regex.sub_unmatched _ unmatched]
    exact List.forall_mem_cons.mpr ⟨kept, ih⟩
  | matched text n positive within matched ih =>
    rw [Regex.sub_matched _ positive matched]
    exact List.forall_mem_cons.mpr ⟨isAllowed_underscore, ih⟩

/-- Before it is cut, a name is safe but for its length. -/
theorem cleanedName_safe (filename : Option Text) :
    cleanedName filename ≠ [] ∧ (∀ c ∈ cleanedName filename, isAllowed c = true) ∧
      (∀ c ∈ (cleanedName filename).head?, c ≠ ' ' ∧ c ≠ '.') ∧
      ∀ c ∈ (cleanedName filename).getLast?, c ≠ ' ' ∧ c ≠ '.' := by
  obtain ⟨text, shape⟩ : ∃ text, cleanedName filename =
      if stripDots (Regex.sub unsafeRun ['_'] text) = [] then "upload".toList
      else stripDots (Regex.sub unsafeRun ['_'] text) := ⟨_, rfl⟩
  rw [shape]
  split
  · exact ⟨by decide, isAllowed_upload, by simp, by simp⟩
  next some =>
    refine ⟨some, ?_, ?_, ?_⟩
    · exact fun c member => sub_allowed text c (stripDots_subset _ member)
    · exact fun c first => not_edge (stripDots_starts _ c first)
    · exact fun c last => not_edge (stripDots_ends _ c last)

theorem isAllowed_plain {c : Char} (allowed : isAllowed c = true) :
    c ≠ '/' ∧ c ≠ '\\' ∧ c ≠ '\x00' := by
  have barred : (['/', '\\', '\x00'].all fun c => c.toNat < 128 && !(c.isAlphanum || c = '_') &&
      !(c = '.' || c = '(' || c = ')' || c = ' ' || c = '-')) = true := by decide
  have excluded : ∀ d ∈ ['/', '\\', '\x00'], c ≠ d := by
    rintro d member rfl
    have bar := List.all_eq_true.mp barred c member
    simp only [Bool.and_eq_true, decide_eq_true_eq, Bool.not_eq_true'] at bar
    obtain ⟨⟨ascii, notWord⟩, notOther⟩ := bar
    have word := WordChars.ascii c ascii
    rw [notWord] at word
    simp only [Bool.or_eq_false_iff] at notOther
    simp [isAllowed, word, notOther] at allowed
  exact ⟨excluded _ (by simp), excluded _ (by simp), excluded _ (by simp)⟩

/-- A name that starts with an allowed character other than a dot is a part of a key. -/
theorem safePart_of_allowed {name : Text} (nonempty : name ≠ [])
    (allowed : ∀ c ∈ name, isAllowed c = true) (starts : ∀ c ∈ name.head?, c ≠ ' ' ∧ c ≠ '.') :
    SafePart name := by
  constructor
  · exact nonempty
  · rintro rfl
    exact (starts '.' rfl).2 rfl
  · rintro rfl
    exact (starts '.' rfl).2 rfl
  · exact fun c member => isAllowed_plain (allowed c member)

/-- What is cut off does not matter for the start of a name. -/
theorem cut_safe {name : Text} (nonempty : name ≠ []) (allowed : ∀ c ∈ name, isAllowed c = true)
    (starts : ∀ c ∈ name.head?, c ≠ ' ' ∧ c ≠ '.') :
    name.take 255 ≠ [] ∧ (∀ c ∈ name.take 255, isAllowed c = true) ∧
      ∀ c ∈ (name.take 255).head?, c ≠ ' ' ∧ c ≠ '.' := by
  refine ⟨by simpa using nonempty, fun c member => allowed c (List.mem_of_mem_take member), ?_⟩
  rw [List.head?_take, if_neg (by decide)]
  exact starts

theorem isSpace_of_isAllowed {c : Char} (allowed : isAllowed c = true) (other : c ≠ ' ') :
    isSpace c = false := by
  simp only [isAllowed, Bool.or_eq_true, decide_eq_true_eq] at allowed
  obtain ((((word | rfl) | rfl) | rfl) | rfl) | rfl := allowed
  · exact WordChars.not_space c word
  · rfl
  · rfl
  · rfl
  · exact absurd rfl other
  · rfl

omit [UnicodeTables] in
theorem isPrefix_pathStem {name : Text} (safe : SafePart name) : pathStem name <+: name := by
  rw [pathStem, pathName_of_safe safe]
  split
  · exact List.take_prefix _ name
  · exact List.prefix_refl name

/-- Neither a sanitised name nor a part at its start is whitespace. -/
theorem strip_start_ne_nil {filename : Option Text} {start : Text}
    (isPrefix : start <+: sanitizeFilename filename) (nonempty : start ≠ []) : strip start ≠ [] := by
  obtain ⟨nonempty', allowed, starts, -⟩ := cleanedName_safe filename
  obtain ⟨-, allowed', starts'⟩ := cut_safe nonempty' allowed starts
  rw [← sanitizeFilename_eq] at allowed' starts'
  intro blank
  obtain ⟨c, rest, rfl⟩ := List.exists_cons_of_ne_nil nonempty
  obtain ⟨behind, whole⟩ := isPrefix
  rw [← whole] at allowed' starts'
  have space := strip_eq_nil.1 blank c List.mem_cons_self
  have visible := isSpace_of_isAllowed (allowed' c (by simp)) (starts' c rfl).1
  rw [space] at visible
  cases visible

/-! ## Extensions -/

theorem isKnown_nil : isKnown [] = false := by
  have lower := UnicodeTables.lower_ascii [] (by simp)
  rw [isKnown, lower]
  decide

theorem isKnown_dot : isKnown ['.'] = false := by
  have lower := UnicodeTables.lower_ascii ['.'] (by simp)
  rw [isKnown, lower]
  decide

/-- A name has a known extension when what is behind its last dot is one. -/
theorem hasKnownExtension_iff {name : Text} (safe : SafePart name) :
    hasKnownExtension name = true ↔ ∃ u v, name = u ++ '.' :: v ∧ u ≠ [] ∧ '.' ∉ v ∧
      isKnown ('.' :: v) = true := by
  rw [hasKnownExtension]
  constructor
  · intro known
    by_cases dotted : '.' ∈ name
    · obtain ⟨u, v, shape, last⟩ := exists_last_dot dotted
      rw [shape] at safe known
      rw [pathSuffix_append safe last] at known
      split at known
      next some => exact ⟨u, v, shape, some.1, last, known⟩
      · rw [isKnown_nil] at known
        cases known
    · rw [pathSuffix_of_no_dot safe dotted, isKnown_nil] at known
      cases known
  · intro found
    obtain ⟨u, v, rfl, some, last, known⟩ := found
    have some' : v ≠ [] := by
      rintro rfl
      rw [isKnown_dot] at known
      cases known
    rw [pathSuffix_append safe last, if_pos ⟨some, some'⟩]
    exact known

/-! ## The cut -/

/-- The extension of the first characters of a longer name. -/
theorem hasKnownExtension_take {name : Text} {n : Nat} (long : n ≤ name.length)
    (safe : SafePart (name.take n)) :
    hasKnownExtension (name.take n) = true ↔ ∃ dot, 0 < dot ∧ dot < n ∧ name[dot]? = some '.' ∧
      (∀ k, dot < k → k < n → name[k]? ≠ some '.') ∧ isKnown (slice dot n name) = true := by
  rw [hasKnownExtension_iff safe]
  constructor
  · intro found
    obtain ⟨u, v, shape, some, last, known⟩ := found
    have size := congrArg List.length shape
    simp only [List.length_take, List.length_append, List.length_cons] at size
    have inside : u.length < n := by omega
    -- the dot stands where the stem ends
    refine ⟨u.length, List.length_pos_iff.mpr some, inside, ?_, ?_, ?_⟩
    · rw [← List.getElem?_take_of_lt inside, shape]
      simp
    · intro k after before isDot
      rw [← List.getElem?_take_of_lt before, shape, List.getElem?_append_right (by omega)] at isDot
      obtain ⟨m, behind⟩ : ∃ m, k - u.length = m + 1 := ⟨k - u.length - 1, by omega⟩
      rw [behind, List.getElem?_cons_succ] at isDot
      exact last (List.mem_of_getElem? isDot)
    · rw [slice, shape, List.drop_left]
      exact known
  · intro found
    obtain ⟨dot, positive, inside, isDot, others, known⟩ := found
    rw [← List.getElem?_take_of_lt inside] at isDot
    obtain ⟨within, isDot⟩ := List.getElem?_eq_some_iff.mp isDot
    have behind := List.drop_eq_getElem_cons within
    rw [isDot] at behind
    -- the stem and the extension are what stands before and behind the dot
    refine ⟨(name.take n).take dot, (name.take n).drop (dot + 1), ?_, ?_, ?_, ?_⟩
    · rw [← behind, List.take_append_drop]
    · rw [ne_eq, ← List.length_eq_zero_iff, List.length_take]
      omega
    · intro member
      obtain ⟨k, isNth⟩ := List.mem_iff_getElem?.mp member
      rw [List.getElem?_drop] at isNth
      have before : dot + 1 + k < n := by
        have less := (List.getElem?_eq_some_iff.mp isNth).1
        rw [List.length_take] at less
        omega
      rw [List.getElem?_take_of_lt before] at isNth
      exact others (dot + 1 + k) (by omega) before isNth
    · rw [← behind]
      exact known

/-- A sanitised name is safe, keeps a known extension and makes a key below the root, exactly when
the cut to 255 characters leaves no space or dot at the end and no other extension. -/
theorem sanitizeFilename_exact (filename : Option Text) :
    (SafeName (sanitizeFilename filename) ∧
      sanitizeFilename filename ≠ ".".toList ∧ sanitizeFilename filename ≠ "..".toList ∧
      (hasKnownExtension (cleanedName filename) = true →
        hasKnownExtension (sanitizeFilename filename) = true) ∧
      ∀ (store : LocalObjectStore) (workspaceId documentId versionId : UUID),
        store.path (keyText (.version workspaceId documentId versionId (sanitizeFilename filename))) =
          .ok (store.root ++ keyParts
            (.version workspaceId documentId versionId (sanitizeFilename filename)))) ↔
      CutKeeps (cleanedName filename) := by
  obtain ⟨nonempty, allowed, starts, ends⟩ := cleanedName_safe filename
  rw [sanitizeFilename_eq]
  generalize cleanedName filename = name at nonempty allowed starts ends ⊢
  obtain ⟨nonempty', allowed', starts'⟩ := cut_safe nonempty allowed starts
  have safe := safePart_of_allowed nonempty' allowed' starts'
  have key := fun (store : LocalObjectStore) workspaceId documentId versionId =>
    path_of_version store workspaceId documentId versionId safe
  have short : (name.take 255).length ≤ 255 := List.length_take_le 255 name
  -- the last character of a name that is cut
  have last : 255 < name.length → (name.take 255).getLast? = name[254]? := by
    intro long
    have within : 254 < name.length := by omega
    rw [List.getLast?_take, if_neg (by decide), List.getElem?_eq_getElem within, Option.some_or]
  constructor
  · intro claim
    obtain ⟨safeName, -, -, extension, -⟩ := claim
    -- a name that is short enough is not cut
    by_cases fits : name.length ≤ 255
    · exact .inl fits
    · refine .inr ⟨?_, ?_⟩
      · rw [← last (by omega)]
        exact safeName.ends
      · intro known
        exact (hasKnownExtension_take (by omega) safe).mp (extension known)
  · intro keeps
    refine ⟨⟨nonempty', short, allowed', starts', ?_⟩, safe.notDot, safe.notParent, ?_, key⟩
    · by_cases fits : name.length ≤ 255
      · rw [List.take_of_length_le fits]
        exact ends
      · rw [last (by omega)]
        exact (keeps.resolve_left fits).1
    · intro known
      by_cases fits : name.length ≤ 255
      · rw [List.take_of_length_le fits]
        exact known
      · exact (hasKnownExtension_take (by omega) safe).mpr ((keeps.resolve_left fits).2 known)

end Names

/-- A name whose 255th character is a space. -/
def longName : Text := List.replicate 254 'a' ++ " b.pdf".toList

/-- The cut leaves a space at the end and takes the extension. -/
theorem sanitizeFilename_cuts_extension :
    @cleanedName asciiTables (some longName) = longName ∧
      @hasKnownExtension asciiTables longName = true ∧
      (@sanitizeFilename asciiTables (some longName)).getLast? = some ' ' ∧
      @hasKnownExtension asciiTables (@sanitizeFilename asciiTables (some longName)) = false := by
  refine ⟨?_, ?_, ?_, ?_⟩ <;> decide +kernel

end SupportPilot.Documents
