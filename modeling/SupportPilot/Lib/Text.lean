import Mathlib.Data.List.Basic
import Mathlib.Data.List.DropRight

/-! # Python strings

A `str` is the list of its code points.  `str.isspace` and the `\s` of `re` are
one class, which is small and given here.  The `\w` of `re` depends on the whole
Unicode database; `WordChars` is any table for it with the properties the code
relies on, and `UnicodeTables` adds the case mapping and the normalisation. -/

namespace SupportPilot.Lib

/-- `str.isspace` of one code point, and `\s` of `re`. -/
def isSpace (c : Char) : Bool :=
  let n := c.toNat
  (9 ≤ n && n ≤ 13) || (28 ≤ n && n ≤ 32) || n = 0x85 || n = 0xA0 || n = 0x1680 ||
    (0x2000 ≤ n && n ≤ 0x200A) || n = 0x2028 || n = 0x2029 || n = 0x202F || n = 0x205F ||
    n = 0x3000

/-- The `\w` class of `re`: it agrees with letters, digits and the underscore in
the ASCII range, and contains no whitespace. -/
class WordChars where
  isWord : Char → Bool
  ascii : ∀ c, c.toNat < 128 → isWord c = (c.isAlphanum || c = '_')
  not_space : ∀ c, isWord c = true → isSpace c = false

export WordChars (isWord)

/-- The word characters of the ASCII range only, as under `re.ASCII`. -/
@[reducible] def asciiWords : WordChars where
  isWord c := c.isAlphanum || c = '_'
  ascii _ _ := rfl
  not_space c word := by
    rcases (Bool.or_eq_true _ _).mp word with letter | underscore
    · have range : 48 ≤ c.toNat ∧ c.toNat < 128 := by
        have value : c.toNat = c.val.toNat := rfl
        delta Char.isAlphanum Char.isAlpha Char.isUpper Char.isLower Char.isDigit at letter
        simp only [Bool.or_eq_true, Bool.and_eq_true, decide_eq_true_eq, ge_iff_le,
          UInt32.le_iff_toNat_le] at letter
        simp at letter
        omega
      simp [isSpace]
      omega
    · rw [of_decide_eq_true underscore]
      rfl

/-- `\d` of `re`, with the ASCII digits in the ASCII range. -/
class DecimalChars where
  isDecimal : Char → Bool
  ascii : ∀ c, c.toNat < 128 → isDecimal c = c.isDigit
  not_space : ∀ c, isDecimal c = true → isSpace c = false

export DecimalChars (isDecimal)

theorem not_space_of_isDigit (c : Char) (digit : c.isDigit = true) : isSpace c = false := by
  have range : 48 ≤ c.toNat ∧ c.toNat < 58 := by
    have value : c.toNat = c.val.toNat := rfl
    delta Char.isDigit at digit
    simp only [Bool.and_eq_true, decide_eq_true_eq, ge_iff_le, UInt32.le_iff_toNat_le] at digit
    simp at digit
    omega
  simp [isSpace]
  omega

/-- The digits of the ASCII range only. -/
@[reducible] def asciiDecimals : DecimalChars where
  isDecimal := Char.isDigit
  ascii _ _ := rfl
  not_space := not_space_of_isDigit

/-- What else of the Unicode database the services use: `unicodedata.normalize`
with `"NFKC"`, `str.isprintable` of one code point and `str.lower`, which agree
with the ASCII rules in the ASCII range. -/
class UnicodeTables extends WordChars where
  nfkc : List Char → List Char
  isPrintable : Char → Bool
  lower : List Char → List Char
  nfkc_ascii : ∀ text : List Char, (∀ c ∈ text, c.toNat < 128) → nfkc text = text
  isPrintable_ascii : ∀ c, c.toNat < 128 → isPrintable c = (32 ≤ c.toNat && c.toNat < 127)
  lower_ascii : ∀ text : List Char, (∀ c ∈ text, c.toNat < 128) →
    lower text = text.map Char.toLower

/-- The tables restricted to the ASCII range. -/
@[reducible] def asciiTables : UnicodeTables where
  toWordChars := asciiWords
  nfkc := id
  isPrintable c := 32 ≤ c.toNat && c.toNat < 127
  lower := List.map Char.toLower
  nfkc_ascii _ _ := rfl
  isPrintable_ascii _ _ := rfl
  lower_ascii _ _ := rfl

/-- `str.strip()`. -/
def strip (text : List Char) : List Char :=
  (text.dropWhile isSpace).rdropWhile isSpace

/-- `str.rstrip()`. -/
def rstrip (text : List Char) : List Char := text.rdropWhile isSpace

/-- `text.replace("\r\n", "\n")`. -/
def unixLines : List Char → List Char
  | [] => []
  | '\r' :: '\n' :: rest => '\n' :: unixLines rest
  | c :: rest => c :: unixLines rest

section Slices

variable {α : Type*}

/-- `items[start:stop]` for indices that are not negative. -/
def slice (start stop : Nat) (items : List α) : List α :=
  (items.take stop).drop start

@[simp] theorem length_slice (start stop : Nat) (text : List α) :
    (slice start stop text).length = min stop text.length - start := by
  simp [slice]

theorem slice_zero (stop : Nat) (text : List α) : slice 0 stop text = text.take stop := rfl

theorem slice_eq_take_drop (start stop : Nat) (text : List α) :
    slice start stop text = (text.drop start).take (stop - start) := by
  rw [slice, List.drop_take]

/-- A slice of a slice. -/
theorem slice_slice {a b start stop : Nat} {text : List α} (within : a + stop ≤ b) :
    slice start stop (slice a b text) = slice (a + start) (a + stop) text := by
  simp only [slice_eq_take_drop, List.drop_take, List.drop_drop, List.take_take]
  congr 1
  omega

theorem getElem?_slice {start stop i : Nat} {text : List α} (inside : start + i < stop) :
    (slice start stop text)[i]? = text[start + i]? := by
  rw [slice, List.getElem?_drop, List.getElem?_take_of_lt inside]

theorem slice_append_slice {a b c : Nat} {items : List α} (first : a ≤ b) (second : b ≤ c) :
    slice a b items ++ slice b c items = slice a c items := by
  simp only [slice_eq_take_drop]
  rw [← Nat.sub_add_sub_cancel second first, Nat.add_comm, List.take_add, List.drop_drop,
    Nat.add_sub_cancel' first]

theorem isInfix_slice (start stop : Nat) (items : List α) : slice start stop items <:+: items :=
  (List.drop_suffix _ _).isInfix.trans (List.take_prefix _ _).isInfix

/-- A slice between the ends of another one. -/
theorem slice_isInfix_slice {a b start stop : Nat} (left : a ≤ start) (right : stop ≤ b)
    (items : List α) : slice start stop items <:+: slice a b items := by
  by_cases some : start < stop
  · have inner : slice start stop items = slice (start - a) (stop - a) (slice a b items) := by
      rw [slice_slice (by omega), Nat.add_sub_cancel' left, Nat.add_sub_cancel' (by omega)]
    rw [inner]
    exact isInfix_slice _ _ _
  · have empty : slice start stop items = [] := by
      rw [← List.length_eq_zero_iff, length_slice]
      omega
    rw [empty]
    exact List.nil_infix

/-- `range(0, n, step)`. -/
def rangeStep (n step : Nat) : List Nat :=
  (List.range ((n + step - 1) / step)).map (· * step)

/-- Cutting a list into windows loses nothing. -/
theorem flatMap_windows {step : Nat} (positive : 0 < step) (items : List α) :
    (rangeStep items.length step).flatMap (fun start => slice start (start + step) items) =
      items := by
  have windows : ∀ n, ((List.range n).map (· * step)).flatMap
      (fun start => slice start (start + step) items) = slice 0 (n * step) items := by
    intro n
    induction n with
    | zero => simp [slice]
    | succ n ih =>
      rw [List.range_succ, List.map_append, List.flatMap_append, ih, List.map_singleton,
        List.flatMap_singleton, slice_append_slice (Nat.zero_le _) (Nat.le_add_right _ _),
        Nat.succ_mul]
  rw [rangeStep, windows, slice_zero]
  refine List.take_of_length_le ?_
  have := Nat.lt_div_mul_add positive (a := items.length + step - 1)
  omega

theorem lt_of_mem_rangeStep {n step start : Nat} (positive : 0 < step)
    (member : start ∈ rangeStep n step) : start < n := by
  obtain ⟨i, inside, rfl⟩ := List.mem_map.mp member
  have := (Nat.lt_div_iff_mul_lt positive).mp (List.mem_range.mp inside)
  omega

end Slices

/-- The longest run at the head of a list. -/
theorem exists_run {α : Type*} (p : α → Bool) (text : List α) :
    ∃ u rest, text = u ++ rest ∧ (∀ c ∈ u, p c = true) ∧ ∀ c ∈ rest.head?, p c = false := by
  induction text with
  | nil => exact ⟨[], [], rfl, by simp, by simp⟩
  | cons c text ih =>
    cases accepted : p c with
    | false => exact ⟨[], c :: text, rfl, by simp, by simpa using accepted⟩
    | true =>
      obtain ⟨u, rest, rfl, all, ends⟩ := ih
      refine ⟨c :: u, rest, rfl, fun d member => ?_, ends⟩
      rcases List.mem_cons.mp member with rfl | later
      · exact accepted
      · exact all d later

/-! ## Splitting -/

theorem mem_splitOn {separator : Char} {text part : List Char}
    (member : part ∈ text.splitOn separator) : separator ∉ part ∧ part <:+: text := by
  induction length : text.length using Nat.strong_induction_on generalizing text with
  | _ n shorter =>
    subst length
    by_cases inside : separator ∈ text
    · obtain ⟨u, v, rfl, first⟩ := List.eq_append_cons_of_mem inside
      rw [List.splitOn_append_cons_self_of_not_mem first] at member
      obtain rfl | later := List.mem_cons.mp member
      · exact ⟨first, (List.prefix_append _ _).isInfix⟩
      · obtain ⟨without, isInfix⟩ := shorter v.length (by simp; omega) later rfl
        exact ⟨without,
          isInfix.trans ((List.suffix_cons _ v).trans (List.suffix_append u _)).isInfix⟩
    · rw [List.splitOn_eq_singleton inside, List.mem_singleton] at member
      exact ⟨member ▸ inside, member ▸ List.infix_refl text⟩

theorem mem_intercalate {α : Type*} {separator x : α} {parts : List (List α)}
    (member : x ∈ [separator].intercalate parts) : x = separator ∨ ∃ part ∈ parts, x ∈ part := by
  induction parts with
  | nil => cases member
  | cons first rest ih =>
    cases rest with
    | nil =>
      rw [List.intercalate_singleton] at member
      exact .inr ⟨first, List.mem_cons_self, member⟩
    | cons second rest =>
      rw [List.intercalate_cons_cons, List.mem_append, List.mem_append, List.mem_singleton] at member
      obtain (inFirst | same) | inRest := member
      · exact .inr ⟨first, List.mem_cons_self, inFirst⟩
      · exact .inl same
      · obtain same | ⟨part, isPart, inPart⟩ := ih inRest
        · exact .inl same
        · exact .inr ⟨part, .tail _ isPart, inPart⟩

/-! ## Stripping -/

theorem head_dropWhile {p : Char → Bool} {text : List Char} {c : Char} {rest : List Char}
    (shape : text.dropWhile p = c :: rest) : p c = false := by
  have head := List.head?_dropWhile_not p text
  rw [shape] at head
  simpa using head

theorem stops_dropWhile (p : Char → Bool) (text : List Char) :
    ∀ c ∈ (text.dropWhile p).head?, p c = false := by
  intro c first
  have stopped := List.head?_dropWhile_not p text
  rw [Option.mem_def.mp first] at stopped
  simpa using stopped

/-- The stripped text does not start with whitespace. -/
theorem strip_head {text rest : List Char} {c : Char} (shape : strip text = c :: rest) :
    isSpace c = false := by
  unfold strip at shape
  cases trimmed : text.dropWhile isSpace with
  | nil => simp [trimmed] at shape
  | cons d tail =>
    have notSpace := head_dropWhile trimmed
    rw [trimmed] at shape
    have isPrefix := List.rdropWhile_prefix isSpace (d :: tail)
    rw [shape] at isPrefix
    obtain ⟨suffix, whole⟩ := isPrefix
    cases whole
    exact notSpace

/-- The stripped text does not end with whitespace. -/
theorem strip_last {text : List Char} (nonempty : strip text ≠ []) :
    isSpace ((strip text).getLast nonempty) = false :=
  Bool.eq_false_iff.mpr (List.rdropWhile_last_not isSpace (text.dropWhile isSpace) nonempty)

theorem strip_idem (text : List Char) : strip (strip text) = strip text := by
  cases shape : strip text with
  | nil => rfl
  | cons c rest =>
    have head := strip_head shape
    have nonempty : strip text ≠ [] := by simp [shape]
    have last := strip_last nonempty
    have keep : (c :: rest).dropWhile isSpace = c :: rest := by simp [head]
    rw [strip, keep]
    refine List.rdropWhile_eq_self_iff.mpr fun nonempty => ?_
    simp only [shape] at last
    simp [last]

/-- A text that strips to nothing is whitespace. -/
theorem strip_eq_nil {text : List Char} : strip text = [] ↔ ∀ c ∈ text, isSpace c = true := by
  rw [strip, List.rdropWhile_eq_nil_iff]
  constructor
  · intro allRest c member
    by_contra notSpace
    cases trimmed : text.dropWhile isSpace with
    | nil => exact notSpace (List.dropWhile_eq_nil_iff.mp trimmed c member)
    | cons d tail =>
      have := head_dropWhile trimmed
      rw [trimmed] at allRest
      simp [allRest d List.mem_cons_self] at this
  · intro allSpace c member
    exact allSpace c ((List.dropWhile_suffix isSpace).subset member)

theorem rstrip_ends (text : List Char) : ∀ c ∈ (rstrip text).getLast?, isSpace c = false := by
  intro c last
  by_cases blank : rstrip text = []
  · rw [blank] at last
    cases last
  · rw [List.getLast?_eq_some_getLast blank] at last
    rw [← Option.some.inj last]
    exact Bool.eq_false_iff.mpr (List.rdropWhile_last_not isSpace text blank)

theorem rstrip_subset (text : List Char) : rstrip text ⊆ text :=
  (List.rdropWhile_prefix isSpace text).subset

/-! ## The characters that are not whitespace -/

def visible (text : List Char) : List Char := text.filter fun c => !isSpace c

@[simp] theorem visible_nil : visible [] = [] := rfl

@[simp] theorem visible_append (left right : List Char) :
    visible (left ++ right) = visible left ++ visible right := List.filter_append left right

theorem visible_intercalate (parts : List (List Char)) :
    visible (List.intercalate [' '] parts) = visible parts.flatten := by
  induction parts with
  | nil => rfl
  | cons first rest ih =>
    cases rest with
    | nil => simp [List.intercalate]
    | cons second rest =>
      have blank : visible [' '] = [] := rfl
      rw [List.intercalate_cons_cons, visible_append, visible_append, ih, blank, List.append_nil,
        ← visible_append]
      rfl

theorem visible_flatMap {α : Type*} (f : α → List Char) (xs : List α) :
    visible (xs.flatMap f) = xs.flatMap fun x => visible (f x) := by
  induction xs with
  | nil => rfl
  | cons x xs ih => rw [List.flatMap_cons, List.flatMap_cons, visible_append, ih]

theorem visible_eq_nil {text : List Char} : visible text = [] ↔ ∀ c ∈ text, isSpace c = true := by
  simp [visible]

theorem visible_ne_nil {text : List Char} :
    visible text ≠ [] ↔ ∃ c ∈ text, isSpace c = false := by
  rw [ne_eq, visible_eq_nil]
  simp

theorem strip_eq_nil_iff_visible {text : List Char} : strip text = [] ↔ visible text = [] := by
  rw [strip_eq_nil, visible_eq_nil]

theorem visible_rdropWhile (text : List Char) : visible (text.rdropWhile isSpace) = visible text := by
  have whole := List.rdropWhile_append_rtakeWhile (p := isSpace) (l := text)
  have blank : visible (text.rtakeWhile isSpace) = [] :=
    visible_eq_nil.2 fun c member => List.mem_rtakeWhile_imp member
  conv_rhs => rw [← whole, visible_append, blank, List.append_nil]

theorem visible_dropWhile (text : List Char) : visible (text.dropWhile isSpace) = visible text := by
  have whole := List.takeWhile_append_dropWhile (p := isSpace) (l := text)
  have blank : visible (text.takeWhile isSpace) = [] :=
    visible_eq_nil.2 fun c member => List.mem_takeWhile_imp member
  conv_rhs => rw [← whole, visible_append, blank, List.nil_append]

theorem visible_strip (text : List Char) : visible (strip text) = visible text := by
  rw [strip, visible_rdropWhile, visible_dropWhile]

theorem length_strip_le (text : List Char) : (strip text).length ≤ text.length :=
  ((List.rdropWhile_prefix isSpace _).sublist.trans (List.dropWhile_suffix isSpace).sublist).length_le

/-- Stripping leaves up to two characters exactly if they are not whitespace: those it stops at. -/
theorem le_length_strip {n : Nat} (few : n ≤ 2) (text : List Char) :
    n ≤ (strip text).length ↔ n ≤ (visible text).length := by
  have head : ∀ c rest, strip text = c :: rest → isSpace c = false := fun _ _ => strip_head
  have last : ∀ nonempty : strip text ≠ [], isSpace ((strip text).getLast nonempty) = false :=
    fun nonempty => strip_last nonempty
  rw [← visible_strip text]
  generalize strip text = stripped at head last ⊢
  cases stripped with
  | nil => simp
  | cons c rest =>
    have first := head c rest rfl
    induction rest using List.reverseRecOn with
    | nil => simp [visible, first]
    | append_singleton middle d =>
      have end_visible : isSpace d = false := by simpa using last (by simp)
      simp only [visible, List.length_cons, List.length_append, List.filter_cons,
        List.filter_append, first, end_visible, Bool.not_false, if_true, List.filter_nil]
      simp
      omega

theorem strip_append_blank (text : List Char) {blank : List Char} (isBlank : visible blank = []) :
    strip (text ++ blank) = strip text := by
  rw [visible_eq_nil] at isBlank
  have behind : ∀ text : List Char, (text ++ blank).rdropWhile isSpace = text.rdropWhile isSpace := by
    intro text
    induction blank using List.reverseRecOn with
    | nil => rw [List.append_nil]
    | append_singleton blank c ih =>
      rw [← List.append_assoc, List.rdropWhile_concat_pos _ _ _ (isBlank c (by simp))]
      exact ih fun d member => isBlank d (List.mem_append_left _ member)
  rw [strip, List.dropWhile_append]
  split
  next nothing =>
    rw [List.isEmpty_iff] at nothing
    rw [strip, nothing, List.dropWhile_eq_nil_iff.mpr isBlank]
  · rw [behind, strip]

theorem visible_rstrip (text : List Char) : visible (rstrip text) = visible text :=
  visible_rdropWhile text

theorem visible_unixLines (text : List Char) : visible (unixLines text) = visible text := by
  fun_induction unixLines text with
  | case1 => rfl
  | case2 rest ih =>
    have ends : visible ['\r', '\n'] = visible ['\n'] := rfl
    have left := visible_append ['\n'] (unixLines rest)
    have right := visible_append ['\r', '\n'] rest
    rw [ih, ← ends, ← right] at left
    exact left
  | case3 c rest _ ih =>
    have left := visible_append [c] (unixLines rest)
    have right := visible_append [c] rest
    rw [ih, ← right] at left
    exact left

theorem length_unixLines (text : List Char) : (unixLines text).length ≤ text.length := by
  fun_induction unixLines text with
  | case1 => exact Nat.le_refl 0
  | case2 rest ih =>
    simp only [List.length_cons]
    omega
  | case3 c rest _ ih =>
    simp only [List.length_cons]
    omega

end SupportPilot.Lib
