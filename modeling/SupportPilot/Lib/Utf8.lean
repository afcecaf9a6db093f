import Mathlib.Data.List.Basic

/-! # UTF-8

Decoding a list of bytes inverts encoding (`decode_eq_some`).  A prefix of an encoded text
decodes exactly where a character starts behind it (`decode_take_isSome`). -/

namespace SupportPilot.Lib.Utf8

variable {bytes : List UInt8} {text : List Char}

def pack (bytes : List UInt8) : ByteArray := ⟨bytes.toArray⟩

theorem toByteArray_eq_pack (bytes : List UInt8) : bytes.toByteArray = pack bytes := by
  apply ByteArray.ext
  simp [pack]

theorem decode_eq_some :
    (pack bytes).utf8Decode?.map Array.toList = some text ↔
      bytes = text.flatMap String.utf8EncodeChar := by
  constructor
  · intro decoded
    obtain ⟨array, some, rfl⟩ := Option.map_eq_some_iff.mp decoded
    have encoded := ByteArray.utf8Encode_get_utf8Decode? (b := pack bytes) (h := by rw [some]; rfl)
    simp only [some, Option.get_some, List.utf8Encode, toByteArray_eq_pack] at encoded
    have same := congrArg (fun b => b.data.toList) encoded
    simpa [pack] using same.symm
  · rintro rfl
    have encoded : pack (text.flatMap String.utf8EncodeChar) = text.utf8Encode := by
      rw [List.utf8Encode, toByteArray_eq_pack]
    rw [encoded, List.utf8Decode?_utf8Encode]
    rfl

/-- A cut of an encoded text decodes where it is one between two characters. -/
theorem decode_take_isSome (encoded : bytes = text.flatMap String.utf8EncodeChar) (n : Nat) :
    (pack (bytes.take n)).utf8Decode?.isSome ↔ ∀ b ∈ bytes[n]?, b.IsUTF8FirstByte := by
  have whole : (String.ofList text).toByteArray = pack bytes := by
    rw [encoded, String.toByteArray_ofList, List.utf8Encode, toByteArray_eq_pack]
  have part : pack (bytes.take n) = (pack bytes).extract 0 n := by
    apply ByteArray.ext
    simp [pack]
  have size : (String.ofList text).rawEndPos = ⟨bytes.length⟩ := by
    have size := congrArg ByteArray.size whole
    rw [String.size_toByteArray] at size
    exact congrArg String.Pos.Raw.mk size
  rw [ByteArray.isSome_utf8Decode?_iff, part]
  rcases Nat.lt_or_ge n bytes.length with inside | outside
  · -- the cut is a position of the text
    have valid : ((pack bytes).extract 0 n).IsValidUTF8 ↔
        (String.Pos.Raw.mk n).IsValid (String.ofList text) := by
      rw [String.Pos.Raw.isValid_iff_isValidUTF8_extract_zero, size, whole]
      simp [String.Pos.Raw.le_iff, Nat.le_of_lt inside]
    have before : String.Pos.Raw.mk n < (String.ofList text).rawEndPos := by
      rw [size]
      exact inside
    have byte : (String.ofList text).getUTF8Byte ⟨n⟩ before = bytes[n] := by
      simp only [String.getUTF8Byte, whole]
      rfl
    have notEnd : String.Pos.Raw.mk n ≠ (String.ofList text).rawEndPos := by
      rw [size]
      simpa using Nat.ne_of_lt inside
    rw [valid, String.Pos.Raw.isValid_iff_isUTF8FirstByte, List.getElem?_eq_getElem inside]
    constructor
    · rintro (atEnd | ⟨_, first⟩)
      · exact absurd atEnd notEnd
      · simpa [byte] using first
    · intro first
      exact .inr ⟨before, by simpa [byte] using first⟩
  · -- nothing is cut off
    have all : (pack bytes).extract 0 n = pack bytes := by
      rw [← part, List.take_of_length_le outside]
    rw [all, ← whole, List.getElem?_eq_none outside]
    simp only [Option.mem_def, reduceCtorEq, false_implies, implies_true, iff_true]
    exact (String.ofList text).isValidUTF8

/-- A byte below 128 is a character. -/
theorem toNat_of_mem {c : Char} {b : UInt8} (member : b ∈ String.utf8EncodeChar c)
    (ascii : b.toNat < 0x80) : c.toNat = b.toNat := by
  simp only [String.utf8EncodeChar] at member
  simp only [Char.toNat]
  generalize c.val.toNat = v at member ⊢
  by_cases one : v ≤ 0x7f
  · simp only [one, if_true, List.mem_singleton] at member
    rw [member, UInt8.toNat_ofNat']
    omega
  -- every byte of a longer sequence is larger
  have large : ∀ {m k base : Nat}, b = UInt8.ofNat (m % k + base) → 0 < k → 0x80 ≤ base →
      base + k ≤ 0x100 → False := by
    rintro m k base rfl positive high fits
    have := Nat.mod_lt m positive
    rw [UInt8.toNat_ofNat'] at ascii
    omega
  simp only [one, if_false] at member
  split at member
  · simp only [List.mem_cons, List.not_mem_nil, or_false] at member
    rcases member with byte | byte <;>
      exact (large byte (by decide) (by decide) (by decide)).elim
  split at member
  · simp only [List.mem_cons, List.not_mem_nil, or_false] at member
    rcases member with byte | byte | byte <;>
      exact (large byte (by decide) (by decide) (by decide)).elim
  · simp only [List.mem_cons, List.not_mem_nil, or_false] at member
    rcases member with byte | byte | byte | byte <;>
      exact (large byte (by decide) (by decide) (by decide)).elim

end SupportPilot.Lib.Utf8
