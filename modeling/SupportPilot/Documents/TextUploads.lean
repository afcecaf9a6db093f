import SupportPilot.Documents.AllOrNothing
import SupportPilot.Lib.Utf8

/-! # Text uploads

`validate_media_type` sees the first 8192 bytes of an upload, however the stream splits it
(`writeObject_prefix`), and decodes them.  A text is accepted exactly when the cut does not
fall into a character (`text_accepted_iff`). -/

namespace SupportPilot.Documents

open Lib

theorem decodeUtf8_eq_some {bytes : Bytes} {text : Text} :
    decodeUtf8 bytes = some text ↔ bytes = text.flatMap String.utf8EncodeChar :=
  Utf8.decode_eq_some

/-- Whether a prefix of a text decodes. -/
theorem decodeUtf8_take {content : Bytes} {text : Text} (decoded : decodeUtf8 content = some text)
    (n : Nat) :
    (∃ part, decodeUtf8 (content.take n) = some part) ↔ ∀ b ∈ content[n]?, b.IsUTF8FirstByte := by
  rw [← Utf8.decode_take_isSome (decodeUtf8_eq_some.1 decoded), Option.isSome_iff_exists]
  simp only [decodeUtf8, Option.map_eq_some_iff, Utf8.pack]
  constructor
  · intro found
    obtain ⟨-, array, some, -⟩ := found
    exact ⟨array, some⟩
  · intro found
    obtain ⟨array, some⟩ := found
    exact ⟨array.toList, array, some, rfl⟩

/-- A byte `<` is a character of the text. -/
theorem tag_of_byte {bytes : Bytes} {text : Text} (decoded : decodeUtf8 bytes = some text)
    (member : 0x3C ∈ bytes) : '<' ∈ text := by
  rw [decodeUtf8_eq_some.1 decoded] at member
  obtain ⟨c, inText, inChar⟩ := List.mem_flatMap.mp member
  have same := Utf8.toNat_of_mem inChar (by decide)
  have tag : c = '<' := Char.ext (UInt32.toNat_inj.mp same)
  exact tag ▸ inText

section Types

variable [UnicodeTables] {filename : Text} {declaredType : Option Text} {bytes : Bytes}

/-- The name has an extension of a text, and the declared type belongs to it. -/
structure TextType (filename : Text) (declaredType : Option Text) : Prop where
  notPdf : UnicodeTables.lower (pathSuffix filename) ≠ ".pdf".toList
  declared : ∃ acceptedTypes,
    mediaByExtension.lookup (UnicodeTables.lower (pathSuffix filename)) = some acceptedTypes ∧
      UnicodeTables.lower (strip ((declaredType.getD []).takeWhile (· ≠ ';'))) ∈ acceptedTypes

/-- `{".html", ".htm"}`. -/
def IsHtml (filename : Text) : Prop :=
  UnicodeTables.lower (pathSuffix filename) ∈ [".html".toList, ".htm".toList]

/-- The checks of a text, in their order. -/
theorem validateMediaType_text (typed : TextType filename declaredType) (bytes : Bytes) :
    ∃ mediaType, validateMediaType filename declaredType bytes =
      if 0 ∈ bytes then
        .error (.uploadRejected "text documents cannot contain binary null bytes")
      else match decodeUtf8 bytes with
        | none => .error (.uploadRejected "text documents must be UTF-8 encoded")
        | some decoded =>
          if UnicodeTables.lower (pathSuffix filename) ∈ [".html".toList, ".htm".toList] ∧
              '<' ∉ decoded then
            .error (.uploadRejected "HTML content does not contain an HTML tag")
          else .ok mediaType := by
  obtain ⟨notPdf, acceptedTypes, found, declared⟩ := typed
  refine ⟨acceptedTypes.headD [], ?_⟩
  simp only [validateMediaType, found, declared, notPdf, not_true_eq_false, if_false]
  split
  · rfl
  cases decodeUtf8 bytes with
  | none => rfl
  | some decoded =>
    simp only
    split <;> rfl

/-- Bytes are accepted when they are a text, and of an HTML text when it has a tag. -/
theorem validateMediaType_accepts (typed : TextType filename declaredType) (noNul : 0 ∉ bytes)
    (tagged : IsHtml filename → 0x3C ∈ bytes) :
    (∃ mediaType, validateMediaType filename declaredType bytes = .ok mediaType) ↔
      ∃ text, decodeUtf8 bytes = some text := by
  obtain ⟨accepted, checks⟩ := validateMediaType_text typed bytes
  rw [checks, if_neg noNul]
  cases decoded : decodeUtf8 bytes with
  | none => simp
  | some text =>
    have tag : ¬ (UnicodeTables.lower (pathSuffix filename) ∈ [".html".toList, ".htm".toList] ∧
        '<' ∉ text) := by
      intro untagged
      exact untagged.2 (tag_of_byte decoded (tagged untagged.1))
    simp only [if_neg tag]
    exact ⟨fun _ => ⟨text, rfl⟩, fun _ => ⟨accepted, rfl⟩⟩

end Types

/-! ## The upload -/

section Upload

variable {service : UploadService} {key : ObjectKey} {session : Session}

/-- The chunks do not matter: without a fault, the content is received, and with it its first
8192 bytes. -/
theorem writeObject_prefix (call : UploadCall)
    (free : session.objects key = none)
    (small : (contentOf call.reads).length ≤ service.settings.maxUploadBytes) :
    ∃ session', writeObject none service call key session =
      .ok (.of (contentOf call.reads)) session' := by
  have ends : Ends (writeObject none service call key) session _ _ := ends_writeObject
  unfold Ends at ends
  cases result : writeObject none service call key session with
  | ok received session' =>
    rw [result] at ends
    obtain ⟨rfl, -, -⟩ := ends
    exact ⟨session', rfl⟩
  | error error session' =>
    rw [result] at ends
    obtain ⟨-, ⟨step, raised, fault, -⟩ | taken | large⟩ := ends
    · cases fault
    · rw [free] at taken
      cases taken
    · exact absurd small (Nat.not_le.mpr large)

/-- A text within the size limit, without null bytes. -/
structure TextContent (service : UploadService) (content : Bytes) : Prop where
  nonempty : content ≠ []
  small : content.length ≤ service.settings.maxUploadBytes
  encoded : ∃ text, decodeUtf8 content = some text
  noNul : 0 ∉ content

/-- A text is accepted, however the stream splits it, exactly when no character lies across
the first 8192 bytes and the rest. -/
theorem text_accepted_iff [UnicodeTables] {filename : Text} {declaredType : Option Text}
    {content : Bytes} (typed : TextType filename declaredType) (valid : TextContent service content)
    (tagged : IsHtml filename → 0x3C ∈ content.take 8192) (call : UploadCall)
    (free : session.objects key = none) :
    (∀ reads, contentOf reads = content → ∃ received session' mediaType,
      writeObject none service { call with reads } key session = .ok received session' ∧
      received.prefixBytes = content.take 8192 ∧
      validateMediaType filename declaredType received.prefixBytes = .ok mediaType) ↔
    ∀ b ∈ content[8192]?, b.IsUTF8FirstByte := by
  obtain ⟨text, decoded⟩ := valid.encoded
  have noNul : 0 ∉ content.take 8192 := fun member => valid.noNul (List.mem_of_mem_take member)
  rw [← decodeUtf8_take decoded 8192, ← validateMediaType_accepts typed noNul tagged]
  constructor
  · intro accepted
    -- one chunk is a way to split the content
    have whole : contentOf [content] = content := by simp [contentOf, valid.nonempty]
    obtain ⟨received, session', mediaType, -, collected, validated⟩ := accepted [content] whole
    rw [collected] at validated
    exact ⟨mediaType, validated⟩
  · intro accepted reads split
    obtain ⟨mediaType, validated⟩ := accepted
    have small : (contentOf reads).length ≤ service.settings.maxUploadBytes := split ▸ valid.small
    obtain ⟨session', written⟩ := writeObject_prefix { call with reads } free small
    dsimp only at written
    rw [split] at written
    exact ⟨.of content, session', mediaType, written, rfl, validated⟩

end Upload

theorem letter_typed : @TextType asciiTables "a.txt".toList (some "text/plain".toList) := by
  let := asciiTables
  exact ⟨by decide, ["text/plain".toList], by decide, by decide⟩

theorem letter_valid : TextContent letterService [0x61] where
  nonempty := List.cons_ne_nil _ _
  small := by decide
  encoded := ⟨['a'], decodeUtf8_eq_some.2 rfl⟩
  noNul := by decide

theorem text_accepted_iff_letter :
    (∀ reads, contentOf reads = [0x61] → ∃ received session' mediaType,
      writeObject none letterService { letterCall with reads } (.staging 1 3)
        ⟨.empty, fun _ => none, none⟩ = .ok received session' ∧
      received.prefixBytes = ([0x61] : Bytes).take 8192 ∧
      @validateMediaType asciiTables "a.txt".toList (some "text/plain".toList)
        received.prefixBytes = .ok mediaType) ↔
    ∀ b ∈ ([0x61] : Bytes)[8192]?, b.IsUTF8FirstByte :=
  @text_accepted_iff letterService (.staging 1 3) ⟨.empty, fun _ => none, none⟩ asciiTables _ _ _
    letter_typed letter_valid (fun html => absurd html (by unfold IsHtml; decide)) letterCall rfl

/-! ## A character across the cut -/

/-- `é` behind `n` letters. -/
def note (n : Nat) : Text := List.replicate n 'a' ++ ['é']

def noteBytes (n : Nat) : Bytes := List.replicate n 0x61 ++ [0xC3, 0xA9]

theorem decode_note (n : Nat) : decodeUtf8 (noteBytes n) = some (note n) := by
  have letters : (List.replicate n 'a').flatMap String.utf8EncodeChar = List.replicate n 0x61 := by
    rw [List.flatMap_replicate]
    exact List.flatten_replicate_singleton
  rw [decodeUtf8_eq_some, note, noteBytes, List.flatMap_append, letters]
  rfl

theorem noNul_note (n : Nat) : 0 ∉ noteBytes n := by
  simp [noteBytes]

theorem length_noteBytes (n : Nat) : (noteBytes n).length = n + 2 := by
  simp [noteBytes]

theorem getElem_note (n : Nat) : (noteBytes n)[n + 1]? = some 0xA9 := by
  rw [noteBytes, List.getElem?_append_right (by simp)]
  simp

theorem note_typed : @TextType asciiTables "notes.txt".toList (some "text/plain".toList) := by
  let := asciiTables
  exact ⟨by decide, ["text/plain".toList], by decide, by decide⟩

/-- The text is a valid one, and still rejected. -/
theorem validate_rejects_note :
    decodeUtf8 (noteBytes 8191) = some (note 8191) ∧ 0 ∉ noteBytes 8191 ∧
      (noteBytes 8191).length = 8193 ∧
      @validateMediaType asciiTables "notes.txt".toList (some "text/plain".toList)
        ((noteBytes 8191).take 8192) =
      .error (.uploadRejected "text documents must be UTF-8 encoded") := by
  let := asciiTables
  refine ⟨decode_note 8191, noNul_note 8191, length_noteBytes 8191, ?_⟩
  have undecoded : decodeUtf8 ((noteBytes 8191).take 8192) = none := by
    cases decoded : decodeUtf8 ((noteBytes 8191).take 8192) with
    | none => rfl
    | some part =>
      have cut := (decodeUtf8_take (decode_note 8191) 8192).mp ⟨part, decoded⟩ 0xA9
        (getElem_note 8191)
      exact absurd cut (by decide)
  obtain ⟨mediaType, checks⟩ := validateMediaType_text note_typed ((noteBytes 8191).take 8192)
  rw [checks, if_neg fun member => noNul_note 8191 (List.mem_of_mem_take member), undecoded]

end SupportPilot.Documents
