import SupportPilot.Database.Models
import SupportPilot.Documents.Filenames

/-! # The local object store

`LocalObjectStore._path`, and the texts of the keys that `upload_document_version` builds.  A key of
safe parts names a file below the root (`path_of_parts`). -/

namespace SupportPilot.Storage

open Lib

/-! ## Keys -/

/-- `"%032x" % self.int`. -/
def uuidHex (id : UUID) : Text :=
  (List.range 32).map fun i => Nat.digitChar (id / 16 ^ (31 - i) % 16)

/-- `str(uuid)`. -/
def uuidText (id : UUID) : Text :=
  let hex := uuidHex id
  ['-'].intercalate [slice 0 8 hex, slice 8 12 hex, slice 12 16 hex, slice 16 20 hex, hex.drop 20]

/-- The parts of a key, which the f-strings join with slashes. -/
def keyParts : ObjectKey → List Text
  | .staging workspaceId id => ["staging".toList, uuidText workspaceId, uuidText id]
  | .version workspaceId documentId versionId filename =>
    ["workspaces".toList, uuidText workspaceId, "documents".toList, uuidText documentId,
      "versions".toList, uuidText versionId, filename]

def keyText (key : ObjectKey) : Text := ['/'].intercalate (keyParts key)

/-! ## Paths -/

/-- The parts of `PurePath(path)`; empty ones and `.` do not count. -/
def pathParts (path : Text) : List Text :=
  (path.splitOn '/').filter fun part => part ≠ [] && part ≠ ['.']

/-- `Path.resolve` of an absolute path, where no part is a symbolic link. -/
def resolve (parts : List Text) : List Text :=
  parts.foldl (fun resolved part => if part = "..".toList then resolved.dropLast
    else resolved ++ [part]) []

/-- The root, as `root.resolve()` left it. -/
structure LocalObjectStore where
  root : List Text
  root_resolved : ∀ part ∈ root, part ≠ "..".toList

/-- `_path`; `resolve` raises on a null byte. -/
def LocalObjectStore.path (store : LocalObjectStore) (key : Text) : Except PyError (List Text) :=
  if key = [] ∨ '\\' ∈ key ∨ key.head? = some '/' then
    .error (.valueError "invalid object key")
  else if '\x00' ∈ key then
    .error (.valueError "embedded null byte")
  else
    let path := resolve (store.root ++ pathParts key)
    if store.root <+: path then .ok path
    else .error (.valueError "object key escapes configured root")

/-- A part that names a file or a directory, and nothing else. -/
structure SafePart (part : Text) : Prop where
  nonempty : part ≠ []
  notDot : part ≠ ".".toList
  notParent : part ≠ "..".toList
  plain : ∀ c ∈ part, c ≠ '/' ∧ c ≠ '\\' ∧ c ≠ '\x00'

instance (part : Text) : Decidable (SafePart part) :=
  decidable_of_iff (part ≠ [] ∧ part ≠ ".".toList ∧ part ≠ "..".toList ∧
      (part.all fun c => c ≠ '/' ∧ c ≠ '\\' ∧ c ≠ '\x00') = true)
    ⟨fun safe => ⟨safe.1, safe.2.1, safe.2.2.1, by simpa using safe.2.2.2⟩,
      fun safe => ⟨safe.nonempty, safe.notDot, safe.notParent, by simpa using safe.plain⟩⟩

theorem resolve_of_plain {parts : List Text} (plain : ∀ part ∈ parts, part ≠ "..".toList) :
    resolve parts = parts := by
  induction parts using List.reverseRecOn with
  | nil => rfl
  | append_singleton parts part ih =>
    have before := ih fun part member => plain part (List.mem_append_left _ member)
    rw [resolve] at before ⊢
    rw [List.foldl_append, before, List.foldl_cons, if_neg (plain part (by simp)), List.foldl_nil]

theorem pathParts_intercalate {parts : List Text} (some : parts ≠ [])
    (safe : ∀ part ∈ parts, SafePart part) : pathParts (['/'].intercalate parts) = parts := by
  have separate : ∀ part ∈ parts, '/' ∉ part := fun part isPart member =>
    ((safe part isPart).plain '/' member).1 rfl
  rw [pathParts, List.splitOn_intercalate '/' separate some, List.filter_eq_self]
  intro part isPart
  have nonempty := (safe part isPart).nonempty
  have notDot : part ≠ ['.'] := (safe part isPart).notDot
  simp [nonempty, notDot]

theorem head_intercalate {parts : List Text} (some : parts ≠ [])
    (safe : ∀ part ∈ parts, SafePart part) :
    ∃ c rest, ['/'].intercalate parts = c :: rest ∧ c ≠ '/' := by
  obtain ⟨first, more, rfl⟩ := List.exists_cons_of_ne_nil some
  have safeFirst := safe first List.mem_cons_self
  obtain ⟨c, first, rfl⟩ := List.exists_cons_of_ne_nil safeFirst.nonempty
  have notSlash := (safeFirst.plain c List.mem_cons_self).1
  cases more with
  | nil => exact ⟨c, first, List.intercalate_singleton, notSlash⟩
  | cons next more => exact ⟨c, _, List.intercalate_cons_cons, notSlash⟩

/-- A key of safe parts names a file below the root. -/
theorem path_of_parts (store : LocalObjectStore) {parts : List Text} (some : parts ≠ [])
    (safe : ∀ part ∈ parts, SafePart part) :
    store.path (['/'].intercalate parts) = .ok (store.root ++ parts) := by
  have plain : ∀ c ∈ ['/'].intercalate parts, c ≠ '\\' ∧ c ≠ '\x00' := by
    intro c member
    obtain rfl | ⟨part, isPart, inPart⟩ := mem_intercalate member
    · decide
    · exact ((safe part isPart).plain c inPart).2
  obtain ⟨c, rest, head, notSlash⟩ := head_intercalate some safe
  have valid : ¬ (['/'].intercalate parts = [] ∨ '\\' ∈ ['/'].intercalate parts ∨
      (['/'].intercalate parts).head? = Option.some '/') := by
    rintro (empty | backslash | slash)
    · rw [head] at empty
      cases empty
    · exact (plain '\\' backslash).1 rfl
    · rw [head, List.head?_cons, Option.some.injEq] at slash
      exact notSlash slash
  have noNull : '\x00' ∉ ['/'].intercalate parts := fun null => (plain '\x00' null).2 rfl
  have resolved : resolve (store.root ++ parts) = store.root ++ parts := by
    apply resolve_of_plain
    rw [List.forall_mem_append]
    exact ⟨store.root_resolved, fun part isPart => (safe part isPart).notParent⟩
  rw [LocalObjectStore.path, if_neg valid, if_neg noNull, pathParts_intercalate some safe]
  simp only [resolved, List.prefix_append, if_true]

/-! ## The parts of keys -/

theorem safePart_uuidText (id : UUID) : SafePart (uuidText id) := by
  have digits : ∀ d < 16, Nat.digitChar d ≠ '/' ∧ Nat.digitChar d ≠ '\\' ∧ Nat.digitChar d ≠ '\x00' := by
    decide
  -- the text has hexadecimal digits and dashes only
  have hex : ∀ c ∈ uuidHex id, c ≠ '/' ∧ c ≠ '\\' ∧ c ≠ '\x00' := by
    intro c member
    obtain ⟨i, -, rfl⟩ := List.mem_map.mp member
    exact digits _ (Nat.mod_lt _ (by decide))
  have length : (uuidText id).length = 36 := by
    simp [uuidText, uuidHex, List.intercalate]
  constructor
  · rintro empty
    rw [empty] at length
    cases length
  · rintro dot
    rw [dot] at length
    cases length
  · rintro parent
    rw [parent] at length
    cases length
  · intro c member
    obtain rfl | ⟨part, isPart, inPart⟩ := mem_intercalate member
    · decide
    · have inHex : ∀ start stop, slice start stop (uuidHex id) ⊆ uuidHex id := fun start stop =>
        ((List.drop_sublist _ _).trans (List.take_sublist _ _)).subset
      apply hex
      simp only [List.mem_cons, List.not_mem_nil, or_false] at isPart
      obtain rfl | rfl | rfl | rfl | rfl := isPart
      · exact inHex 0 8 inPart
      · exact inHex 8 12 inPart
      · exact inHex 12 16 inPart
      · exact inHex 16 20 inPart
      · exact (List.drop_sublist _ _).subset inPart

/-- The key of a version whose file name is safe names a file below the root. -/
theorem path_of_version (store : LocalObjectStore) (workspaceId documentId versionId : UUID)
    {filename : Text} (safe : SafePart filename) :
    store.path (keyText (.version workspaceId documentId versionId filename)) =
      .ok (store.root ++ keyParts (.version workspaceId documentId versionId filename)) := by
  apply path_of_parts store (List.cons_ne_nil _ _)
  intro part isPart
  simp only [List.mem_cons, List.not_mem_nil, or_false] at isPart
  obtain rfl | rfl | rfl | rfl | rfl | rfl | rfl := isPart
  · decide
  · exact safePart_uuidText workspaceId
  · decide
  · exact safePart_uuidText documentId
  · decide
  · exact safePart_uuidText versionId
  · exact safe

end SupportPilot.Storage
