import SupportPilot.Documents.SafeNames
import SupportPilot.Documents.Upload
import SupportPilot.Domain.Schemas
import SupportPilot.Lib.Fallible

/-! # The names that requests store

Five kinds of requests store a name.  Its length is checked by the schema before it is stripped, and
by the table afterwards.  `names_fit_iff` says which requests that the schema lets through store a
name within the limits: those whose names have enough characters that are not whitespace.  An
upload without a name of its own gets one from its file, which always fits. -/

namespace SupportPilot.Schemas

open Lib Documents

inductive NameRequest where
  | register (body : RegisterRequest)
  | createWorkspace (body : WorkspaceCreate)
  | updateWorkspace (body : WorkspaceUpdate)
  | updateDocument (body : DocumentUpdate)
  /-- The form of `create_document`, or of `create_document_version`. -/
  | upload (call : UploadCall)

structure StoredName where
  column : Column
  value : Text
  deriving DecidableEq

namespace StoredName

def stripped (name : StoredName) : StoredName := { name with value := strip name.value }

/-- Within the limits of the schema. -/
structure Bounded (name : StoredName) : Prop where
  atLeast : name.column.field.minLength ≤ name.value.length
  atMost : name.value.length ≤ name.column.field.maxLength

end StoredName

/-- `Form(max_length=255)`. -/
def formField : Field := ⟨0, 255, none⟩

namespace NameRequest

section Store

variable [EmailStr] [UnicodeTables]

/-- What the handler stores for a request that its schema lets through. -/
def names : NameRequest → Except (List ErrorDetail) (List StoredName)
  | register body => do
    let payload ← body.validate
    return [⟨.userDisplayName, payload.displayName⟩, ⟨.workspaceName, payload.workspaceName⟩]
  | createWorkspace body => do
    let payload ← body.validate
    return [⟨.workspaceName, strip payload.name⟩]
  | updateWorkspace body => do
    let payload ← body.validate
    return [⟨.workspaceName, strip payload.name⟩]
  | updateDocument body => do
    let payload ← body.validate
    return [⟨.documentDisplayName, payload.displayName⟩]
  | upload call => do
    let _ ← validated ((call.displayName.map (formField.check "display_name")).getD []) ()
    -- a version of a document that exists does not change its name
    return if call.documentId = none then [⟨.documentDisplayName, call.resolvedName⟩] else []

end Store

/-- What the handler raises when a table does not take the name. -/
def refusal : NameRequest → PyError
  | register _ => .conflict "email or workspace slug is already in use"
  | createWorkspace _ => .conflict "workspace slug is already in use"
  | updateWorkspace _ | updateDocument _ => .integrityError
  | upload _ => .conflict "document version or idempotency key already exists"

/-- The flush of the names, as far as it depends on them. -/
def flush (request : NameRequest) (names : List StoredName) : Except PyError Unit :=
  -- `DataError`, which no handler catches
  if names.any fun name => name.column.size < name.value.length then .error (.other 0)
  else if names.all fun name => name.column.check name.value then .ok ()
  else .error request.refusal

/-- The names in the request, with the columns they are for. -/
def given : NameRequest → List StoredName
  | register body =>
    [⟨.userDisplayName, body.displayName⟩, ⟨.workspaceName, body.workspaceName⟩]
  | createWorkspace body => [⟨.workspaceName, body.name⟩]
  | updateWorkspace body => [⟨.workspaceName, body.name⟩]
  | updateDocument body => [⟨.documentDisplayName, body.displayName⟩]
  | upload call =>
    if call.documentId = none ∧ call.displayName.getD [] ≠ [] then
      [⟨.documentDisplayName, call.displayName.getD []⟩]
    else []

/-- Every name in the request has the minimum number of characters that are not whitespace. -/
def Visible (request : NameRequest) : Prop :=
  ∀ name ∈ request.given, name.column.field.minLength ≤ (visible name.value).length

end NameRequest

/-! ## Limits -/

theorem Column.minLength_le_two (column : Column) : column.field.minLength ≤ 2 := by
  cases column <;> decide

theorem Column.size_eq (column : Column) : column.size = column.field.maxLength := by
  cases column <;> rfl

theorem Column.check_of_bounded {name : StoredName} (bounded : name.Bounded) :
    name.column.check name.value = true := by
  obtain ⟨column, value⟩ := name
  have enough := bounded.atLeast
  cases column with
  | userDisplayName => rfl
  | workspaceName => exact decide_eq_true enough
  | documentDisplayName => exact decide_eq_true enough

theorem StoredName.bounded_stripped {name : StoredName}
    (short : name.value.length ≤ name.column.field.maxLength) :
    name.stripped.Bounded ↔ name.column.field.minLength ≤ (visible name.value).length := by
  rw [← le_length_strip name.column.minLength_le_two]
  constructor
  · exact fun bounded => bounded.atLeast
  · exact fun enough => ⟨enough, (length_strip_le name.value).trans short⟩

namespace NameRequest

variable {request : NameRequest} {names : List StoredName}

theorem flush_of_bounded (bounded : ∀ name ∈ names, name.Bounded) :
    request.flush names = .ok () := by
  have sizes : (names.any fun name => name.column.size < name.value.length) = false := by
    rw [List.any_eq_false]
    intro name member
    have short := (bounded name member).atMost
    rw [← Column.size_eq] at short
    simpa using short
  have checks : (names.all fun name => name.column.check name.value) = true := by
    rw [List.all_eq_true]
    exact fun name member => Column.check_of_bounded (bounded name member)
  rw [flush, sizes, checks]
  rfl

section Spec

variable [EmailStr] [UnicodeTables]

omit [EmailStr] in
/-- A file gives a document a name within the limits. -/
theorem bounded_of_file {call : UploadCall} (unnamed : call.displayName.getD [] = []) :
    (StoredName.mk .documentDisplayName call.resolvedName).Bounded := by
  obtain ⟨nonempty, allowed, starts, -⟩ := cleanedName_safe call.filename
  obtain ⟨nonempty', allowed', starts'⟩ := cut_safe nonempty allowed starts
  have safe := safePart_of_allowed nonempty' allowed' starts'
  rw [← sanitizeFilename_eq] at safe nonempty'
  have named : strip (if pathStem call.safeFilename ≠ [] then pathStem call.safeFilename
      else call.safeFilename) ≠ [] := by
    split
    next stem => exact strip_start_ne_nil (isPrefix_pathStem safe) stem
    next => exact strip_start_ne_nil (List.prefix_refl _) nonempty'
  have positive := List.length_pos_iff.mpr named
  have resolved : call.resolvedName = (strip (if pathStem call.safeFilename ≠ [] then
      pathStem call.safeFilename else call.safeFilename)).take 255 := by
    simp only [UploadCall.resolvedName, unnamed, ne_eq, not_true_eq_false, if_false]
  have minimum : Column.documentDisplayName.field.minLength = 1 := rfl
  have maximum : Column.documentDisplayName.field.maxLength = 255 := rfl
  constructor
  · dsimp only
    rw [minimum, resolved, List.length_take]
    omega
  · dsimp only
    rw [maximum, resolved]
    exact List.length_take_le 255 _

/-- The names that are stored are the stripped ones of the request, which are not too long, or the
one of the file. -/
theorem names_spec (accepted : request.names = .ok names) :
    (∀ name ∈ request.given, name.value.length ≤ name.column.field.maxLength) ∧
      (names = request.given.map StoredName.stripped ∨
        request.given = [] ∧ ∃ name, names = [name] ∧ name.Bounded) := by
  cases request with
  | register body =>
    obtain ⟨payload, valid, stored⟩ := bind_eq_ok.1 accepted
    obtain ⟨display, workspace, displayName, workspaceName⟩ := RegisterRequest.validate_eq_ok valid
    cases stored
    refine ⟨?_, .inl ?_⟩
    · simp only [given, List.forall_mem_cons, List.not_mem_nil, false_implies, implies_true,
        and_true]
      exact ⟨(Field.bounds_of_check display).2, (Field.bounds_of_check workspace).2⟩
    · simp [given, StoredName.stripped, displayName, workspaceName]
  | createWorkspace body =>
    obtain ⟨payload, valid, stored⟩ := bind_eq_ok.1 accepted
    obtain ⟨checks, rfl⟩ := validated_eq_ok.1 valid
    cases stored
    exact ⟨List.forall_mem_singleton.mpr
      (Field.bounds_of_check (List.append_eq_nil_iff.mp checks).1).2, .inl rfl⟩
  | updateWorkspace body =>
    obtain ⟨payload, valid, stored⟩ := bind_eq_ok.1 accepted
    obtain ⟨check, rfl⟩ := validated_eq_ok.1 valid
    cases stored
    exact ⟨List.forall_mem_singleton.mpr (Field.bounds_of_check check).2, .inl rfl⟩
  | updateDocument body =>
    obtain ⟨payload, valid, stored⟩ := bind_eq_ok.1 accepted
    obtain ⟨check, rfl⟩ := validated_eq_ok.1 valid
    cases stored
    exact ⟨List.forall_mem_singleton.mpr (Field.bounds_of_check check).2, .inl rfl⟩
  | upload call =>
    obtain ⟨_, valid, stored⟩ := bind_eq_ok.1 accepted
    obtain ⟨check, -⟩ := validated_eq_ok.1 valid
    cases stored
    by_cases unnamed : call.displayName.getD [] = []
    · -- nothing is given, and the file names a new document
      have nothing : (upload call).given = [] := by simp [given, unnamed]
      rw [nothing]
      refine ⟨nofun, ?_⟩
      split
      · exact .inr ⟨rfl, _, rfl, bounded_of_file unnamed⟩
      · exact .inl rfl
    · obtain ⟨displayName, named⟩ : ∃ displayName, call.displayName = some displayName := by
        cases named : call.displayName with
        | none => simp [named] at unnamed
        | some displayName => exact ⟨displayName, rfl⟩
      simp only [named, Option.map_some, Option.getD_some] at check unnamed
      have short := (Field.bounds_of_check check).2
      have resolved : call.resolvedName = strip displayName := by
        simp only [UploadCall.resolvedName, named, Option.getD_some, unnamed, ne_eq,
          not_false_eq_true, if_true]
        exact List.take_of_length_le ((length_strip_le displayName).trans short)
      simp only [given, named, Option.getD_some, unnamed, ne_eq, not_false_eq_true, and_true]
      split
      · exact ⟨List.forall_mem_singleton.mpr short, .inl (by rw [resolved]; rfl)⟩
      · exact ⟨nofun, .inl rfl⟩

/-- A request that its schema lets through stores names within the limits, and its flush does not
fail on them, exactly when the names in it have the minimum number of characters that are not
whitespace. -/
theorem names_fit_iff (accepted : request.names = .ok names) :
    (∀ name ∈ names, name.Bounded) ∧ request.flush names = .ok () ↔ request.Visible := by
  rw [and_iff_left_of_imp flush_of_bounded]
  obtain ⟨short, rfl | ⟨nothing, name, rfl, bounded⟩⟩ := names_spec accepted
  · rw [List.forall_mem_map]
    exact forall₂_congr fun name member => StoredName.bounded_stripped (short name member)
  · have visible : request.Visible := by simp [Visible, nothing]
    exact iff_of_true (List.forall_mem_singleton.mpr bounded) visible

end Spec

end NameRequest

/-- One address. -/
@[reducible] def sampleEmail : EmailStr where
  validateEmail email := if email = "ada@example.com".toList then some email else none

/-- Names with spaces around them. -/
def paddedBody : RegisterRequest where
  email := "ada@example.com".toList
  displayName := "  Ada ".toList
  password := "correct horse".toList
  workspaceName := " HQ".toList
  workspaceSlug := "hq-1".toList

theorem names_fit_iff_padded :
    @NameRequest.names sampleEmail asciiTables (.register paddedBody) =
        .ok [⟨.userDisplayName, "Ada".toList⟩, ⟨.workspaceName, "HQ".toList⟩] ∧
      NameRequest.flush (.register paddedBody)
        [⟨.userDisplayName, "Ada".toList⟩, ⟨.workspaceName, "HQ".toList⟩] = .ok () := by
  have accepted : @NameRequest.names sampleEmail asciiTables (.register paddedBody) =
      .ok [⟨.userDisplayName, "Ada".toList⟩, ⟨.workspaceName, "HQ".toList⟩] := by rfl
  have visible : NameRequest.Visible (.register paddedBody) := by
    simp only [NameRequest.Visible, NameRequest.given, List.forall_mem_cons]
    decide
  exact ⟨accepted, ((@NameRequest.names_fit_iff _ _ sampleEmail asciiTables accepted).mpr visible).2⟩

/-- Two spaces are a name for the schema, and none for the table. -/
theorem blank_name_refused : ¬ ∀ request names,
    @NameRequest.names sampleEmail asciiTables request = .ok names →
      (∀ name ∈ names, name.Bounded) ∧ request.flush names = .ok () := by
  intro fits
  have accepted : @NameRequest.names sampleEmail asciiTables (.updateWorkspace ⟨"  ".toList⟩) =
      .ok [⟨.workspaceName, []⟩] := by rfl
  have flushed := (fits _ _ accepted).2
  have refused : NameRequest.flush (.updateWorkspace ⟨"  ".toList⟩) [⟨.workspaceName, []⟩] =
      .error .integrityError := by rfl
  rw [refused] at flushed
  cases flushed

end SupportPilot.Schemas
