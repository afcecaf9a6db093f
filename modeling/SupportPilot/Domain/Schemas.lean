import SupportPilot.Domain
import SupportPilot.Lib.Regex
import SupportPilot.Lib.Text

/-! # Request schemas and the columns of names

The bodies of `packages/domain/schemas.py` that have names in them.  A schema checks the fields of a
body in their order and reports everything that is wrong; the validators of a field see its value
after its `Field` has let it through.  `Column` has the limits that the tables put on the names. -/

namespace SupportPilot.Schemas

open Lib

/-! ## Fields -/

/-- `email_validator`, which `EmailStr` calls: the normalised address. -/
class EmailStr where
  validateEmail : Text → Option Text

inductive ErrorType where
  | stringTooShort (minLength : Nat)
  | stringTooLong (maxLength : Nat)
  | stringPatternMismatch
  | valueError
  deriving DecidableEq

/-- What is wrong with which field of the body. -/
structure ErrorDetail where
  loc : String
  type : ErrorType
  deriving DecidableEq

/-- `Field(min_length=…, max_length=…, pattern=…)`. -/
structure Field where
  minLength : Nat
  maxLength : Nat
  pattern : Option Regex

/-- A pattern between `^` and `$`, which for `pydantic` are the ends of the value. -/
def matchesPattern (pattern : Regex) (value : Text) : Bool :=
  (Regex.run pattern ⟨value, []⟩).any fun d => d.rest.isEmpty

namespace Field

def failure (field : Field) (value : Text) : Option ErrorType :=
  if value.length < field.minLength then some (.stringTooShort field.minLength)
  else if field.maxLength < value.length then some (.stringTooLong field.maxLength)
  else if field.pattern.all (matchesPattern · value) then none
  else some .stringPatternMismatch

def check (field : Field) (loc : String) (value : Text) : List ErrorDetail :=
  (field.failure value).toList.map (⟨loc, ·⟩)

end Field

/-- The value of a body without errors. -/
def validated {α : Type} (errors : List ErrorDetail) (value : α) : Except (List ErrorDetail) α :=
  if errors = [] then .ok value else .error errors

/-! ## Bodies -/

/-- `[a-z0-9]+(?:-[a-z0-9]+)*`. -/
def slugPattern : Regex :=
  let word := Regex.plus (.char fun c => c.isLower || c.isDigit)
  .seq word (.star true (.seq (.char (· = '-')) word))

def slugField : Field := ⟨2, 80, some slugPattern⟩

structure RegisterRequest where
  email : Text
  displayName : Text
  password : Text
  workspaceName : Text
  workspaceSlug : Text
  deriving DecidableEq

namespace RegisterRequest

/-- `display_name` and `workspace_name`. -/
def nameField : Field := ⟨2, 120, none⟩

def passwordField : Field := ⟨12, 128, none⟩

def validate [EmailStr] (body : RegisterRequest) : Except (List ErrorDetail) RegisterRequest :=
  let checks := nameField.check "display_name" body.displayName ++
    passwordField.check "password" body.password ++
    nameField.check "workspace_name" body.workspaceName ++
    slugField.check "workspace_slug" body.workspaceSlug
  match EmailStr.validateEmail body.email with
  | none => .error (⟨"email", .valueError⟩ :: checks)
  | some email => validated checks { body with
      email
      displayName := strip body.displayName
      workspaceName := strip body.workspaceName }

end RegisterRequest

structure WorkspaceCreate where
  name : Text
  slug : Text
  deriving DecidableEq

namespace WorkspaceCreate

def nameField : Field := ⟨2, 120, none⟩

def validate (body : WorkspaceCreate) : Except (List ErrorDetail) WorkspaceCreate :=
  validated (nameField.check "name" body.name ++ slugField.check "slug" body.slug) body

end WorkspaceCreate

structure WorkspaceUpdate where
  name : Text
  deriving DecidableEq

namespace WorkspaceUpdate

def nameField : Field := ⟨2, 120, none⟩

def validate (body : WorkspaceUpdate) : Except (List ErrorDetail) WorkspaceUpdate :=
  validated (nameField.check "name" body.name) body

end WorkspaceUpdate

structure DocumentUpdate where
  displayName : Text
  deriving DecidableEq

namespace DocumentUpdate

def displayNameField : Field := ⟨1, 255, none⟩

def validate (body : DocumentUpdate) : Except (List ErrorDetail) DocumentUpdate :=
  validated (displayNameField.check "display_name" body.displayName) ⟨strip body.displayName⟩

end DocumentUpdate

/-! ## Columns -/

/-- The columns that hold names. -/
inductive Column where
  | userDisplayName | workspaceName | documentDisplayName
  deriving DecidableEq

namespace Column

/-- The field of the schemas behind the column. -/
def field : Column → Field
  | userDisplayName => RegisterRequest.nameField
  | workspaceName => WorkspaceCreate.nameField
  | documentDisplayName => DocumentUpdate.displayNameField

/-- `String(size)`. -/
def size : Column → Nat
  | userDisplayName | workspaceName => 120
  | documentDisplayName => 255

/-- The `CheckConstraint` of the table; `users` has none. -/
def check : Column → Text → Bool
  | userDisplayName, _ => true
  | workspaceName, name => 2 ≤ name.length
  | documentDisplayName, name => 1 ≤ name.length

end Column

/-! ## What a schema lets through -/

section Accepted

variable {field : Field} {loc : String} {value : Text}

/-- A value without failure keeps to the limits. -/
theorem Field.bounds_of_check (passed : field.check loc value = []) :
    field.minLength ≤ value.length ∧ value.length ≤ field.maxLength := by
  simp only [check, failure, List.map_eq_nil_iff, Option.toList_eq_nil_iff] at passed
  split at passed
  · cases passed
  · split at passed
    · cases passed
    · omega

theorem validated_eq_ok {α : Type} {errors : List ErrorDetail} {value value' : α} :
    validated errors value = .ok value' ↔ errors = [] ∧ value = value' := by
  rw [validated]
  split
  next none => simp [none]
  next some => simp [some]

theorem RegisterRequest.validate_eq_ok [EmailStr] {body payload : RegisterRequest}
    (valid : body.validate = .ok payload) :
    nameField.check "display_name" body.displayName = [] ∧
      nameField.check "workspace_name" body.workspaceName = [] ∧
      payload.displayName = strip body.displayName ∧
      payload.workspaceName = strip body.workspaceName := by
  simp only [validate] at valid
  split at valid
  · cases valid
  · obtain ⟨checks, rfl⟩ := validated_eq_ok.1 valid
    simp only [List.append_eq_nil_iff] at checks
    exact ⟨checks.1.1.1, checks.1.2, rfl, rfl⟩

end Accepted

end SupportPilot.Schemas
