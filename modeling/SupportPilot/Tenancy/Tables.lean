import SupportPilot.Database.Models
import SupportPilot.Lib.RowSecurity
import SupportPilot.Workspaces.Requests

/-! # The schema of the database

The tables of `packages/database/models.py` with what the migrations declare for them: keys and
unique constraints, checks, foreign keys with their actions, and triggers.  `refresh_sessions`,
which no other table refers to, has a model of its own.  A write never assigns to a primary key.

A `Tables` holds the rows as the lifecycle model has them, each with its timestamps; `database`
forgets the timestamps. -/

namespace SupportPilot.Tenancy

open Lib

/-! ## Rows -/

structure UserRow extends Workspaces.User where
  displayName : Text
  passwordHash : Text
  createdAt : Nat
  updatedAt : Nat
  deriving DecidableEq

structure WorkspaceRow extends Workspaces.Workspace where
  name : Text
  createdAt : Nat
  updatedAt : Nat
  deriving DecidableEq

structure MembershipRow extends Workspaces.WorkspaceMembership where
  createdAt : Nat
  updatedAt : Nat
  deriving DecidableEq

structure DocumentRow extends Document where
  createdAt : Nat
  updatedAt : Nat
  deriving DecidableEq

structure VersionRow extends DocumentVersion where
  createdAt : Nat
  updatedAt : Nat
  deriving DecidableEq

structure JobRow extends Job where
  updatedAt : Nat
  deriving DecidableEq

inductive TableName where
  | users | workspaces | workspaceMemberships | documents | documentVersions | jobs
  | documentChunks
  deriving DecidableEq

@[reducible] def Record : TableName → Type
  | .users => UserRow
  | .workspaces => WorkspaceRow
  | .workspaceMemberships => MembershipRow
  | .documents => DocumentRow
  | .documentVersions => VersionRow
  | .jobs => JobRow
  | .documentChunks => Rag.DocumentChunk

abbrev Tables := Rows Record

def emptyTables : Tables := fun _ => []

/-- The tables of the lifecycle model. -/
def database (db : Tables) : Database where
  documents := (db .documents).map (·.toDocument)
  versions := (db .documentVersions).map (·.toDocumentVersion)
  jobs := (db .jobs).map (·.toJob)
  chunks := db .documentChunks

/-- The two versions of a row have the same primary key. -/
def SameKey : (t : TableName) → Record t → Record t → Prop
  | .users, old, new => new.id = old.id
  | .workspaces, old, new => new.id = old.id
  | .workspaceMemberships, old, new => new.id = old.id
  | .documents, old, new => new.id = old.id
  | .documentVersions, old, new => new.id = old.id
  | .jobs, old, new => new.id = old.id
  | .documentChunks, old, new => new.chunkId = old.chunkId

/-- A write that assigns to no primary key. -/
def KeepsKeys : Write Record → Prop
  | .insert _ => True
  | .update _ set => ∀ t row, SameKey t row (set t row)
  | .delete _ => True

/-! ## Constraints -/

def userIds (db : Tables) : List UUID := (db .users).map fun row => row.id

def workspaceIds (db : Tables) : List UUID := (db .workspaces).map fun row => row.id

def documentIds (db : Tables) : List UUID := (db .documents).map fun row => row.id

def versionIds (db : Tables) : List UUID := (db .documentVersions).map fun row => row.id

section Constraints

variable (db : Tables)

def UsersOk : Prop :=
  (userIds db).Nodup ∧ ((db .users).map fun row => row.email).Nodup

def WorkspacesOk : Prop :=
  (workspaceIds db).Nodup ∧ ((db .workspaces).map fun row => row.slug).Nodup ∧
    ∀ row ∈ db .workspaces, row.createdBy ∈ userIds db ∧ 2 ≤ row.name.length

def MembershipsOk : Prop :=
  ((db .workspaceMemberships).map fun row => row.id).Nodup ∧
    ((db .workspaceMemberships).map fun row => (row.workspaceId, row.userId)).Nodup ∧
    ∀ row ∈ db .workspaceMemberships, row.workspaceId ∈ workspaceIds db ∧ row.userId ∈ userIds db

def DocumentsOk : Prop :=
  (documentIds db).Nodup ∧
    ∀ row ∈ db .documents, row.workspaceId ∈ workspaceIds db ∧ row.createdBy ∈ userIds db ∧
      (∀ id ∈ row.activeVersionId.toList, id ∈ versionIds db) ∧ 1 ≤ row.displayName.length

def VersionsOk : Prop :=
  (versionIds db).Nodup ∧
    ((db .documentVersions).map fun row => (row.documentId, row.versionNumber)).Nodup ∧
    ((db .documentVersions).map fun row => (row.workspaceId, row.documentId, row.sha256)).Nodup ∧
    ((db .documentVersions).map fun row => row.objectKey).Nodup ∧
    ∀ row ∈ db .documentVersions, row.workspaceId ∈ workspaceIds db ∧
      row.documentId ∈ documentIds db ∧ row.createdBy ∈ userIds db ∧ 0 < row.versionNumber ∧
      row.sha256.length = 64

def JobsOk : Prop :=
  ((db .jobs).map fun row => row.id).Nodup ∧
    ((db .jobs).map fun row => (row.workspaceId, row.jobType, row.idempotencyKey)).Nodup ∧
    ∀ row ∈ db .jobs, row.workspaceId ∈ workspaceIds db ∧ 0 < row.maxAttempts

def ChunksOk : Prop :=
  ((db .documentChunks).map fun row => row.chunkId).Nodup ∧
    ((db .documentChunks).map fun row => (row.versionId, row.pipelineVersion, row.chunkOrder)).Nodup ∧
    ∀ row ∈ db .documentChunks, row.workspaceId ∈ workspaceIds db ∧
      row.documentId ∈ documentIds db ∧ row.versionId ∈ versionIds db ∧ row.chunkId.length = 64 ∧
      row.pipelineVersion = "rag-v1-c1-e1".toList ∧ 0 ≤ row.chunkOrder ∧ row.originalText ≠ [] ∧
      0 < row.tokenCount ∧ ∀ page ∈ row.pageNumber.toList, 0 < page

instance : Decidable (UsersOk db) := inferInstanceAs (Decidable (_ ∧ _))

instance : Decidable (WorkspacesOk db) := inferInstanceAs (Decidable (_ ∧ _))

instance : Decidable (MembershipsOk db) := inferInstanceAs (Decidable (_ ∧ _))

instance : Decidable (DocumentsOk db) := inferInstanceAs (Decidable (_ ∧ _))

instance : Decidable (VersionsOk db) := inferInstanceAs (Decidable (_ ∧ _))

instance : Decidable (JobsOk db) := inferInstanceAs (Decidable (_ ∧ _))

instance : Decidable (ChunksOk db) := inferInstanceAs (Decidable (_ ∧ _))

/-- The primary and foreign keys, the unique constraints and the checks. -/
structure Constraints : Prop where
  users : UsersOk db
  workspaces : WorkspacesOk db
  memberships : MembershipsOk db
  documents : DocumentsOk db
  versions : VersionsOk db
  jobs : JobsOk db
  chunks : ChunksOk db

def accepts : Bool :=
  decide (UsersOk db) && decide (WorkspacesOk db) && decide (MembershipsOk db) &&
    decide (DocumentsOk db) && decide (VersionsOk db) && decide (JobsOk db) &&
    decide (ChunksOk db)

end Constraints

theorem accepts_iff {db : Tables} : accepts db = true ↔ Constraints db := by
  simp only [accepts, Bool.and_eq_true, decide_eq_true_eq]
  constructor
  · rintro ⟨⟨⟨⟨⟨⟨users, workspaces⟩, memberships⟩, documents⟩, versions⟩, jobs⟩, chunks⟩
    exact ⟨users, workspaces, memberships, documents, versions, jobs, chunks⟩
  · rintro ⟨users, workspaces, memberships, documents, versions, jobs, chunks⟩
    exact ⟨⟨⟨⟨⟨⟨users, workspaces⟩, memberships⟩, documents⟩, versions⟩, jobs⟩, chunks⟩

/-! ## Triggers -/

/-- `protect_document_version_immutability` raises unless this holds. -/
def sameContent (old new : VersionRow) : Bool :=
  new.workspaceId = old.workspaceId && new.documentId = old.documentId &&
    new.versionNumber = old.versionNumber && new.objectKey = old.objectKey &&
    new.originalFilename = old.originalFilename && new.mediaType = old.mediaType &&
    new.byteSize = old.byteSize && new.sha256 = old.sha256 && new.createdBy = old.createdBy

/-- The row triggers, for an inserted row or for the new version of a row.  The functions run with
the rights of the session, so they read what it sees. -/
def trigger (view : Tables) : (t : TableName) → Option (Record t) → Record t → Bool
  | .documents, old, new =>
    -- an update that leaves the column as it is does not list it
    old.any (fun old => old.activeVersionId = new.activeVersionId) ||
      (database view).activeVersionValid new.toDocument
  | .documentVersions, some old, new => sameContent old new
  | .documentChunks, _, new => (database view).chunkScopeValid new
  | _, _, _ => true

/-! ## Foreign key actions -/

namespace Deletion

variable (db : Tables) (chosen : Where Record)

def userGone (id : UUID) : Bool :=
  (db .users).any fun row => chosen .users row && row.id = id

def workspaceGone (id : UUID) : Bool :=
  (db .workspaces).any fun row => chosen .workspaces row && row.id = id

def documentGoes (row : DocumentRow) : Bool :=
  chosen .documents row || workspaceGone db chosen row.workspaceId

def documentGone (id : UUID) : Bool :=
  (db .documents).any fun row => documentGoes db chosen row && row.id = id

def versionGoes (row : VersionRow) : Bool :=
  chosen .documentVersions row || workspaceGone db chosen row.workspaceId ||
    documentGone db chosen row.documentId

def versionGone (id : UUID) : Bool :=
  (db .documentVersions).any fun row => versionGoes db chosen row && row.id = id

/-- The row is deleted, by the statement itself or by `ON DELETE CASCADE`. -/
def goes : Where Record
  | .users, row => chosen .users row
  | .workspaces, row => chosen .workspaces row
  | .workspaceMemberships, row => chosen .workspaceMemberships row ||
    workspaceGone db chosen row.workspaceId || userGone db chosen row.userId
  | .documents, row => documentGoes db chosen row
  | .documentVersions, row => versionGoes db chosen row
  | .jobs, row => chosen .jobs row || workspaceGone db chosen row.workspaceId
  | .documentChunks, row => chosen .documentChunks row ||
    workspaceGone db chosen row.workspaceId || documentGone db chosen row.documentId ||
      versionGone db chosen row.versionId

/-- `ON DELETE SET NULL` of `active_version_id`. -/
def unlinked (row : DocumentRow) : DocumentRow :=
  if row.activeVersionId.any (versionGone db chosen) then { row with activeVersionId := none }
  else row

/-- What becomes of a row that stays. -/
def kept : (t : TableName) → Record t → Record t
  | .documents, row => unlinked db chosen row
  | _, row => row

end Deletion

/-- `DELETE` with the actions of the foreign keys; `ON DELETE RESTRICT` is left to the
constraints. -/
def cascade (db : Tables) (chosen : Where Record) : Tables := fun t =>
  ((db t).filter fun row => !Deletion.goes db chosen t row).map (Deletion.kept db chosen t)

section Congruence

open Deletion

variable {db : Tables} {p q : Where Record}

theorem any_congr {α : Type} {rows : List α} {f g : α → Bool} (same : ∀ row ∈ rows, f row = g row) :
    rows.any f = rows.any g := by
  rw [Bool.eq_iff_iff, List.any_eq_true, List.any_eq_true]
  refine exists_congr fun row => and_congr_right fun member => ?_
  rw [same row member]

theorem cascade_congr (same : ∀ t, ∀ row ∈ db t, p t row = q t row) :
    cascade db p = cascade db q := by
  have user : userGone db p = userGone db q := by
    funext id
    exact any_congr fun row member => by rw [same .users row member]
  have workspace : workspaceGone db p = workspaceGone db q := by
    funext id
    exact any_congr fun row member => by rw [same .workspaces row member]
  have document : documentGone db p = documentGone db q := by
    funext id
    exact any_congr fun row member => by
      rw [documentGoes, documentGoes, same .documents row member, workspace]
  have version : versionGone db p = versionGone db q := by
    funext id
    exact any_congr fun row member => by
      rw [versionGoes, versionGoes, same .documentVersions row member, workspace, document]
  have going : ∀ t, ∀ row ∈ db t, goes db p t row = goes db q t row := by
    intro t row member
    have chosen := same t row member
    cases t <;>
      simp only [goes, documentGoes, versionGoes, chosen, user, workspace, document, version]
  have keeping : kept db p = kept db q := by
    funext t row
    cases t <;> simp only [kept, unlinked, version]
  funext t
  rw [cascade, cascade, keeping]
  congr 1
  exact List.filter_congr fun row member => by rw [going t row member]

end Congruence

def TableName.all : List TableName :=
  [.users, .workspaces, .workspaceMemberships, .documents, .documentVersions, .jobs,
    .documentChunks]

theorem TableName.mem_all (t : TableName) : t ∈ TableName.all := by
  cases t <;> simp [TableName.all]

def schema : Schema Record where
  tables := TableName.all
  complete := TableName.mem_all
  trigger := trigger
  cascade := cascade
  accepts := accepts
  cascade_congr := cascade_congr

end SupportPilot.Tenancy
