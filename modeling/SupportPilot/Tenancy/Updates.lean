import SupportPilot.Tenancy.Transparency

/-! # Statements about single rows

What a statement comes to in a transaction that acts for a workspace: one table changes
(`run_flushRow`, `run_insertRows`, `run_deleteFrom`), and the constraints decide.  The last
section reads the statements of the services over the tables of the lifecycle model. -/

namespace SupportPilot.Tenancy

open Lib Policies Workspaces

/-! ## One table -/

section Writes

variable {tx : Transaction} {t : TableName} {chosen : Record t → Bool} {set : Record t → Record t}

/-- The tables after an `UPDATE`. -/
def updated (db : Tables) (t : TableName) (chosen : Record t → Bool)
    (set : Record t → Record t) : Tables :=
  Function.update db t (Table.updateWhere chosen set (db t))

/-- The tables after an `INSERT`. -/
def inserted (db : Tables) (t : TableName) (rows : List (Record t)) : Tables :=
  Function.update db t (db t ++ rows)

/-- The chosen rows are open to the transaction, before and after the change. -/
structure Reaches (tx : Transaction) (t : TableName) (chosen : Record t → Bool)
    (set : Record t → Record t) : Prop where
  sound : tx.failed = false
  select : ∀ row ∈ tx.tables t, chosen row = true → tx.secured.select t row = true
  update : ∀ row ∈ tx.tables t, chosen row = true → tx.secured.update t row = true
  leavable : ∀ row ∈ tx.tables t, chosen row = true → tx.secured.leavable t (set row) = true
  fires : ∀ row ∈ tx.tables t, chosen row = true →
    trigger (tx.secured.view tx.tables) t (some row) (set row) = true

theorem Reaches.updatable (reaches : Reaches tx t chosen set) :
    ∀ row ∈ tx.tables t, tx.secured.updatable (Function.update (fun _ _ => false) t chosen) t row =
      chosen row := by
  intro row member
  rw [Policies.updatable, Function.update_self]
  cases holds : chosen row with
  | false => rfl
  | true => rw [reaches.select row member holds, reaches.update row member holds]; rfl

theorem execute_updateIn (reaches : Reaches tx t chosen set) :
    schema.execute tx.secured tx.tables (.update (Function.update (fun _ _ => false) t chosen)
      (Function.update (fun _ row => row) t set)) =
      schema.check (updated tx.tables t chosen set) := by
  have other : ∀ t', t' ≠ t → ∀ row, tx.secured.updatable
      (Function.update (fun _ _ => false) t chosen) t' row = false := by
    intro t' differs row
    rw [Policies.updatable, Function.update_of_ne differs, Bool.false_and]
  have after : (fun t' => Table.updateWhere
      (tx.secured.updatable (Function.update (fun _ _ => false) t chosen) t')
      (Function.update (fun _ row => row) t set t') (tx.tables t')) =
      updated tx.tables t chosen set := by
    funext t'
    by_cases same : t' = t
    · subst same
      rw [updated, Function.update_self, Function.update_self]
      exact List.map_congr_left fun row member => by rw [reaches.updatable row member]
    · have kept : updated tx.tables t chosen set t' = tx.tables t' := Function.update_of_ne same _ _
      rw [kept]
      refine (List.map_congr_left fun row _ => ?_).trans (List.map_id' _)
      rw [if_neg (by simp [other t' same])]
  rw [Schema.execute, if_neg, if_neg, after]
  · rw [Bool.not_eq_true', Bool.not_eq_false, Schema.every_or_iff]
    intro t' row member changed
    by_cases same : t' = t
    · subst same
      rw [Function.update_self]
      rw [reaches.updatable row member] at changed
      exact reaches.leavable row member changed
    · rw [other t' same] at changed
      cases changed
  · rw [Bool.not_eq_true', Bool.not_eq_false, Schema.every_or_iff]
    intro t' row member changed
    by_cases same : t' = t
    · subst same
      rw [Function.update_self]
      rw [reaches.updatable row member] at changed
      exact reaches.fires row member changed
    · rw [other t' same] at changed
      cases changed

theorem check_ok {db : Tables} (constraints : Constraints db) : schema.check db = .ok db :=
  Schema.check_eq_ok.2 ⟨accepts_iff.2 constraints, rfl⟩

theorem check_error {db : Tables} (broken : ¬ Constraints db) :
    schema.check db = .error .constraint := by
  exact if_neg fun accepted => broken (accepts_iff.1 accepted)

theorem run_write_ok {w : Write Record} {keeps : KeepsKeys w} {tables : Tables}
    (sound : tx.failed = false) (executed : schema.execute tx.secured tx.tables w = .ok tables) :
    (perform (.write w keeps)).run Transaction.execute tx =
      (.ok (tx.secured.returned tx.tables w), { tx with tables }) := by
  rw [run_write sound, executed]

theorem run_write_error {w : Write Record} {keeps : KeepsKeys w} {reason : Refusal}
    (sound : tx.failed = false)
    (executed : schema.execute tx.secured tx.tables w = .error reason) :
    (perform (.write w keeps)).run Transaction.execute tx =
      (.error (.raised (SqlError.refused reason).raised), { tx with failed := true }) := by
  rw [run_write sound, executed]

/-- A flush that finds its row and meets the constraints. -/
theorem run_flushRow {keeps : ∀ row, SameKey t row (set row)} (reaches : Reaches tx t chosen set)
    (one : ((tx.tables t).filter chosen).length = 1)
    (accepted : Constraints (updated tx.tables t chosen set)) :
    (flushRow t chosen set keeps).run Transaction.execute tx =
      (.ok (), { tx with tables := updated tx.tables t chosen set }) := by
  have found : (tx.tables t).filter (tx.secured.updatable
      (Function.update (fun _ _ => false) t chosen) t) = (tx.tables t).filter chosen :=
    List.filter_congr reaches.updatable
  simp only [flushRow, Program.run_bind, run_updateIn reaches.sound]
  rw [execute_updateIn reaches, check_ok accepted]
  simp only [Policies.returned, List.length_map, found, one, if_true, Program.run_pure]

theorem run_flushRow_refused {keeps : ∀ row, SameKey t row (set row)}
    (reaches : Reaches tx t chosen set)
    (refused : ¬ Constraints (updated tx.tables t chosen set)) :
    (flushRow t chosen set keeps).run Transaction.execute tx =
      (.error (.raised .integrityError), { tx with failed := true }) := by
  simp only [flushRow, Program.run_bind, run_updateIn reaches.sound]
  rw [execute_updateIn reaches, check_error refused]
  rfl

/-! ### Inserting and deleting -/

theorem execute_insertRows {rows : List (Record t)}
    (allowed : ∀ row ∈ rows, tx.secured.insertable t row = true)
    (fires : ∀ row ∈ rows, trigger (tx.secured.view tx.tables) t none row = true) :
    schema.execute tx.secured tx.tables (.insert (Function.update emptyTables t rows)) =
      schema.check (inserted tx.tables t rows) := by
  have after : (fun t' => tx.tables t' ++ Function.update emptyTables t rows t') =
      inserted tx.tables t rows := by
    funext t'
    by_cases same : t' = t
    · subst same
      rw [inserted, Function.update_self, Function.update_self]
    · rw [inserted, Function.update_of_ne same, Function.update_of_ne same]
      exact List.append_nil _
  have members : ∀ {p : Where Record}, (∀ row ∈ rows, p t row = true) →
      ∀ t', ∀ row ∈ Function.update emptyTables t rows t', p t' row = true := by
    intro p holds t' row member
    by_cases same : t' = t
    · subst same
      rw [Function.update_self] at member
      exact holds row member
    · rw [Function.update_of_ne same] at member
      cases member
  rw [Schema.execute, if_neg, if_neg, after]
  · rw [Bool.not_eq_true', Bool.not_eq_false, Schema.every_iff]
    exact members allowed
  · rw [Bool.not_eq_true', Bool.not_eq_false, Schema.every_iff]
    exact members (p := fun t' => trigger (tx.secured.view tx.tables) t' none) fires

/-- A row that the triggers do not let in. -/
theorem execute_insertRows_refused {rows : List (Record t)} {row : Record t} (member : row ∈ rows)
    (stops : trigger (tx.secured.view tx.tables) t none row = false) :
    schema.execute tx.secured tx.tables (.insert (Function.update emptyTables t rows)) =
      .error .trigger := by
  rw [Schema.execute, if_pos]
  rw [Bool.not_eq_true', Bool.eq_false_iff]
  intro every
  have fires := Schema.every_iff.1 every t row (by rw [Function.update_self]; exact member)
  exact absurd (fires.symm.trans stops) (by simp)

theorem execute_deleteFrom (leaf : t.isLeaf = true)
    (allowed : ∀ row ∈ tx.tables t, chosen row = true →
      tx.secured.select t row = true ∧ tx.secured.delete t row = true) :
    schema.execute tx.secured tx.tables (.delete (Function.update (fun _ _ => false) t chosen)) =
      schema.check (deleted tx.tables t chosen) := by
  rw [Schema.execute]
  congr 1
  have only : ∀ t', t' ≠ t → ∀ row, tx.secured.deletable
      (Function.update (fun _ _ => false) t chosen) t' row = false := by
    intro t' differs row
    rw [Policies.deletable, Function.update_of_ne differs, Bool.false_and]
  rw [show schema.cascade = cascade from rfl, cascade_leaf leaf only, deleted, deleted]
  congr 1
  refine List.filter_congr fun row member => ?_
  rw [Policies.deletable, Function.update_self]
  cases holds : chosen row with
  | false => rfl
  | true =>
    obtain ⟨selects, deletes⟩ := allowed row member holds
    rw [selects, deletes]
    rfl

end Writes

/-! ## Constraints after a change -/

section Constraints

variable {db : Tables} {α : Type}

theorem map_updateWhere_eq {ρ : Type} {rows : List ρ} {chosen : ρ → Bool} {set : ρ → ρ}
    {column : ρ → α} (keeps : ∀ row, column (set row) = column row) :
    (Table.updateWhere chosen set rows).map column = rows.map column := by
  rw [Table.updateWhere, List.map_map]
  refine List.map_congr_left fun row _ => ?_
  rw [Function.comp_apply]
  split
  · exact keeps row
  · rfl

theorem forall_updateWhere {ρ : Type} {rows : List ρ} {chosen : ρ → Bool} {set : ρ → ρ}
    {P : ρ → Prop} (keeps : ∀ row ∈ rows, chosen row = true → P row → P (set row))
    (holds : ∀ row ∈ rows, P row) : ∀ row ∈ Table.updateWhere chosen set rows, P row := by
  intro row member
  obtain ⟨old, member', rfl⟩ := List.mem_map.mp member
  split
  next changed => exact keeps old member' changed (holds old member')
  next => exact holds old member'

/-- The columns of a job that constraints are about. -/
def jobColumns (job : Job) : UUID × UUID × JobType × Text × Nat :=
  (job.id, job.workspaceId, job.jobType, job.idempotencyKey, job.maxAttempts)

theorem constraints_updateJobs (chosen : JobRow → Bool) (set : JobRow → JobRow)
    (constraints : Constraints db)
    (keeps : ∀ row, jobColumns (set row).toJob = jobColumns row.toJob) :
    Constraints (updated db .jobs chosen set) := by
  simp only [jobColumns, Prod.mk.injEq] at keeps
  refine ⟨constraints.users, constraints.workspaces, constraints.memberships, constraints.documents,
    constraints.versions, ?_, constraints.chunks⟩
  obtain ⟨ids, keys, checks⟩ := constraints.jobs
  refine ⟨?_, ?_, ?_⟩
  · show ((Table.updateWhere chosen set (db .jobs)).map fun row => row.id).Nodup
    rw [map_updateWhere_eq fun row => (keeps row).1]
    exact ids
  · show ((Table.updateWhere chosen set (db .jobs)).map fun row =>
      (row.workspaceId, row.jobType, row.idempotencyKey)).Nodup
    rw [map_updateWhere_eq fun row => by simp [keeps row]]
    exact keys
  · refine forall_updateWhere (fun row _ _ holds => ?_) checks
    rw [(keeps row).2.1, (keeps row).2.2.2.2]
    exact holds

theorem constraints_updateVersions (chosen : VersionRow → Bool) (set : VersionRow → VersionRow)
    (constraints : Constraints db)
    (keeps : ∀ row, (set row).id = row.id ∧ sameContent row (set row) = true) :
    Constraints (updated db .documentVersions chosen set) := by
  simp only [sameContent_iff] at keeps
  have ids : versionIds (updated db .documentVersions chosen set) = versionIds db :=
    map_updateWhere_eq fun row => (keeps row).1
  obtain ⟨unique, active⟩ := constraints.documents
  obtain ⟨chunkIds, orders, chunks⟩ := constraints.chunks
  obtain ⟨versions, numbers, contents, objects, checks⟩ := constraints.versions
  refine ⟨constraints.users, constraints.workspaces, constraints.memberships, ⟨unique, ?_⟩,
    ⟨ids ▸ versions, ?_, ?_, ?_, ?_⟩, constraints.jobs, ⟨chunkIds, orders, ?_⟩⟩
  · rw [ids]
    exact active
  · show ((Table.updateWhere chosen set (db .documentVersions)).map fun row =>
      (row.documentId, row.versionNumber)).Nodup
    rw [map_updateWhere_eq fun row => by simp [keeps row]]
    exact numbers
  · show ((Table.updateWhere chosen set (db .documentVersions)).map fun row =>
      (row.workspaceId, row.documentId, row.sha256)).Nodup
    rw [map_updateWhere_eq fun row => by simp [keeps row]]
    exact contents
  · show ((Table.updateWhere chosen set (db .documentVersions)).map fun row =>
      row.objectKey).Nodup
    rw [map_updateWhere_eq fun row => by simp [keeps row]]
    exact objects
  · refine forall_updateWhere (fun row _ _ holds => ?_) checks
    obtain ⟨-, workspace, document, number, -, -, -, -, digest, creator⟩ := keeps row
    rw [workspace, document, number, digest, creator]
    exact holds
  · rw [ids]
    exact chunks

theorem constraints_updateDocuments (chosen : DocumentRow → Bool) (set : DocumentRow → DocumentRow)
    (constraints : Constraints db)
    (keeps : ∀ row, (set row).id = row.id ∧ (set row).workspaceId = row.workspaceId ∧
      (set row).createdBy = row.createdBy)
    (active : ∀ row ∈ db .documents, chosen row = true →
      ∀ id ∈ (set row).activeVersionId.toList, id ∈ versionIds db)
    (named : ∀ row ∈ db .documents, chosen row = true → 1 ≤ (set row).displayName.length) :
    Constraints (updated db .documents chosen set) := by
  have ids : documentIds (updated db .documents chosen set) = documentIds db :=
    map_updateWhere_eq fun row => (keeps row).1
  obtain ⟨unique, checks⟩ := constraints.documents
  obtain ⟨versions, numbers, contents, objects, references⟩ := constraints.versions
  obtain ⟨chunkIds, orders, chunks⟩ := constraints.chunks
  refine ⟨constraints.users, constraints.workspaces, constraints.memberships, ⟨ids ▸ unique, ?_⟩,
    ⟨versions, numbers, contents, objects, ?_⟩, constraints.jobs, ⟨chunkIds, orders, ?_⟩⟩
  · refine forall_updateWhere (fun row member changed holds => ?_) checks
    obtain ⟨workspace, creator, -, -⟩ := holds
    obtain ⟨-, sameWorkspace, sameCreator⟩ := keeps row
    rw [sameWorkspace, sameCreator]
    exact ⟨workspace, creator, active row member changed, named row member changed⟩
  · rw [ids]
    exact references
  · rw [ids]
    exact chunks

theorem constraints_deleteChunks {chosen : Rag.DocumentChunk → Bool}
    (constraints : Constraints db) : Constraints (deleted db .documentChunks chosen) := by
  obtain ⟨chunkIds, orders, chunks⟩ := constraints.chunks
  refine ⟨constraints.users, constraints.workspaces, constraints.memberships, constraints.documents,
    constraints.versions, constraints.jobs, ⟨?_, ?_, ?_⟩⟩
  · exact (List.filter_sublist.map _).nodup chunkIds
  · exact (List.filter_sublist.map _).nodup orders
  · exact fun row member => chunks row (List.mem_of_mem_filter member)

/-- What a new chunk must be like besides its keys. -/
def ChunkFits (db : Tables) (row : Rag.DocumentChunk) : Prop :=
  row.workspaceId ∈ workspaceIds db ∧ row.documentId ∈ documentIds db ∧
    row.versionId ∈ versionIds db ∧ row.chunkId.length = 64 ∧
    row.pipelineVersion = "rag-v1-c1-e1".toList ∧ 0 ≤ row.chunkOrder ∧ row.originalText ≠ [] ∧
    0 < row.tokenCount ∧ ∀ page ∈ row.pageNumber.toList, 0 < page

theorem constraints_insertChunks {rows : List Rag.DocumentChunk} (constraints : Constraints db)
    (fits : ∀ row ∈ rows, ChunkFits db row) :
    Constraints (inserted db .documentChunks rows) ↔
      Rag.ChunkKeys (db .documentChunks ++ rows) := by
  constructor
  · intro after
    exact ⟨after.chunks.1, after.chunks.2.1⟩
  · rintro ⟨chunkIds, orders⟩
    refine ⟨constraints.users, constraints.workspaces, constraints.memberships,
      constraints.documents, constraints.versions, constraints.jobs, ⟨chunkIds, orders, ?_⟩⟩
    intro row member
    obtain old | new := List.mem_append.mp member
    · exact constraints.chunks.2.2 row old
    · exact fits row new

theorem constraints_insertJob {row : JobRow} (constraints : Constraints db)
    (workspace : row.workspaceId ∈ workspaceIds db) (positive : 0 < row.maxAttempts) :
    Constraints (inserted db .jobs [row]) ↔
      Database.JobFits ((db .jobs).map (·.toJob)) row.toJob := by
  obtain ⟨ids, keys, checks⟩ := constraints.jobs
  have split : ∀ {κ : Type} (column : JobRow → κ), ((db .jobs ++ [row]).map column).Nodup ↔
      ((db .jobs).map column).Nodup ∧ ∀ old ∈ db .jobs, column old ≠ column row := by
    intro κ column
    rw [List.map_append, List.map_singleton, ← List.concat_eq_append, List.nodup_concat, and_comm]
    refine and_congr_right fun _ => ?_
    simp only [List.mem_map, not_exists, not_and, ne_eq]
  constructor
  · intro after
    obtain ⟨ids', keys', -⟩ := after.jobs
    have fresh := ((split fun row => row.id).mp ids').2
    have free := ((split fun row => (row.workspaceId, row.jobType, row.idempotencyKey)).mp keys').2
    refine ⟨?_, Nat.pos_iff_ne_zero.mp positive, ?_⟩
    · rw [Table.lookup_eq_none]
      intro job member
      obtain ⟨old, member', rfl⟩ := List.mem_map.mp member
      exact fresh old member'
    · intro job member sameWorkspace sameType sameKey
      obtain ⟨old, member', rfl⟩ := List.mem_map.mp member
      exact free old member' (by simp [sameWorkspace, sameType, sameKey])
  · intro fits
    refine ⟨constraints.users, constraints.workspaces, constraints.memberships,
      constraints.documents, constraints.versions, ⟨?_, ?_, ?_⟩, constraints.chunks⟩
    · refine (split fun row => row.id).mpr ⟨ids, fun old member => ?_⟩
      exact Table.lookup_eq_none.1 fits.id old.toJob (List.mem_map_of_mem member)
    · refine (split fun row => (row.workspaceId, row.jobType, row.idempotencyKey)).mpr
        ⟨keys, fun old member same => ?_⟩
      simp only [Prod.mk.injEq] at same
      exact fits.key old.toJob (List.mem_map_of_mem member) same.1 same.2.1 same.2.2
    · intro row' member
      obtain old | new := List.mem_append.mp member
      · exact checks row' old
      · obtain rfl := List.mem_singleton.mp new
        exact ⟨workspace, positive⟩

/-- Only references and workspaces count. -/
theorem homes_congr {db' : Tables} (homes : Homes db)
    (versions : (db' .documentVersions).map (fun row => (row.documentId, row.workspaceId)) =
      (db .documentVersions).map fun row => (row.documentId, row.workspaceId))
    (documents : (db' .documents).map (fun row => (row.id, row.workspaceId)) =
      (db .documents).map fun row => (row.id, row.workspaceId)) : Homes db' := by
  intro version member document member' same
  have inVersions : (version.documentId, version.workspaceId) ∈
      (db .documentVersions).map fun row => (row.documentId, row.workspaceId) :=
    versions ▸ List.mem_map_of_mem (f := fun row : VersionRow => (row.documentId, row.workspaceId))
      member
  have inDocuments : (document.id, document.workspaceId) ∈
      (db .documents).map fun row => (row.id, row.workspaceId) :=
    documents ▸ List.mem_map_of_mem (f := fun row : DocumentRow => (row.id, row.workspaceId)) member'
  obtain ⟨oldVersion, there, references⟩ := List.mem_map.mp inVersions
  obtain ⟨oldDocument, there', belongs⟩ := List.mem_map.mp inDocuments
  simp only [Prod.mk.injEq] at references belongs
  rw [← references.2, ← belongs.2]
  exact homes oldVersion there oldDocument there' (belongs.1.trans (same.trans references.1.symm))

end Constraints

end SupportPilot.Tenancy
