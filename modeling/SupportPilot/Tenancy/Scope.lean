import SupportPilot.Tenancy.Policies

/-! # What the triggers, the foreign keys and the policies keep together

No constraint says that a chunk belongs to the workspace of its version and of its document, or
that an active version is one of its document: the triggers check it when a row is written, and
afterwards it is up to the other statements.  The metadata of a version cannot change (its
trigger), a document cannot move to another workspace (its policies: the old and the new row must
both be of the current workspace), and what is deleted takes along what refers to it. -/

namespace SupportPilot.Tenancy

open Lib Policies

/-! ## One write -/

/-- A write that the database has accepted in the context. -/
def Wrote (context : Context) (before after : Tables) : Prop :=
  ∃ w, KeepsKeys w ∧ schema.execute (context.policies before) before w = .ok after

theorem Wrote.constraints {context : Context} {before after : Tables}
    (wrote : Wrote context before after) : Constraints after := by
  obtain ⟨w, _, executed⟩ := wrote
  exact accepts_iff.1 (Schema.accepts_of_execute executed)

namespace Transaction

variable {tx tx' : Transaction} {command : Command}

/-- Everything that a command can do to a transaction. -/
inductive Effect (tx : Transaction) : Command → Transaction → Prop
  | same {command : Command} : Effect tx command tx
  | tenant {userId : UUID} {workspaceId : Option UUID} :
      Effect tx (.setTenantContext userId workspaceId)
        { tx with settings := tx.settings.setTenantContext userId workspaceId }
  | worker {workerId : Text} : Effect tx (.setWorkerContext workerId)
      { tx with settings := tx.settings.setWorkerContext workerId }
  | wrote {w : Write Record} {keeps : KeepsKeys w} {tables : Tables}
      (executed : schema.execute tx.secured tx.tables w = .ok tables) :
      Effect tx (.write w keeps) { tx with tables }
  | refused {command : Command} : Effect tx command { tx with failed := true }

theorem effect (tx : Transaction) (command : Command) :
    Effect tx command (execute tx command).2 := by
  unfold execute executeUnder
  split
  · exact .same
  · cases command with
    | setTenantContext userId workspaceId => exact .tenant
    | setWorkerContext workerId => exact .worker
    | select t chosen => exact .same
    | write w keeps =>
      simp only
      split
      next executed => exact .wrote executed
      next => exact .refused

/-- The tables change by at most one accepted write. -/
theorem Effect.tables (effect : Effect tx command tx') :
    tx'.tables = tx.tables ∨ Wrote tx.settings.context tx.tables tx'.tables := by
  cases effect with
  | wrote executed => exact .inr ⟨_, ‹_›, executed⟩
  | same | tenant | worker | refused => exact .inl rfl

/-- What every write keeps is kept by every program, committed or not. -/
theorem run_keeps {I : Tables → Prop} {χ α : Type} {p : Program Command Answer χ α}
    (kept : ∀ context before after, I before → Wrote context before after → I after)
    (start : I tx.tables) : I (p.run execute tx).2.tables := by
  refine Program.run_grows (P := fun tx : Transaction => I tx.tables) (fun tx command holds => ?_) start
  obtain same | wrote := (effect tx command).tables
  · exact same ▸ holds
  · exact kept _ _ _ holds wrote

theorem outcome_keeps {I : Tables → Prop} {before : Tables} {χ α : Type}
    {ended : Except χ α × Transaction} (start : I before) (finish : I ended.2.tables) :
    I (outcome before ended) := by
  unfold outcome
  split
  · split
    · exact start
    · exact finish
  · exact start

end Transaction

/-- What every write keeps holds after every run of transactions. -/
theorem Server.run_keeps {I : Tables → Prop} {s t : Server} {events : List Event}
    (kept : ∀ context before after, I before → Wrote context before after → I after)
    (run : Run (stepOf Server.next) s events t) (start : I s.tables) : I t.tables := by
  refine run.invariant (I := fun s : Server => I s.tables) (fun s event t holds taken => ?_) start
  cases taken
  exact Transaction.outcome_keeps holds (Transaction.run_keeps kept holds)

/-! ## The scope of chunks and of active versions -/

/-- The version and the document of the chunk are of its workspace, and belong together. -/
def ChunkScoped (db : Tables) (chunk : Rag.DocumentChunk) : Prop :=
  ∃ version ∈ db .documentVersions, version.id = chunk.versionId ∧
    version.documentId = chunk.documentId ∧ version.workspaceId = chunk.workspaceId ∧
    ∃ document ∈ db .documents, document.id = version.documentId ∧
      document.workspaceId = chunk.workspaceId

/-- An active version is a version of the document, in its workspace. -/
def ActiveScoped (db : Tables) (document : Document) : Prop :=
  ∀ id, document.activeVersionId = some id → ∃ version ∈ db .documentVersions, version.id = id ∧
    version.documentId = document.id ∧ version.workspaceId = document.workspaceId

structure Scoped (db : Tables) : Prop where
  constraints : Constraints db
  chunks : ∀ chunk ∈ db .documentChunks, ChunkScoped db chunk
  documents : ∀ document ∈ db .documents, ActiveScoped db document.toDocument

/-- The versions and documents are still there, of their documents and workspaces. -/
structure Carries (db db' : Tables) : Prop where
  versions : ∀ row ∈ db .documentVersions, ∃ row' ∈ db' .documentVersions, row'.id = row.id ∧
    row'.documentId = row.documentId ∧ row'.workspaceId = row.workspaceId
  documents : ∀ row ∈ db .documents, ∃ row' ∈ db' .documents, row'.id = row.id ∧
    row'.workspaceId = row.workspaceId

section Scope

variable {db db' : Tables} {context : Context} {chunk : Rag.DocumentChunk}

theorem ChunkScoped.carried (inScope : ChunkScoped db chunk) (carries : Carries db db') :
    ChunkScoped db' chunk := by
  obtain ⟨version, member, id, ofDocument, here, document, member', id', here'⟩ := inScope
  obtain ⟨version', stays, sameId, sameDocument, sameWorkspace⟩ := carries.versions version member
  obtain ⟨document', stays', sameId', sameWorkspace'⟩ := carries.documents document member'
  exact ⟨version', stays, sameId.trans id, sameDocument.trans ofDocument,
    sameWorkspace.trans here, document', stays', by rw [sameId', id', sameDocument],
    sameWorkspace'.trans here'⟩

theorem ActiveScoped.carried {document : Document} (inScope : ActiveScoped db document)
    (carries : Carries db db') : ActiveScoped db' document := by
  intro id active
  obtain ⟨version, member, same, ofDocument, here⟩ := inScope id active
  obtain ⟨version', stays, sameId, sameDocument, sameWorkspace⟩ := carries.versions version member
  exact ⟨version', stays, sameId.trans same, sameDocument.trans ofDocument,
    sameWorkspace.trans here⟩

/-- What the trigger on chunks checks. -/
theorem chunkScoped_of_valid (valid : (database db).chunkScopeValid chunk = true) :
    ChunkScoped db chunk := by
  simp only [Database.chunkScopeValid, database, List.any_map, List.any_eq_true,
    Function.comp_apply, Bool.and_eq_true, decide_eq_true_eq] at valid
  obtain ⟨version, member, ⟨⟨id, ofDocument⟩, here⟩, document, member', id', here'⟩ := valid
  exact ⟨version, member, id, ofDocument, here, document, member', id', here'⟩

/-- What the trigger on documents checks. -/
theorem activeScoped_of_valid {document : Document}
    (valid : (database db).activeVersionValid document = true) : ActiveScoped db document := by
  intro id active
  simp only [Database.activeVersionValid, database, active, Option.all_some, List.any_map,
    List.any_eq_true, Function.comp_apply, Bool.and_eq_true, decide_eq_true_eq] at valid
  obtain ⟨version, member, ⟨⟨same, ofDocument⟩, here⟩, -⟩ := valid
  exact ⟨version, member, same, ofDocument, here⟩

/-- A trigger that finds what it looks for among the visible rows finds it in the tables. -/
theorem carries_view (policies : Policies Record) : Carries (policies.view db) db :=
  ⟨fun row member => ⟨row, (mem_view.1 member).1, rfl, rfl, rfl⟩,
    fun row member => ⟨row, (mem_view.1 member).1, rfl, rfl⟩⟩

theorem carries_insert (rows : Tables) : Carries db fun t => db t ++ rows t :=
  ⟨fun row member => ⟨row, List.mem_append_left _ member, rfl, rfl, rfl⟩,
    fun row member => ⟨row, List.mem_append_left _ member, rfl, rfl⟩⟩

/-- The policies pin a document that is updated to its workspace. -/
theorem isCurrent_eq {workspaceId workspaceId' : UUID}
    (current : context.isCurrent workspaceId = true)
    (current' : context.isCurrent workspaceId' = true) : workspaceId = workspaceId' := by
  simp only [Context.isCurrent, decide_eq_true_eq] at current current'
  exact Option.some.inj (current.symm.trans current')

section Update

variable {chosen : Where Record} {set : (t : TableName) → Record t → Record t}

/-- A document is updated within its workspace. -/
theorem document_moves (allowed : ∀ t, ∀ row ∈ db t,
      (context.policies db).updatable chosen t row = true →
        (context.policies db).leavable t (set t row) = true)
    {row : DocumentRow} (member : row ∈ db .documents)
    (changed : (context.policies db).updatable chosen .documents row = true) :
    (set .documents row).workspaceId = row.workspaceId :=
  isCurrent_eq
    (show context.isCurrent _ = true from (leavable_iff.1 (allowed .documents row member changed)).1)
    (show context.isCurrent _ = true from (updatable_iff.1 changed).2.2)

theorem sameContent_iff {old new : VersionRow} : sameContent old new = true ↔
    new.workspaceId = old.workspaceId ∧ new.documentId = old.documentId ∧
      new.versionNumber = old.versionNumber ∧ new.objectKey = old.objectKey ∧
      new.originalFilename = old.originalFilename ∧ new.mediaType = old.mediaType ∧
      new.byteSize = old.byteSize ∧ new.sha256 = old.sha256 ∧ new.createdBy = old.createdBy := by
  simp only [sameContent, Bool.and_eq_true, decide_eq_true_eq, and_assoc]

theorem carries_update (keeps : KeepsKeys (.update chosen set))
    (fires : ∀ t, ∀ row ∈ db t, (context.policies db).updatable chosen t row = true →
      schema.trigger ((context.policies db).view db) t (some row) (set t row) = true)
    (allowed : ∀ t, ∀ row ∈ db t, (context.policies db).updatable chosen t row = true →
      (context.policies db).leavable t (set t row) = true) :
    Carries db fun t =>
      Table.updateWhere ((context.policies db).updatable chosen t) (set t) (db t) where
  versions row member := by
    refine ⟨_, List.mem_map_of_mem member, ?_⟩
    split
    next changed =>
      obtain ⟨workspace, document, -⟩ :=
        sameContent_iff.1 (fires .documentVersions row member changed)
      exact ⟨keeps .documentVersions row, document, workspace⟩
    · exact ⟨rfl, rfl, rfl⟩
  documents row member := by
    refine ⟨_, List.mem_map_of_mem member, ?_⟩
    split
    next changed => exact ⟨keeps .documents row, document_moves allowed member changed⟩
    · exact ⟨rfl, rfl⟩

theorem scoped_update (inScope : Scoped db) (keeps : KeepsKeys (.update chosen set))
    (fires : ∀ t, ∀ row ∈ db t, (context.policies db).updatable chosen t row = true →
      schema.trigger ((context.policies db).view db) t (some row) (set t row) = true)
    (allowed : ∀ t, ∀ row ∈ db t, (context.policies db).updatable chosen t row = true →
      (context.policies db).leavable t (set t row) = true)
    (accepted : accepts (fun t =>
      Table.updateWhere ((context.policies db).updatable chosen t) (set t) (db t)) = true) :
    Scoped fun t =>
      Table.updateWhere ((context.policies db).updatable chosen t) (set t) (db t) := by
  have carries := carries_update keeps fires allowed
  refine ⟨accepts_iff.1 accepted, fun chunk member => ?_, fun document member => ?_⟩
  · obtain ⟨row, old, rfl⟩ := List.mem_map.mp member
    split
    next changed =>
      have valid := fires .documentChunks row old changed
      exact (chunkScoped_of_valid valid).carried (carries_view _) |>.carried carries
    · exact (inScope.chunks row old).carried carries
  · obtain ⟨row, old, rfl⟩ := List.mem_map.mp member
    split
    next changed =>
      have fired := fires .documents row old changed
      simp only [schema, trigger, Option.any_some, Bool.or_eq_true, decide_eq_true_eq] at fired
      obtain same | valid := fired
      · -- the column is left as it was
        intro id active
        obtain ⟨version, stays, sameId, ofDocument, here⟩ :=
          (inScope.documents row old).carried carries id (same.trans active)
        exact ⟨version, stays, sameId, ofDocument.trans (keeps .documents row).symm,
          here.trans (document_moves allowed old changed).symm⟩
      · exact (activeScoped_of_valid valid).carried (carries_view _) |>.carried carries
    · exact (inScope.documents row old).carried carries

end Update

theorem scoped_insert {rows : Tables} (inScope : Scoped db)
    (fires : ∀ t, ∀ row ∈ rows t,
      schema.trigger ((context.policies db).view db) t none row = true)
    (accepted : accepts (fun t => db t ++ rows t) = true) :
    Scoped fun t => db t ++ rows t := by
  have carries : Carries db fun t => db t ++ rows t := carries_insert rows
  refine ⟨accepts_iff.1 accepted, fun chunk member => ?_, fun document member => ?_⟩
  · obtain old | new := List.mem_append.mp member
    · exact (inScope.chunks chunk old).carried carries
    · have valid := fires .documentChunks chunk new
      exact (chunkScoped_of_valid valid).carried (carries_view _) |>.carried carries
  · obtain old | new := List.mem_append.mp member
    · exact (inScope.documents document old).carried carries
    · have fired := fires .documents document new
      simp only [schema, trigger, Option.any_none, Bool.false_or] at fired
      exact (activeScoped_of_valid fired).carried (carries_view _) |>.carried carries

/-! ## Deleting -/

open Deletion

variable {chosen : Where Record}

theorem mem_cascade {t : TableName} {row : Record t} :
    row ∈ cascade db chosen t ↔
      ∃ old ∈ db t, goes db chosen t old = false ∧ kept db chosen t old = row := by
  simp only [cascade, List.mem_map, List.mem_filter, Bool.not_eq_true', and_assoc]

theorem unlinked_id (row : DocumentRow) : (unlinked db chosen row).id = row.id := by
  unfold unlinked
  split <;> rfl

theorem unlinked_workspaceId (row : DocumentRow) :
    (unlinked db chosen row).workspaceId = row.workspaceId := by
  unfold unlinked
  split <;> rfl

theorem scoped_delete (inScope : Scoped db) (accepted : accepts (cascade db chosen) = true) :
    Scoped (cascade db chosen) := by
  have stays : ∀ version ∈ db .documentVersions, versionGone db chosen version.id = false →
      version ∈ cascade db chosen .documentVersions := by
    intro version member there
    refine mem_cascade.2 ⟨version, member, ?_, rfl⟩
    by_contra going
    rw [Bool.not_eq_false] at going
    have gone : versionGone db chosen version.id = true :=
      List.any_eq_true.mpr ⟨version, member, by simpa [goes] using going⟩
    rw [there] at gone
    cases gone
  refine ⟨accepts_iff.1 accepted, fun chunk member => ?_, fun document member => ?_⟩
  · obtain ⟨old, member', staying, rfl⟩ := mem_cascade.1 member
    simp only [goes, Bool.or_eq_false_iff] at staying
    obtain ⟨⟨⟨-, -⟩, documentThere⟩, versionThere⟩ := staying
    obtain ⟨version, inVersions, id, ofDocument, here, document, inDocuments, id', here'⟩ :=
      inScope.chunks old member'
    refine ⟨version, stays version inVersions (id ▸ versionThere), id, ofDocument, here,
      unlinked db chosen document, mem_cascade.2 ⟨document, inDocuments, ?_, rfl⟩, ?_, ?_⟩
    · -- a document that goes is gone
      by_contra going
      rw [Bool.not_eq_false] at going
      have gone : documentGone db chosen old.documentId = true :=
        List.any_eq_true.mpr ⟨document, inDocuments, by
          simpa [goes, id', ofDocument] using going⟩
      rw [documentThere] at gone
      cases gone
    · rw [unlinked_id, id']
    · exact (unlinked_workspaceId document).trans here'
  · obtain ⟨old, member', staying, rfl⟩ := mem_cascade.1 member
    intro id active
    simp only [kept, unlinked] at active ⊢
    split at active
    · cases active
    next there =>
      rw [Bool.not_eq_true, active, Option.any_some] at there
      obtain ⟨version, inVersions, same, ofDocument, here⟩ := inScope.documents old member' id active
      rw [if_neg (by simp [active, there])]
      exact ⟨version, stays version inVersions (same ▸ there), same, ofDocument, here⟩

/-- Tables whose rows no foreign key refers to. -/
def TableName.isLeaf : TableName → Bool
  | .workspaceMemberships | .jobs | .documentChunks => true
  | _ => false

/-- The tables after a `DELETE` of rows that nothing refers to. -/
def deleted (db : Tables) (t : TableName) (chosen : Record t → Bool) : Tables :=
  Function.update db t ((db t).filter fun row => !chosen row)

theorem cascade_leaf {t : TableName} (leaf : t.isLeaf = true)
    (only : ∀ t', t' ≠ t → ∀ row, chosen t' row = false) :
    cascade db chosen = deleted db t (chosen t) := by
  have unchosen : ∀ t' : TableName, t'.isLeaf = false → ∀ row, chosen t' row = false := by
    intro t' other
    refine only t' ?_
    rintro rfl
    rw [leaf] at other
    cases other
  have user : userGone db chosen = fun _ => false := by
    funext id
    simp [userGone, unchosen .users rfl]
  have workspace : workspaceGone db chosen = fun _ => false := by
    funext id
    simp [workspaceGone, unchosen .workspaces rfl]
  have document : documentGone db chosen = fun _ => false := by
    funext id
    simp [documentGone, documentGoes, workspace, unchosen .documents rfl]
  have version : versionGone db chosen = fun _ => false := by
    funext id
    simp [versionGone, versionGoes, workspace, document, unchosen .documentVersions rfl]
  have rest : ∀ t', cascade db chosen t' = (db t').filter fun row => !chosen t' row := by
    intro t'
    have going : ∀ row, goes db chosen t' row = chosen t' row := by
      intro row
      cases t' <;> simp [goes, documentGoes, versionGoes, user, workspace, document, version]
    have keeping : ∀ row, kept db chosen t' row = row := by
      intro row
      cases t' <;> simp [kept, unlinked, version]
    rw [cascade, List.filter_congr fun row _ => by rw [going]]
    exact (List.map_congr_left fun row _ => keeping row).trans (List.map_id' _)
  funext t'
  rw [rest]
  by_cases same : t' = t
  · subst same
    rw [deleted, Function.update_self]
  · rw [deleted, Function.update_of_ne same]
    exact List.filter_eq_self.mpr fun row _ => by rw [only t' same]; rfl

theorem Wrote.inScope (inScope : Scoped db) (wrote : Wrote context db db') : Scoped db' := by
  obtain ⟨w, keeps, executed⟩ := wrote
  cases Schema.execute_eq_ok.1 executed with
  | insert fires _ accepted => exact scoped_insert inScope fires accepted
  | update fires allowed accepted => exact scoped_update inScope keeps fires allowed accepted
  | delete accepted => exact scoped_delete inScope accepted

end Scope

/-! ## Versions -/

/-- A statement that deletes no version, nor a document or a workspace with its versions. -/
def KeepsVersions : Command → Prop
  | .write (.delete chosen) _ => (∀ row, chosen .workspaces row = false) ∧
      (∀ row, chosen .documents row = false) ∧ ∀ row, chosen .documentVersions row = false
  | _ => True

/-- The version is still there, with the metadata that it had. -/
def Immutable (version : VersionRow) (db : Tables) : Prop :=
  ∃ row ∈ db .documentVersions, row.id = version.id ∧ sameContent version row = true

theorem sameContent_trans {first second third : VersionRow}
    (same : sameContent first second = true) (same' : sameContent second third = true) :
    sameContent first third = true := by
  simp only [sameContent_iff] at *
  obtain ⟨workspace, document, number, key, filename, media, size, digest, creator⟩ := same
  obtain ⟨workspace', document', number', key', filename', media', size', digest', creator'⟩ :=
    same'
  exact ⟨workspace'.trans workspace, document'.trans document, number'.trans number,
    key'.trans key, filename'.trans filename, media'.trans media, size'.trans size,
    digest'.trans digest, creator'.trans creator⟩

theorem immutable_write {db db' : Tables} {context : Context} {version : VersionRow}
    {w : Write Record} (keeps : KeepsKeys w) (spares : KeepsVersions (.write w keeps))
    (executed : schema.execute (context.policies db) db w = .ok db')
    (there : Immutable version db) : Immutable version db' := by
  obtain ⟨row, member, id, same⟩ := there
  cases Schema.execute_eq_ok.1 executed with
  | insert _ _ _ => exact ⟨row, List.mem_append_left _ member, id, same⟩
  | update fires _ _ =>
    refine ⟨_, List.mem_map_of_mem member, ?_⟩
    split
    next changed =>
      exact ⟨(keeps .documentVersions row).trans id,
        sameContent_trans same (fires .documentVersions row member changed)⟩
    · exact ⟨id, same⟩
  | @delete chosen _ =>
    obtain ⟨workspaces, documents, versions⟩ := spares
    have none : ∀ {t : TableName} {row : Record t}, chosen t row = false →
        (context.policies db).deletable chosen t row = false := by
      intro t row unchosen
      rw [deletable, unchosen, Bool.false_and]
    refine ⟨row, mem_cascade.2 ⟨row, member, ?_, rfl⟩, id, same⟩
    simp [Deletion.goes, Deletion.versionGoes, Deletion.documentGone, Deletion.documentGoes,
      Deletion.workspaceGone, none (workspaces _), none (documents _), none (versions _)]

/-- The worker takes a version back. -/
def withdrawing (workspaceId versionId : UUID) : Handler Unit := do
  perform (.setTenantContext 0 (some workspaceId))
  let _ ← perform (.updateIn .documentVersions (fun row => row.id = versionId)
    (fun row => { row with status := .failed, updatedAt := 1 }) fun _ => rfl)

theorem scoped_empty : Scoped emptyTables where
  constraints := accepts_iff.1 rfl
  chunks _ member := nomatch member
  documents _ member := nomatch member

end SupportPilot.Tenancy
