import SupportPilot.Tenancy.WorkerTransactions

/-! # The lifecycle model in the secured database

Every transaction of the worker, and every route that writes documents or jobs, does to the
tables what its function in the lifecycle model does to the tables of that model, commits when it
returns and raises when it raises.  So the filters on the workspace that the functions have, and
the statements of the worker do not, are exactly what row level security adds. -/

namespace SupportPilot.Tenancy

open Lib Policies Workspaces

/-- The database raises what the function raises. -/
def Raises (error : PyError) (raised : ApiError) : Prop := raised = .raised error

/-- From `tx`, the program does what the function has done. -/
abbrev Refines {α : Type} (w userId : UUID) (blame : PyError → ApiError → Prop) (tx : Transaction)
    (p : Handler α) (x : Except PyError (α × Database)) : Prop :=
  Program.Simulates Transaction.execute (fun tx : Transaction => database tx.tables)
    (Acting w userId) blame tx p x

/-! ## Rows by their key -/

section Keys

variable {ρ κ : Type} [DecidableEq κ] {rows : List ρ} {id : ρ → κ} {row : ρ}

/-- With unique keys a condition can be checked after the lookup. -/
theorem find_filter_key (id : ρ → κ) (unique : (rows.map id).Nodup) (p : ρ → Bool) (k : κ) :
    (rows.filter p).find? (fun row => id row = k) =
      (rows.find? fun row => id row = k).filter p := by
  induction rows with
  | nil => rfl
  | cons head tail ih =>
    rw [List.map_cons, List.nodup_cons] at unique
    have rest := ih unique.2
    by_cases same : id head = k
    · have none : tail.find? (fun row => id row = k) = none := by
        rw [List.find?_eq_none]
        intro row member same'
        refine unique.1 ?_
        rw [same, ← of_decide_eq_true same']
        exact List.mem_map_of_mem member
      have first : ∀ tail, (head :: tail).find? (fun row => id row = k) = some head :=
        fun _ => List.find?_cons_of_pos (decide_eq_true same)
      rw [none] at rest
      rw [first]
      cases holds : p head with
      | true => rw [List.filter_cons_of_pos holds, first, Option.filter_some, if_pos holds]
      | false =>
        rw [List.filter_cons_of_neg (by simp [holds]), rest, Option.filter_some,
          if_neg (by simp [holds])]
        rfl
    · have later : ∀ tail, (head :: tail).find? (fun row => id row = k) =
          tail.find? fun row => id row = k := fun _ => List.find?_cons_of_neg (by simpa using same)
      rw [later]
      cases holds : p head with
      | true => rw [List.filter_cons_of_pos holds, later, rest]
      | false => rw [List.filter_cons_of_neg (by simp [holds]), rest]

theorem filter_key (unique : (rows.map id).Nodup) (member : row ∈ rows) :
    rows.filter (fun other => id other = id row) = [row] :=
  Table.filter_eq_singleton unique.of_map member (decide_eq_true rfl) fun _ member' same =>
    List.inj_on_of_nodup_map unique member' member (of_decide_eq_true same)

variable {σ : Type} [Row σ κ] {f : ρ → σ}

/-- A row that is changed by its key is saved. -/
theorem map_updateWhere_key (unique : (rows.map id).Nodup) (member : row ∈ rows)
    (key : ∀ row, Row.key (f row) = id row) (set : ρ → ρ) (write : σ → σ)
    (writes : ∀ row, f (set row) = write (f row))
    (keeps : ∀ row, Row.key (write (f row)) = Row.key (f row)) :
    (Table.updateWhere (fun other => id other = id row) set rows).map f =
      Table.save (rows.map f) (write (f row)) := by
  rw [Table.save, Table.updateWhere, Table.updateWhere, List.map_map, List.map_map]
  refine List.map_congr_left fun other member' => ?_
  simp only [Function.comp_apply, decide_eq_true_eq, keeps, key]
  split
  next same => rw [writes, List.inj_on_of_nodup_map unique member' member same]
  next => rfl

theorem save_self (unique : (rows.map id).Nodup) (member : row ∈ rows)
    (key : ∀ row, Row.key (f row) = id row) : Table.save (rows.map f) (f row) = rows.map f := by
  rw [Table.save, Table.updateWhere, List.map_map]
  refine List.map_congr_left fun other member' => ?_
  simp only [Function.comp_apply, decide_eq_true_eq, key]
  split
  next same => rw [List.inj_on_of_nodup_map unique member' member same]
  next => rfl

omit [DecidableEq κ] [Row σ κ] in
theorem map_updateWhere {chosen : ρ → Bool} {chosen' : σ → Bool} {set : ρ → ρ} {write : σ → σ}
    (chose : ∀ row, chosen' (f row) = chosen row) (writes : ∀ row, f (set row) = write (f row)) :
    (Table.updateWhere chosen set rows).map f = Table.updateWhere chosen' write (rows.map f) := by
  rw [Table.updateWhere, Table.updateWhere, List.map_map, List.map_map]
  refine List.map_congr_left fun row _ => ?_
  simp only [Function.comp_apply, chose]
  split
  · exact writes row
  · rfl

end Keys

/-! ## Reading -/

section Reading

variable {w userId : UUID} {tx : Transaction} {blame : PyError → ApiError → Prop} {α : Type}

theorem Acting.select_documents (acting : Acting w userId tx) (row : DocumentRow) :
    tx.secured.select .documents row = decide (row.workspaceId = w) := by
  rw [Bool.eq_iff_iff, decide_eq_true_eq]
  exact acting.isCurrent

theorem Acting.select_versions (acting : Acting w userId tx) (row : VersionRow) :
    tx.secured.select .documentVersions row = decide (row.workspaceId = w) := by
  rw [Bool.eq_iff_iff, decide_eq_true_eq]
  exact acting.isCurrent

theorem Acting.select_jobs (acting : Acting w userId tx) (row : JobRow) :
    tx.secured.select .jobs row = decide (row.workspaceId = w) := by
  rw [Bool.eq_iff_iff, decide_eq_true_eq, ← acting.isCurrent]
  show (_ || tx.settings.context.isWorker) = true ↔ _
  rw [acting.context]
  simp [Context.isWorker]

/-- What a row is found by its key for, and what the function looks up. -/
theorem Acting.scalar_version (acting : Acting w userId tx) (versionId : UUID) :
    ∃ found : Option VersionRow,
      (scalar .documentVersions fun row => row.id = versionId).run Transaction.execute tx =
        (.ok found, tx) ∧
      (database tx.tables).version? w versionId = found.map (·.toDocumentVersion) ∧
      ∀ row, found = some row →
        row ∈ tx.tables .documentVersions ∧ row.id = versionId ∧ row.workspaceId = w := by
  refine ⟨((tx.tables .documentVersions).find? fun row => row.id = versionId).filter
    fun row => row.workspaceId = w, ?_, ?_, fun row chosen => ?_⟩
  · rw [run_scalar acting.sound, view, funext acting.select_versions,
      find_filter_key (fun row : VersionRow => row.id) acting.constraints.versions.1]
  · simp only [Database.version?, database, Table.lookup, List.find?_map, Function.comp_def,
      DocumentVersion.row_key, Option.filter_map]
  · obtain ⟨first, here⟩ := Option.filter_eq_some_iff.mp chosen
    exact ⟨List.mem_of_find?_eq_some first, by simpa using List.find?_some first,
      of_decide_eq_true here⟩

theorem Acting.scalar_document (acting : Acting w userId tx) (documentId : UUID) :
    ∃ found : Option DocumentRow,
      (scalar .documents fun row => row.id = documentId).run Transaction.execute tx =
        (.ok found, tx) ∧
      (database tx.tables).document? w documentId = found.map (·.toDocument) ∧
      ∀ row, found = some row →
        row ∈ tx.tables .documents ∧ row.id = documentId ∧ row.workspaceId = w := by
  refine ⟨((tx.tables .documents).find? fun row => row.id = documentId).filter
    fun row => row.workspaceId = w, ?_, ?_, fun row chosen => ?_⟩
  · rw [run_scalar acting.sound, view, funext acting.select_documents,
      find_filter_key (fun row : DocumentRow => row.id) acting.constraints.documents.1]
  · simp only [Database.document?, database, Table.lookup, List.find?_map, Function.comp_def,
      Document.row_key, Option.filter_map]
  · obtain ⟨first, here⟩ := Option.filter_eq_some_iff.mp chosen
    exact ⟨List.mem_of_find?_eq_some first, by simpa using List.find?_some first,
      of_decide_eq_true here⟩

/-- A read that returns a row of the workspace where the function returns its columns, and raises
what the function raises. -/
def Finds {ρ σ : Type} (tx : Transaction) (p : Handler ρ) (columns : ρ → σ)
    (x : Except PyError σ) (ok : ρ → Prop) : Prop :=
  (∃ row, p.run Transaction.execute tx = (.ok row, tx) ∧ x = .ok (columns row) ∧ ok row) ∨
    ∃ error, p.run Transaction.execute tx = (.error (.raised error), tx) ∧ x = .error error

/-- A read in front of the rest of a program. -/
theorem Finds.bind {ρ σ : Type} {p : Handler ρ} {columns : ρ → σ} {x : Except PyError σ}
    {ok : ρ → Prop} {f : ρ → Handler α} {g : σ → Except PyError (α × Database)}
    (finds : Finds tx p columns x ok) (matched : ∀ error, blame error (.raised error))
    (rest : ∀ row, ok row → Refines w userId blame tx (f row) (g (columns row))) :
    Refines w userId blame tx (p >>= f) (x >>= g) := by
  obtain ⟨row, ran, rfl, holds⟩ | ⟨error, ran, rfl⟩ := finds
  · exact Program.simulates_of_run ran (rest row holds)
  · exact Program.simulates_of_raised ran (matched error)

theorem raises_raised (error : PyError) : Raises error (.raised error) := rfl

theorem finds_version (acting : Acting w userId tx) (versionId : UUID) :
    Finds tx (getVersion versionId) (·.toDocumentVersion)
      (Worker.findVersion (database tx.tables) w versionId) fun row =>
        row ∈ tx.tables .documentVersions ∧ row.id = versionId ∧ row.workspaceId = w := by
  obtain ⟨found, ran, abstracted, there⟩ := acting.scalar_version versionId
  rw [Finds, getVersion, Program.run_bind, ran, Worker.findVersion, abstracted]
  cases found with
  | none => exact .inr ⟨_, rfl, rfl⟩
  | some row => exact .inl ⟨row, rfl, rfl, there row rfl⟩

theorem finds_document (acting : Acting w userId tx) (documentId : UUID) :
    Finds tx (getLiveDocument documentId) (·.toDocument)
      (Worker.findLiveDocument (database tx.tables) w documentId) fun row =>
        row ∈ tx.tables .documents ∧ row.id = documentId ∧ row.workspaceId = w := by
  obtain ⟨found, ran, abstracted, there⟩ := acting.scalar_document documentId
  rw [Finds, getLiveDocument, Program.run_bind, ran, Worker.findLiveDocument, abstracted]
  cases found with
  | none => exact .inr ⟨_, rfl, rfl⟩
  | some row =>
    cases live : decide (row.deletedAt = none) with
    | true =>
      refine .inl ⟨row, ?_, ?_, there row rfl⟩ <;> simp [Option.filter_some, live, raiseUnless]
    | false =>
      refine .inr ⟨.runtimeError "document is missing or deleted", ?_, ?_⟩ <;>
        simp [Option.filter_some, live, raiseUnless]

/-- Ownership is checked on the row that the queue has, if it is a job of the workspace. -/
theorem finds_job (acting : Acting w userId tx) {jobId : UUID} (clock : Nat) (workerId : Text)
    (own : ∀ row ∈ tx.tables .jobs, row.id = jobId → row.workspaceId = w) :
    Finds tx (requireOwnedJob clock jobId workerId) (·.toJob)
      (Jobs.requireOwnedJob (database tx.tables).jobs jobId workerId clock) fun row =>
        row ∈ tx.tables .jobs ∧ row.id = jobId ∧ row.workspaceId = w := by
  have found : (tx.secured.view tx.tables .jobs).find? (fun row => row.id = jobId) =
      (tx.tables .jobs).find? fun row => row.id = jobId := by
    refine find_view fun row member same => ?_
    rw [acting.select_jobs]
    exact decide_eq_true (own row member (of_decide_eq_true same))
  have abstracted : Table.lookup (database tx.tables).jobs jobId =
      ((tx.tables .jobs).find? fun row => row.id = jobId).map (·.toJob) := by
    simp only [database, Table.lookup, List.find?_map, Function.comp_def, Job.row_key]
  simp only [Finds, requireOwnedJob, Jobs.requireOwnedJob, Program.run_bind,
    run_scalar acting.sound, found, abstracted]
  cases chosen : (tx.tables .jobs).find? fun row => row.id = jobId with
  | none => exact .inr ⟨_, rfl, rfl⟩
  | some row =>
    have member := List.mem_of_find?_eq_some chosen
    have same : row.id = jobId := by simpa using List.find?_some chosen
    simp only [raiseUnless, Program.run_pure, Option.map_some]
    split
    · exact .inr ⟨_, rfl, rfl⟩
    split
    · exact .inr ⟨_, rfl, rfl⟩
    · exact .inl ⟨row, rfl, rfl, member, same, own row member same⟩

/-- `session.refresh` reads a row of the workspace back. -/
theorem run_refresh {t : TableName} {κ : Type} [DecidableEq κ] {id : Record t → κ} {row : Record t}
    (unique : ((tx.tables t).map id).Nodup) (acting : Acting w userId tx)
    (member : row ∈ tx.tables t) (here : ofWorkspace w t row = true) :
    (refresh t fun other => id other = id row).run Transaction.execute tx = (.ok row, tx) := by
  have visible : (tx.secured.view tx.tables t).find? (fun other => id other = id row) =
      some row := by
    rw [← List.head?_filter, filter_view, filter_key unique member]
    · rfl
    · intro other member' same
      rw [List.inj_on_of_nodup_map unique member' member (of_decide_eq_true same)]
      exact acting.selects here
  simp only [refresh, Program.run_bind, run_scalar acting.sound, visible]
  rfl

end Reading

/-! ## Writing -/

section Writing

variable {w userId : UUID} {tx : Transaction} {t : TableName} {κ : Type} [DecidableEq κ]
  {id : Record t → κ}

/-- A change of one row of the workspace. -/
theorem Acting.reaches (acting : Acting w userId tx) (set : Record t → Record t)
    (unique : ((tx.tables t).map id).Nodup)
    {row : Record t} (member : row ∈ tx.tables t) (here : ofWorkspace w t row = true)
    (stays : ofWorkspace w t (set row) = true)
    (fires : trigger (tx.secured.view tx.tables) t (some row) (set row) = true) :
    Reaches tx t (fun other => id other = id row) set := by
  have only : ∀ other ∈ tx.tables t, decide (id other = id row) = true → other = row :=
    fun other member' same =>
      List.inj_on_of_nodup_map unique member' member (of_decide_eq_true same)
  refine ⟨acting.sound, fun other member' same => ?_, fun other member' same => ?_,
    fun other member' same => ?_, fun other member' same => ?_⟩ <;>
    obtain rfl := only other member' same
  · exact acting.selects here
  · exact acting.writes here
  · exact leavable_iff.2 ⟨acting.writes stays, acting.selects stays⟩
  · exact fires

theorem acting_of_tables (acting : Acting w userId tx) {tables : Tables}
    (constraints : Constraints tables) (homes : Homes tables) :
    Acting w userId { tx with tables } :=
  ⟨acting.sound, acting.context, constraints, homes⟩

/-- An `UPDATE` of one job. -/
theorem run_updateJob {now : Nat} {job : JobRow} {write : Job → Job}
    (keeps : ∀ row : JobRow, SameKey .jobs row ⟨write row.toJob, now⟩) (acting : Acting w userId tx)
    (member : job ∈ tx.tables .jobs) (here : job.workspaceId = w)
    (columns : ∀ job, jobColumns (write job) = jobColumns job) :
    ∃ tables, (flushRow .jobs (fun row => row.id = job.id) (fun row => ⟨write row.toJob, now⟩)
        keeps).run Transaction.execute tx = (.ok (), { tx with tables }) ∧
      Acting w userId { tx with tables } ∧
      database tables = { database tx.tables with
        jobs := Table.save (database tx.tables).jobs (write job.toJob) } ∧
      (∀ t, t ≠ .jobs → tables t = tx.tables t) ∧
      ∃ row ∈ tables .jobs, row.toJob = write job.toJob := by
  have unique : ((tx.tables .jobs).map fun row => row.id).Nodup := acting.constraints.jobs.1
  have stays : (write job.toJob).workspaceId = w := by
    have both := columns job.toJob
    simp only [jobColumns, Prod.mk.injEq] at both
    exact both.2.1.trans here
  have reaches := acting.reaches (t := .jobs) (fun row => ⟨write row.toJob, now⟩) unique member
    (decide_eq_true here) (decide_eq_true stays) rfl
  have accepted := constraints_updateJobs (fun row => row.id = job.id)
    (fun row => ⟨write row.toJob, now⟩) acting.constraints fun row => columns row.toJob
  refine ⟨_, run_flushRow reaches ?_ accepted,
    acting_of_tables acting accepted (homes_congr acting.homes rfl rfl), ?_,
    fun t other => Function.update_of_ne other _ _, ⟨write job.toJob, now⟩, ?_, rfl⟩
  · rw [filter_key unique member]
    rfl
  · have saved := map_updateWhere_key (f := fun row : JobRow => row.toJob) unique member
      (fun row => rfl) (fun row => ⟨write row.toJob, now⟩) write (fun _ => rfl) keeps
    exact congrArg (fun jobs => { database tx.tables with jobs }) saved
  · refine List.mem_map.mpr ⟨job, member, ?_⟩
    rw [if_pos (decide_eq_true rfl)]

theorem run_flushJob {now : Nat} {job : JobRow} {write : Job → Job}
    (keeps : ∀ row : JobRow, SameKey .jobs row ⟨write row.toJob, now⟩) (acting : Acting w userId tx)
    (member : job ∈ tx.tables .jobs) (here : job.workspaceId = w)
    (columns : ∀ job, jobColumns (write job) = jobColumns job) :
    ∃ tables, (flushJob now job write keeps).run Transaction.execute tx =
        (.ok (write job.toJob), { tx with tables }) ∧
      Acting w userId { tx with tables } ∧
      database tables = { database tx.tables with
        jobs := Table.save (database tx.tables).jobs (write job.toJob) } ∧
      (∀ t, t ≠ .jobs → tables t = tx.tables t) ∧
      ∃ row ∈ tables .jobs, row.toJob = write job.toJob := by
  by_cases same : write job.toJob = job.toJob
  · refine ⟨tx.tables, ?_, acting, ?_, fun _ _ => rfl, job, member, same.symm⟩
    · rw [flushJob, if_pos same, same]
      rfl
    · have saved : Table.save ((tx.tables .jobs).map (·.toJob)) (write job.toJob) =
          (tx.tables .jobs).map (·.toJob) := by
        rw [same]
        exact save_self acting.constraints.jobs.1 member fun row => rfl
      simp only [database, saved]
  · obtain ⟨tables, ran, rest⟩ := run_updateJob keeps acting member here columns
    refine ⟨tables, ?_, rest⟩
    rw [flushJob, if_neg same, Program.run_bind, ran]
    rfl

theorem run_flushStatus (now : Nat) (status : DocumentVersionStatus) {version : VersionRow}
    (acting : Acting w userId tx) (member : version ∈ tx.tables .documentVersions)
    (here : version.workspaceId = w) :
    ∃ tables, (flushStatus now version status).run Transaction.execute tx =
        (.ok (), { tx with tables }) ∧
      Acting w userId { tx with tables } ∧
      database tables = (database tx.tables).setStatus version.id status ∧
      (∀ t, t ≠ .documentVersions → tables t = tx.tables t) ∧
      ∃ row ∈ tables .documentVersions, row.id = version.id ∧
        row.documentId = version.documentId ∧ row.workspaceId = w ∧ row.status = status := by
  have unique : ((tx.tables .documentVersions).map fun row => row.id).Nodup :=
    acting.constraints.versions.1
  by_cases same : version.status = status
  · refine ⟨tx.tables, ?_, acting, ?_, fun _ _ => rfl, version, member, rfl, rfl, here, same⟩
    · rw [flushStatus, if_pos same]
      rfl
    · have unchanged : Table.updateWhere (fun row => row.id = version.id)
          (fun row => { row with status })
            ((tx.tables .documentVersions).map (·.toDocumentVersion)) =
          (tx.tables .documentVersions).map (·.toDocumentVersion) := by
        rw [Table.updateWhere, List.map_map]
        refine List.map_congr_left fun row member' => ?_
        simp only [Function.comp_apply, decide_eq_true_eq]
        split
        next key => rw [List.inj_on_of_nodup_map unique member' member key, ← same]
        next => rfl
      simp only [database, Database.setStatus, unchanged]
  · have reaches := acting.reaches (t := .documentVersions)
      (fun row => { row with status, updatedAt := now }) unique member (decide_eq_true here)
      (decide_eq_true here) (sameContent_iff.2 ⟨rfl, rfl, rfl, rfl, rfl, rfl, rfl, rfl, rfl⟩)
    have accepted := constraints_updateVersions (fun row => row.id = version.id)
      (fun row => { row with status, updatedAt := now }) acting.constraints
      fun row => ⟨rfl, sameContent_iff.2 ⟨rfl, rfl, rfl, rfl, rfl, rfl, rfl, rfl, rfl⟩⟩
    refine ⟨_, ?_, acting_of_tables acting accepted (homes_congr acting.homes ?_ rfl), ?_,
      fun t other => Function.update_of_ne other _ _, { version with
        status, updatedAt := now }, ?_, rfl, rfl, here, rfl⟩
    · rw [flushStatus, if_neg same]
      refine run_flushRow reaches ?_ accepted
      rw [filter_key unique member]
      rfl
    · exact map_updateWhere_eq fun _ => rfl
    · have set : (Table.updateWhere (fun row : VersionRow => row.id = version.id)
            (fun row => { row with status, updatedAt := now }) (tx.tables .documentVersions)).map
              (·.toDocumentVersion) =
          Table.updateWhere (fun row => row.id = version.id) (fun row => { row with status })
            ((tx.tables .documentVersions).map (·.toDocumentVersion)) :=
        map_updateWhere (fun _ => rfl) fun _ => rfl
      exact congrArg (fun versions => { database tx.tables with versions }) set
    · refine List.mem_map.mpr ⟨version, member, ?_⟩
      rw [if_pos (decide_eq_true rfl)]

/-- An `UPDATE` of one document. -/
theorem run_updateDocument {document : DocumentRow} (set : DocumentRow → DocumentRow)
    (write : Document → Document) (keeps : ∀ row, SameKey .documents row (set row))
    (acting : Acting w userId tx) (member : document ∈ tx.tables .documents)
    (here : document.workspaceId = w) (writes : ∀ row, (set row).toDocument = write row.toDocument)
    (columns : ∀ row, (write row).id = row.id ∧ (write row).workspaceId = row.workspaceId ∧
      (write row).createdBy = row.createdBy)
    (fires : trigger (tx.secured.view tx.tables) .documents (some document) (set document) = true)
    (active : ∀ id ∈ (write document.toDocument).activeVersionId.toList, id ∈ versionIds tx.tables)
    (named : 1 ≤ (write document.toDocument).displayName.length) :
    ∃ tables, (flushRow .documents (fun row => row.id = document.id) set keeps).run
        Transaction.execute tx = (.ok (), { tx with tables }) ∧
      Acting w userId { tx with tables } ∧
      database tables = (database tx.tables).updateDocument document.id write ∧
      (∀ t, t ≠ .documents → tables t = tx.tables t) ∧ set document ∈ tables .documents := by
  have unique : ((tx.tables .documents).map fun row => row.id).Nodup :=
    acting.constraints.documents.1
  have kept : ∀ row : DocumentRow, (set row).id = row.id ∧
      (set row).workspaceId = row.workspaceId ∧ (set row).createdBy = row.createdBy := by
    intro row
    rw [writes]
    exact columns row.toDocument
  have reaches := acting.reaches (t := .documents) set unique member (decide_eq_true here)
    (decide_eq_true ((kept document).2.1.trans here)) fires
  have only : ∀ row ∈ tx.tables .documents, decide (row.id = document.id) = true →
      row = document := fun row member' same =>
    List.inj_on_of_nodup_map unique member' member (of_decide_eq_true same)
  have accepted := constraints_updateDocuments (fun row => row.id = document.id) set
    acting.constraints kept
    (fun row member' same id listed => by
      rw [writes, only row member' same] at listed
      exact active id listed)
    (fun row member' same => by
      rw [writes, only row member' same]
      exact named)
  refine ⟨_, run_flushRow reaches ?_ accepted,
    acting_of_tables acting accepted (homes_congr acting.homes rfl ?_), ?_,
    fun t other => Function.update_of_ne other _ _, ?_⟩
  · rw [filter_key unique member]
    rfl
  · exact map_updateWhere_eq fun row => by rw [(kept row).1, (kept row).2.1]
  · have set : (Table.updateWhere (fun row : DocumentRow => row.id = document.id) set
          (tx.tables .documents)).map (·.toDocument) =
        Table.updateWhere (fun row => row.id = document.id) write
          ((tx.tables .documents).map (·.toDocument)) := map_updateWhere (fun _ => rfl) writes
    exact congrArg (fun documents => { database tx.tables with documents }) set
  · refine List.mem_map.mpr ⟨document, member, ?_⟩
    rw [if_pos (decide_eq_true rfl)]

/-- A write that changes nothing. -/
theorem updateDocument_self {db : Database} {document : Document} (write : Document → Document)
    (unique : (db.documents.map fun row => row.id).Nodup) (member : document ∈ db.documents)
    (same : write document = document) : db.updateDocument document.id write = db := by
  have unchanged : Table.updateWhere (fun row => row.id = document.id) write db.documents =
      db.documents := by
    refine (List.map_congr_left fun row member' => ?_).trans (List.map_id' _)
    split
    next key =>
      rw [List.inj_on_of_nodup_map unique member' member (of_decide_eq_true key), same]
    next => rfl
  rw [Database.updateDocument, unchanged]

theorem Acting.documents_nodup (acting : Acting w userId tx) :
    ((database tx.tables).documents.map fun row => row.id).Nodup := by
  have unique : ((tx.tables .documents).map fun row => row.id).Nodup :=
    acting.constraints.documents.1
  simpa [database, Function.comp_def] using unique

/-- A version of the document, in its workspace, may become its active one. -/
theorem run_flushActive (now : Nat) {document : DocumentRow} {version : VersionRow}
    (acting : Acting w userId tx) (member : document ∈ tx.tables .documents)
    (here : document.workspaceId = w) (member' : version ∈ tx.tables .documentVersions)
    (ofDocument : version.documentId = document.id) (here' : version.workspaceId = w)
    (active : version.status = .active) :
    ∃ tables, (flushActive now document version.id).run Transaction.execute tx =
        (.ok (), { tx with tables }) ∧
      Acting w userId { tx with tables } ∧
      database tables = (database tx.tables).updateDocument document.id
        (fun document => { document with activeVersionId := some version.id }) ∧
      ∀ t, t ≠ .documents → tables t = tx.tables t := by
  by_cases same : document.activeVersionId = some version.id
  · refine ⟨tx.tables, ?_, acting, ?_, fun _ _ => rfl⟩
    · rw [flushActive, if_pos same]
      rfl
    · refine (updateDocument_self _ acting.documents_nodup (List.mem_map_of_mem member) ?_).symm
      rw [← same]
  · have fires : trigger (tx.secured.view tx.tables) .documents (some document)
        { document with activeVersionId := some version.id, updatedAt := now } = true := by
      refine Bool.or_eq_true_iff.mpr (.inr ?_)
      simp only [Database.activeVersionValid, database, Option.all_some, List.any_map]
      refine List.any_eq_true.mpr ⟨version, mem_view.2 ⟨member', ?_⟩, ?_⟩
      · exact acting.selects (t := .documentVersions) (decide_eq_true here')
      · simp [ofDocument, here, here', active]
    obtain ⟨tables, ran, acting', stored, others, -⟩ := run_updateDocument
      (fun row => { row with activeVersionId := some version.id, updatedAt := now })
      (fun document => { document with activeVersionId := some version.id })
      (fun _ => rfl) acting member here (fun _ => rfl) (fun _ => ⟨rfl, rfl, rfl⟩) fires
      (fun id listed => by
        rw [List.mem_singleton.mp listed]
        exact List.mem_map_of_mem (f := fun row : VersionRow => row.id) member')
      (acting.constraints.documents.2 document member).2.2.2
    refine ⟨tables, ?_, acting', stored, others⟩
    rw [flushActive, if_neg same]
    exact ran

end Writing

end SupportPilot.Tenancy
