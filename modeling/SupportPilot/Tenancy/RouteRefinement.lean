import SupportPilot.Tenancy.Claiming

/-! # The routes that change documents, refined

`update_document`, `delete_document` and `retry_document_job`, from where the request has been
let in. -/

namespace SupportPilot.Tenancy

open Lib Policies Workspaces

/-- The whole of `update_document`. -/
def renamed (db : Database) (workspaceId documentId : UUID) (displayName : Text) :
    Except PyError Database := do
  let document ← Documents.selectLive db workspaceId documentId
  Documents.renameDocument db document.id displayName

/-- The whole of `delete_document`, which reads the clock for `deleted_at` while the job has the time
of the transaction. -/
def retired (db : Database) (workspaceId documentId jobId : UUID) (now clock : Nat) :
    Except PyError Database := do
  let document ← Documents.selectLive db workspaceId documentId
  (db.updateDocument document.id fun document =>
    { document with deletedAt := some clock, activeVersionId := none }).insertJob
      (.new jobId workspaceId .deleteObject ⟨some document.id, none⟩
        (Documents.deleteKey document.id) 5 now)

/-- With one clock it is the function of the lifecycle model. -/
theorem retired_eq (db : Database) (workspaceId documentId jobId : UUID) (now : Nat) :
    retired db workspaceId documentId jobId now now = (do
      let document ← Documents.selectLive db workspaceId documentId
      Documents.deleteDocument db workspaceId document.id jobId now) := rfl

section Routes

variable {env : Environment} {w userId : UUID} {tx : Transaction} {α : Type}

theorem finds_loadDocument (acting : Acting w userId tx) (documentId : UUID) :
    Finds tx (loadDocument w documentId) (·.toDocument)
      (Documents.selectLive (database tx.tables) w documentId) fun row =>
        row ∈ tx.tables .documents ∧ row.workspaceId = w := by
  have visible : (tx.secured.view tx.tables .documents).find? (fun row =>
      row.id = documentId && row.workspaceId = w && row.deletedAt = none) =
      ((tx.tables .documents).find? fun row => row.id = documentId).filter fun row =>
        row.workspaceId = w && row.deletedAt = none := by
    refine (find_view fun row _ chosen => ?_).trans ?_
    · simp only [Bool.and_eq_true, decide_eq_true_eq] at chosen
      exact acting.selects (t := .documents) (decide_eq_true chosen.1.2)
    · rw [← find_filter_key (fun row : DocumentRow => row.id) acting.constraints.documents.1,
        List.find?_filter]
      refine congrArg (List.find? · _) (funext fun row => ?_)
      rw [Bool.eq_iff_iff]
      simp only [Bool.and_eq_true, decide_eq_true_eq]
      tauto
  have abstracted : ((database tx.tables).document? w documentId).filter
        (fun document => document.deletedAt = none) =
      (((tx.tables .documents).find? fun row => row.id = documentId).filter fun row =>
        row.workspaceId = w && row.deletedAt = none).map (·.toDocument) := by
    simp only [Database.document?, database, Table.lookup, List.find?_map, Function.comp_def,
      Document.row_key, Option.filter_map, Option.filter_filter]
  rw [Finds, loadDocument, Program.run_bind, run_scalar acting.sound, visible,
    Documents.selectLive, abstracted]
  cases chosen : ((tx.tables .documents).find? fun row => row.id = documentId).filter fun row =>
      row.workspaceId = w && row.deletedAt = none with
  | none => exact .inr ⟨_, rfl, rfl⟩
  | some row =>
    obtain ⟨first, holds⟩ := Option.filter_eq_some_iff.mp chosen
    simp only [Bool.and_eq_true, decide_eq_true_eq] at holds
    exact .inl ⟨row, rfl, rfl, List.mem_of_find?_eq_some first, holds.1⟩

theorem refines_updateDocument {documentId : UUID} {displayName : Text}
    (acting : Acting w userId tx) :
    Refines w userId Raises tx (do let _ ← updateDocument env w documentId displayName)
      (changes (renamed (database tx.tables) w documentId displayName)) := by
  rw [updateDocument, bind_assoc, renamed, changes_bind]
  refine (finds_loadDocument acting documentId).bind raises_raised fun document there => ?_
  obtain ⟨member, here⟩ := there
  rw [bind_assoc]
  -- what is left when the name has been written
  have rest : ∀ {tables : Tables} {row : DocumentRow},
      Acting w userId { tx with tables } → row ∈ tables .documents → row.workspaceId = w →
      row.id = document.id → Refines w userId Raises { tx with tables }
        ((do
          let refreshed ← refresh .documents fun row => row.id = document.id
          let response ← documentResponse refreshed
          return Response.document response) >>= fun _ => pure ())
        (changes (.ok (database tables))) := by
    intro tables row acting member here same
    rw [bind_assoc, ← same]
    refine Program.simulates_of_run (run_refresh acting.constraints.documents.1 acting member
      (decide_eq_true here)) ?_
    rw [bind_assoc]
    exact Program.simulates_of_run (run_documentResponse acting.sound)
      (Program.simulates_pure acting)
  by_cases unchanged : displayName = document.displayName
  · have named : displayName ≠ [] := by
      rw [unchanged]
      exact List.ne_nil_of_length_pos (acting.constraints.documents.2 document member).2.2.2
    have kept := updateDocument_self (fun document => { document with displayName })
      acting.documents_nodup (List.mem_map_of_mem (f := fun row : DocumentRow => row.toDocument)
        member) (by rw [unchanged])
    rw [rename, if_pos unchanged, pure_bind, Documents.renameDocument, if_neg named, kept]
    exact rest acting member here rfl
  · rw [rename, if_neg unchanged, Documents.renameDocument]
    have fires : trigger (tx.secured.view tx.tables) .documents (some document)
        { document with displayName, updatedAt := env.now } = true := by
      simp [trigger]
    split
    next empty =>
      -- the check of the column refuses it
      have reaches := acting.reaches (t := .documents)
        (fun row => { row with displayName, updatedAt := env.now }) acting.constraints.documents.1
        member (decide_eq_true here) (decide_eq_true here) fires
      have refused : ¬ Constraints (updated tx.tables .documents (fun row => row.id = document.id)
          fun row => { row with displayName, updatedAt := env.now }) := by
        intro accepted
        have named := (accepted.documents.2 { document with displayName, updatedAt := env.now }
          (List.mem_map.mpr ⟨document, member, if_pos (decide_eq_true rfl)⟩)).2.2.2
        exact absurd named (by simp [empty])
      exact Program.simulates_of_raised (run_flushRow_refused reaches refused) rfl
    next named =>
      obtain ⟨tables, ran, acting', stored, -, member'⟩ := run_updateDocument
        (fun row => { row with displayName, updatedAt := env.now })
        (fun document => { document with displayName })
        (fun _ => rfl) acting member here (fun _ => rfl) (fun _ => ⟨rfl, rfl, rfl⟩) fires
        (acting.constraints.documents.2 document member).2.2.1
        (List.length_pos_iff.mpr named)
      refine Program.simulates_of_run ran ?_
      rw [← stored]
      exact rest acting' member' here rfl

theorem insertJob_eq {db : Database} {job : Job} :
    (Database.JobFits db.jobs job → db.insertJob job = .ok { db with jobs := db.jobs ++ [job] }) ∧
      (¬ Database.JobFits db.jobs job → db.insertJob job = .error .integrityError) := by
  constructor
  · intro fits
    rw [Database.insertJob, Database.jobs_insertJob_ok.2 ⟨fits, rfl⟩]
    rfl
  · intro broken
    rw [Database.insertJob, Jobs.insertJob]
    split
    · rfl
    next passed =>
      refine absurd ?_ broken
      have inserted : Jobs.insertJob db.jobs job = .ok (job, db.jobs ++ [job]) := by
        rw [Jobs.insertJob, if_neg passed]
      exact (Database.jobs_insertJob_ok.1 inserted).1

theorem refines_deleteDocument {documentId : UUID} (acting : Acting w userId tx) :
    Refines w userId Raises tx (do let _ ← deleteDocument env w documentId)
      (changes (retired (database tx.tables) w documentId env.drawnId env.now env.clock)) := by
  rw [deleteDocument, bind_assoc, retired, changes_bind]
  refine (finds_loadDocument acting documentId).bind raises_raised fun document there => ?_
  obtain ⟨member, here⟩ := there
  rw [bind_assoc]
  obtain ⟨tables, ran, acting', stored, -, member'⟩ := run_updateDocument
    (fun row => { row with
      deletedAt := some env.clock, activeVersionId := none, updatedAt := env.now })
    (fun document => { document with
      deletedAt := some env.clock, activeVersionId := none })
    (fun _ => rfl) acting member here (fun _ => rfl) (fun _ => ⟨rfl, rfl, rfl⟩)
    (by simp [trigger, Database.activeVersionValid]) (by simp)
    (acting.constraints.documents.2 document member).2.2.2
  refine Program.simulates_of_run ran ?_
  rw [← stored, bind_assoc]
  generalize made : JobRow.mk (.new env.drawnId w .deleteObject ⟨some document.id, none⟩
    (Documents.deleteKey document.id) 5 env.now) env.now = row
  have own : row.workspaceId = w := by rw [← made]; rfl
  have columns : row.toJob = .new env.drawnId w .deleteObject ⟨some document.id, none⟩
    (Documents.deleteKey document.id) 5 env.now := by rw [← made]
  have workspace : row.workspaceId ∈ workspaceIds tables := by
    rw [own, ← here]
    exact (acting'.constraints.documents.2 _ member').1
  have positive : 0 < row.maxAttempts := by rw [← made]; exact Nat.succ_pos 4
  have ofW : ofWorkspace w .jobs row = true := decide_eq_true own
  have executed : schema.execute (Transaction.secured { tx with tables }) tables
        (.insert (Function.update emptyTables .jobs [row])) =
      schema.check (inserted tables .jobs [row]) := execute_insertRows
    (fun row member => by
      rw [List.mem_singleton.mp member]
      exact insertable_iff.2 ⟨acting'.inserts (by simp) ofW, acting'.selects ofW⟩)
    fun _ _ => rfl
  by_cases fits : Database.JobFits (database tables).jobs row.toJob
  · have accepted := (constraints_insertJob acting'.constraints workspace positive).mpr fits
    rw [check_ok accepted] at executed
    rw [← columns, insertJob_eq.1 fits]
    refine Program.simulates_of_run (run_write_ok acting'.sound executed) ?_
    have inserted : { database tables with jobs := (database tables).jobs ++ [row.toJob] } =
        database (inserted tables .jobs [row]) := by
      simp [database, inserted, Function.update_of_ne, List.map_append]
    rw [inserted]
    exact Program.simulates_pure (acting_of_tables acting' accepted
      (homes_congr acting'.homes rfl rfl))
  · have refused := mt (constraints_insertJob acting'.constraints workspace positive).mp fits
    rw [check_error refused] at executed
    rw [← columns, insertJob_eq.2 fits]
    exact Program.simulates_of_raised (run_write_error acting'.sound executed) rfl

/-- The job is looked up in its workspace. -/
theorem finds_jobOfWorkspace (acting : Acting w userId tx) (jobId : UUID) :
    ∃ found : Option JobRow,
      (scalar .jobs fun row => row.id = jobId && row.workspaceId = w).run Transaction.execute tx =
        (.ok found, tx) ∧
      (Table.lookup (database tx.tables).jobs jobId).filter (fun job => job.workspaceId = w) =
        found.map (·.toJob) ∧
      ∀ row, found = some row → row ∈ tx.tables .jobs ∧ row.workspaceId = w := by
  refine ⟨((tx.tables .jobs).find? fun row => row.id = jobId).filter
    fun row => row.workspaceId = w, ?_, ?_, fun row chosen => ?_⟩
  · rw [run_scalar acting.sound, find_view, ← find_filter_key (fun row : JobRow => row.id)
      acting.constraints.jobs.1, List.find?_filter]
    · simp only [Bool.decide_and, Bool.decide_eq_true, Bool.and_comm]
    · intro row _ chosen
      simp only [Bool.and_eq_true, decide_eq_true_eq] at chosen
      exact acting.selects (t := .jobs) (decide_eq_true chosen.2)
  · simp only [database, Table.lookup, List.find?_map, Function.comp_def, Job.row_key,
      Option.filter_map]
  · obtain ⟨first, here⟩ := Option.filter_eq_some_iff.mp chosen
    exact ⟨List.mem_of_find?_eq_some first, of_decide_eq_true here⟩

theorem refines_retryDocumentJob {jobId : UUID} (acting : Acting w userId tx) :
    Refines w userId Raises tx (do let _ ← retryDocumentJob env w jobId)
      (changes (Documents.retryDocumentJob (database tx.tables) w jobId env.clock)) := by
  obtain ⟨found, ran, abstracted, there⟩ := finds_jobOfWorkspace acting jobId
  rw [retryDocumentJob, bind_assoc]
  refine Program.simulates_of_run ran ?_
  cases found with
  | none =>
    have missing : Documents.retryDocumentJob (database tx.tables) w jobId env.clock =
        .error (.notFound "job not found") := by
      rw [Documents.retryDocumentJob, Jobs.retryJob]
      cases looked : Table.lookup (database tx.tables).jobs jobId with
      | none => rfl
      | some job =>
        rw [looked] at abstracted
        have foreign : job.workspaceId ≠ w := by
          simpa [Option.filter_some] using abstracted
        simp only [if_pos foreign]
        rfl
    rw [missing]
    exact Program.simulates_of_raised rfl rfl
  | some row =>
    obtain ⟨member, here⟩ := there row rfl
    obtain ⟨looked, -⟩ := Option.filter_eq_some_iff.mp abstracted
    have own : ¬ row.workspaceId ≠ w := not_not.mpr here
    rw [Documents.retryDocumentJob, Jobs.retryJob, looked]
    simp only [if_neg own, raiseUnless, pure_bind]
    split
    · exact Program.simulates_throw rfl
    · have keeps : ∀ row : JobRow, SameKey .jobs row ⟨row.toJob.retry env.clock, env.now⟩ :=
        fun _ => rfl
      obtain ⟨tables, ran, acting', stored, -, written, member', wrote⟩ :=
        run_updateJob keeps acting member here fun _ => rfl
      rw [bind_assoc]
      refine Program.simulates_of_run ran ?_
      have key : written.id = row.id := by
        rw [wrote]
        rfl
      have home : written.workspaceId = w := by
        rw [wrote]
        exact here
      rw [bind_assoc, ← key]
      refine Program.simulates_of_run (run_refresh acting'.constraints.jobs.1 acting' member'
        (decide_eq_true home)) ?_
      show Refines _ _ _ _ _ (changes (.ok { database tx.tables with
        jobs := Table.save (database tx.tables).jobs (row.toJob.retry env.clock) }))
      rw [← stored]
      exact Program.simulates_pure acting'

end Routes

end SupportPilot.Tenancy
