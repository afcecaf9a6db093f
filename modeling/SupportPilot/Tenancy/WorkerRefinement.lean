import SupportPilot.Tenancy.Refinement

/-! # The transactions of the worker, refined

Each does to the tables what its function in the lifecycle model does.  A job keeps its
workspace, so the claimed row has the one of the row in the table. -/

namespace SupportPilot.Tenancy

open Lib Policies Workspaces

/-- The result of a function that returns nothing but the tables. -/
abbrev changes (x : Except PyError Database) : Except PyError (Unit × Database) :=
  (fun db => ((), db)) <$> x

theorem changes_bind {β : Type} {x : Except PyError β} {f : β → Except PyError Database} :
    changes (x >>= f) = x >>= fun b => changes (f b) := by
  cases x <;> rfl

/-- A check in front of the rest of a function. -/
theorem changes_unless {c : Bool} {error : PyError} {rest : PUnit → Except PyError Database} :
    changes (if c = true then throw error >>= rest else rest ⟨⟩) =
      if c = true then throw error else changes (rest ⟨⟩) := by
  split <;> rfl

/-- A transaction that can start on the job. -/
structure Ready (job : Job) (tx : Transaction) : Prop where
  sound : tx.failed = false
  nobody : tx.settings.context.workerId = none
  constraints : Constraints tx.tables
  homes : Homes tx.tables
  own : ∀ row ∈ tx.tables .jobs, row.id = job.id → row.workspaceId = job.workspaceId

section Worker

variable {now clock : Nat} {job : Job} {workerId : Text} {tx : Transaction} {α : Type}

theorem Ready.refines {rest : Unit → Handler α} {blame : PyError → ApiError → Prop}
    {x : Except PyError (α × Database)} (ready : Ready job tx)
    (next : ∀ tx', tx'.tables = tx.tables → Acting job.workspaceId serviceUserId tx' →
      Refines job.workspaceId serviceUserId blame tx' (rest ()) x) :
    Refines job.workspaceId serviceUserId blame tx
      (perform (.setTenantContext serviceUserId (some job.workspaceId)) >>= rest) x := by
  refine Program.simulates_of_run (run_setTenantContext ready.sound) (next _ rfl ?_)
  have acting := acting_setTenantContext job.workspaceId serviceUserId ready.nobody
    ready.constraints ready.homes
  exact ⟨ready.sound, acting.context, ready.constraints, ready.homes⟩

/-- The key in the payload is read alike. -/
theorem refines_ofExcept {w userId : UUID} {β : Type} {x : Except PyError β}
    {f : β → Handler α} {g : β → Except PyError (α × Database)}
    (next : ∀ b, x = .ok b → Refines w userId Raises tx (f b) (g b)) :
    Refines w userId Raises tx (ofExcept x >>= f) (x >>= g) := by
  cases x with
  | error error => exact Program.simulates_of_raised rfl rfl
  | ok b => exact next b rfl

/-- A job is written by the holder of its lease, in front of the rest of a transaction. -/
theorem refines_updateOwnedJob {jobId w userId : UUID} {write : Job → Job}
    {keeps : ∀ row : JobRow, SameKey .jobs row ⟨write row.toJob, now⟩} {f : Job → Handler α}
    {g : Job × List Job → Except PyError (α × Database)} (acting : Acting w userId tx)
    (own : ∀ row ∈ tx.tables .jobs, row.id = jobId → row.workspaceId = w)
    (columns : ∀ job, jobColumns (write job) = jobColumns job)
    (next : ∀ owned jobs tx', Acting w userId tx' →
      database tx'.tables = { database tx.tables with jobs } →
      (∃ row ∈ tx'.tables .jobs, row.id = jobId ∧ row.workspaceId = w ∧ row.toJob = owned) →
      Refines w userId Raises tx' (f owned) (g (owned, jobs))) :
    Refines w userId Raises tx (updateOwnedJob now clock jobId workerId write keeps >>= f)
      (Jobs.updateOwnedJob (database tx.tables).jobs jobId workerId clock write >>= g) := by
  rw [updateOwnedJob, Jobs.updateOwnedJob, bind_assoc, bind_assoc]
  refine (finds_job acting clock workerId own).bind raises_raised fun row there => ?_
  obtain ⟨member, same, here⟩ := there
  obtain ⟨tables, ran, acting', abstracted, -, written, member', wrote⟩ :=
    run_flushJob keeps acting member here columns
  have kept := columns row.toJob
  simp only [← wrote, jobColumns, Prod.mk.injEq] at kept
  exact Program.simulates_of_run ran (next _ _ _ acting' abstracted
    ⟨written, member', kept.1.trans same, kept.2.1.trans here, wrote⟩)

theorem jobColumns_process (job : Job) : jobColumns job.process = jobColumns job := rfl

theorem refines_flushStatus {w userId : UUID} {version : VersionRow}
    {status : DocumentVersionStatus} (acting : Acting w userId tx)
    (member : version ∈ tx.tables .documentVersions) (here : version.workspaceId = w) :
    Refines w userId Raises tx (flushStatus now version status)
      (changes (.ok ((database tx.tables).setStatus version.id status))) := by
  obtain ⟨tables, ran, acting', abstracted, -⟩ := run_flushStatus now _ acting member here
  exact ⟨_, ran, abstracted, acting'⟩

theorem refines_beginProcessing (ready : Ready job tx) :
    Refines job.workspaceId serviceUserId Raises tx (beginProcessing now clock job workerId)
      (changes (Worker.beginProcessing (database tx.tables) job workerId clock)) := by
  refine ready.refines fun tx' same acting => ?_
  rw [← same]
  have own : ∀ row ∈ tx'.tables .jobs, row.id = job.id → row.workspaceId = job.workspaceId :=
    same ▸ ready.own
  rw [Worker.beginProcessing, changes_bind]
  refine refines_updateOwnedJob acting own jobColumns_process fun owned jobs s acting stored _ => ?_
  show Refines _ _ _ s (if _ then _ else _) (changes (if _ then _ else _))
  rw [← stored]
  split
  · rw [changes_bind]
    refine refines_ofExcept fun versionId _ => ?_
    rw [changes_bind]
    refine (finds_version acting versionId).bind raises_raised fun version ⟨member, _, here⟩ => ?_
    exact refines_flushStatus acting member here
  · exact Program.simulates_pure acting

/-! ### Leases -/

theorem jobColumns_fail {errorCode errorMessage : Text} {retryable : Bool}
    {randbelow : Nat → Nat} {later : Nat} (job : Job) :
    jobColumns (job.fail errorCode errorMessage retryable randbelow later) = jobColumns job := by
  simp only [Job.fail]
  split <;> rfl

theorem refines_renewDocumentLease {leaseSeconds later : Nat} (ready : Ready job tx) :
    Refines job.workspaceId serviceUserId Raises tx
      (renewDocumentLease now clock job workerId leaseSeconds later)
      (changes ((fun renewed => { database tx.tables with jobs := renewed.2 }) <$>
        Jobs.renewLease (database tx.tables).jobs job.id workerId leaseSeconds clock later)) := by
  refine ready.refines fun tx' same acting => ?_
  rw [← same, ← bind_pure_comp, changes_bind]
  have own : ∀ row ∈ tx'.tables .jobs, row.id = job.id → row.workspaceId = job.workspaceId :=
    same ▸ ready.own
  refine refines_updateOwnedJob acting own (fun _ => rfl) fun owned jobs s acting stored _ => ?_
  show Refines _ _ _ s _ (changes (.ok { database tx'.tables with jobs }))
  rw [← stored]
  exact Program.simulates_pure acting

theorem refines_failJob {errorMessage : Text} {randbelow : Nat → Nat} {later : Nat}
    (ready : Ready job tx) :
    Refines job.workspaceId serviceUserId Raises tx
      (failJob now clock job workerId errorMessage randbelow later)
      (changes (Worker.failJob (database tx.tables) job workerId errorMessage randbelow clock
        later)) := by
  refine ready.refines fun tx' same acting => ?_
  rw [← same]
  have own : ∀ row ∈ tx'.tables .jobs, row.id = job.id → row.workspaceId = job.workspaceId :=
    same ▸ ready.own
  rw [Worker.failJob, changes_bind]
  refine refines_updateOwnedJob acting own jobColumns_fail fun failed jobs s acting stored _ => ?_
  show Refines _ _ _ s (if _ then _ else _) (changes (if _ then _ else _))
  rw [← stored]
  split
  · rw [changes_bind]
    refine refines_ofExcept fun versionId _ => ?_
    obtain ⟨found, ran, abstracted, there⟩ := acting.scalar_version versionId
    refine Program.simulates_of_run ran ?_
    rw [abstracted]
    cases found with
    | none => exact Program.simulates_pure acting
    | some version =>
      obtain ⟨member, -, here⟩ := there version rfl
      exact refines_flushStatus acting member here
  · exact Program.simulates_pure acting

/-! ### Completion -/

theorem refines_markCompleted {w userId : UUID} (now clock : Nat) (workerId : Text) (jobId : UUID)
    (acting : Acting w userId tx)
    (own : ∀ row ∈ tx.tables .jobs, row.id = jobId → row.workspaceId = w) :
    Refines w userId Raises tx (do let _ ← markCompleted now clock jobId workerId)
      (changes do
        let (_, jobs) ← Jobs.markCompleted (database tx.tables).jobs jobId workerId clock
        return { database tx.tables with jobs }) := by
  rw [changes_bind, markCompleted, bind_assoc]
  refine refines_updateOwnedJob acting own (fun _ => rfl)
    fun owned jobs s acting stored ⟨row, member, same, here, _⟩ => ?_
  rw [bind_assoc, ← same]
  refine Program.simulates_of_run (run_refresh acting.constraints.jobs.1 acting member
    (decide_eq_true here)) ?_
  show Refines _ _ _ s (pure ()) (changes (.ok { database tx.tables with jobs }))
  rw [← stored]
  exact Program.simulates_pure acting

/-- A `DELETE` on the chunks of the workspace. -/
theorem run_deleteChunks {w userId : UUID} (chosen : Rag.DocumentChunk → Bool)
    (acting : Acting w userId tx) (here : ∀ row, chosen row = true → row.workspaceId = w) :
    ∃ removed tx', (perform (.deleteFrom .documentChunks chosen)).run Transaction.execute tx =
        (.ok removed, tx') ∧
      Acting w userId tx' ∧
      database tx'.tables = { database tx.tables with
        chunks := (database tx.tables).chunks.filter fun row => !chosen row } ∧
      ∀ t, t ≠ .documentChunks → tx'.tables t = tx.tables t := by
  have executed : schema.execute tx.secured tx.tables
      (.delete (Function.update (fun _ _ => false) .documentChunks chosen)) =
      .ok (deleted tx.tables .documentChunks chosen) := by
    rw [execute_deleteFrom rfl, check_ok (constraints_deleteChunks acting.constraints)]
    intro row _ chose
    have own : ofWorkspace w .documentChunks row = true := decide_eq_true (here row chose)
    exact ⟨acting.selects own, acting.writes own⟩
  refine ⟨_, _, run_write_ok acting.sound executed, ?_, rfl,
    fun t other => Function.update_of_ne other _ _⟩
  exact acting_of_tables acting (constraints_deleteChunks acting.constraints)
    (homes_congr acting.homes rfl rfl)

theorem refines_finishDelete (ready : Ready job tx) :
    Refines job.workspaceId serviceUserId Raises tx (finishDelete now clock job workerId)
      (changes (Worker.finishDelete (database tx.tables) job workerId clock)) := by
  rw [finishDelete, Worker.finishDelete, changes_bind]
  refine refines_ofExcept fun documentId _ => ?_
  refine ready.refines fun tx' same acting => ?_
  rw [← same, deleteDocumentChunks, bind_assoc]
  obtain ⟨removed, s, ran, acting', stored, others⟩ := run_deleteChunks
    (fun row => row.workspaceId = job.workspaceId && row.documentId = documentId)
    acting (fun row chose => of_decide_eq_true (Bool.and_eq_true _ _ ▸ chose).1)
  refine Program.simulates_of_run ran ?_
  have completed := refines_markCompleted now clock workerId job.id acting' (by
      rw [others .jobs (by simp), same]
      exact ready.own)
  rw [stored] at completed
  exact completed

/-! ### Reading -/

theorem refines_locate (ready : Ready job tx) :
    Refines job.workspaceId serviceUserId Raises tx (locate job)
      ((fun located => (located, database tx.tables)) <$>
        Worker.locate (database tx.tables) job) := by
  rw [locate, Worker.locate, map_bind]
  refine refines_ofExcept fun versionId _ => ?_
  refine ready.refines fun tx' same acting => ?_
  rw [← same, map_bind]
  refine (finds_version acting versionId).bind raises_raised fun version _ => ?_
  rw [map_bind]
  refine (finds_document acting version.documentId).bind raises_raised fun document _ => ?_
  exact Program.simulates_pure acting

theorem refines_deleteKeys (ready : Ready job tx) :
    Refines job.workspaceId serviceUserId Raises tx (deleteKeys job)
      ((fun keys => (keys, database tx.tables)) <$>
        Worker.deleteKeys (database tx.tables) job) := by
  rw [deleteKeys, Worker.deleteKeys, map_bind]
  refine refines_ofExcept fun documentId _ => ?_
  refine ready.refines fun tx' same acting => ?_
  rw [← same]
  refine Program.simulates_of_run (run_select acting.sound) ?_
  have keys : ((tx'.secured.view tx'.tables .documentVersions).filter
      fun row => row.documentId = documentId).map (fun version => version.objectKey) =
      ((database tx'.tables).versions.filter fun version =>
        version.workspaceId = job.workspaceId && version.documentId = documentId).map
          DocumentVersion.objectKey := by
    rw [view, funext acting.select_versions, List.filter_filter, database, List.filter_map,
      List.map_map]
    simp only [Function.comp_def, Bool.and_comm]
  rw [keys]
  exact Program.simulates_pure acting

/-! ### Activation -/

/-- Either may raise: which of several violations comes first is not told. -/
def Either (_ : PyError) (_ : ApiError) : Prop := True

/-- The trigger sees what decides about a chunk of the workspace. -/
theorem chunkScopeValid_view {w userId : UUID} {chunk : Rag.DocumentChunk}
    (acting : Acting w userId tx) (here : chunk.workspaceId = w) :
    (database (tx.secured.view tx.tables)).chunkScopeValid chunk =
      (database tx.tables).chunkScopeValid chunk := by
  have documents : ∀ id, (tx.secured.view tx.tables .documents).any
        (fun row => row.id = id && row.workspaceId = chunk.workspaceId) =
      (tx.tables .documents).any fun row => row.id = id && row.workspaceId = chunk.workspaceId := by
    intro id
    refine any_view fun row _ chosen => acting.selects ?_
    simp only [Bool.and_eq_true, decide_eq_true_eq] at chosen
    exact decide_eq_true (chosen.2.trans here)
  simp only [Database.chunkScopeValid, database, List.any_map, Function.comp_def, documents]
  refine any_view (t := .documentVersions) fun row _ chosen => acting.selects ?_
  simp only [Bool.and_eq_true, decide_eq_true_eq] at chosen
  exact decide_eq_true (chosen.1.2.trans here)

theorem chunkFits {w userId : UUID} {record : Rag.EmbeddedChunk} (acting : Acting w userId tx)
    (pages : ∀ page ∈ record.chunk.pageNumber.toList, 0 < page)
    (inScope : (database tx.tables).chunkScopeValid (Rag.documentChunk w record) = true) :
    ChunkFits tx.tables (Rag.documentChunk w record) := by
  simp only [Database.chunkScopeValid, database, List.any_map, Function.comp_def,
    List.any_eq_true, Bool.and_eq_true, decide_eq_true_eq] at inScope
  obtain ⟨version, member, ⟨⟨versionId, documentId⟩, workspaceId⟩, document, member', id, -⟩ := inScope
  have checks := acting.constraints.versions.2.2.2.2 version member
  refine ⟨workspaceId ▸ checks.1, documentId ▸ checks.2.1,
    versionId ▸ List.mem_map_of_mem (f := fun row : VersionRow => row.id) member,
    record.chunk.chunkId_length, rfl, Int.natCast_nonneg _, ?_, ?_, pages⟩
  · intro empty
    refine record.chunk.text_nonempty ?_
    rw [show record.chunk.text = [] from empty]
    rfl
  · exact Int.natCast_pos.mpr record.chunk.tokenCount_positive

/-- The chunks of the version are replaced, in front of the rest of a transaction. -/
theorem refines_replaceVersion {w userId : UUID} {records : List Rag.EmbeddedChunk}
    {f : Unit → Handler α} {g : List Rag.DocumentChunk → Except PyError (α × Database)}
    (acting : Acting w userId tx)
    (pages : ∀ record ∈ records, ∀ page ∈ record.chunk.pageNumber.toList, 0 < page)
    (next : ∀ chunks tx', Acting w userId tx' →
      database tx'.tables = { database tx.tables with chunks } →
      (∀ t, t ≠ .documentChunks → tx'.tables t = tx.tables t) →
      Refines w userId Either tx' (f ()) (g chunks)) :
    Refines w userId Either tx (replaceVersion w records >>= f)
      (Rag.replaceVersion (database tx.tables).chunks w records >>= fun chunks =>
        if !records.all fun record =>
            (database tx.tables).chunkScopeValid (Rag.documentChunk w record) then
          throw raiseException
        else g chunks) := by
  cases records with
  | nil => exact Program.simulates_of_raised rfl trivial
  | cons first rest =>
    rw [replaceVersion, Rag.replaceVersion]
    split
    · exact Program.simulates_of_raised rfl trivial
    rw [bind_assoc]
    obtain ⟨removed, s, ran, acting', stored, others⟩ := run_deleteChunks
      (fun row => row.workspaceId = w && row.versionId = first.chunk.versionId &&
        row.pipelineVersion = Rag.PIPELINE.version)
      acting fun row chose => by
        simp only [Bool.and_eq_true, decide_eq_true_eq] at chose
        exact chose.1.1
    refine Program.simulates_of_run ran ?_
    have scopes : ∀ chunk, (database s.tables).chunkScopeValid chunk =
        (database tx.tables).chunkScopeValid chunk := fun chunk => by rw [stored]; rfl
    have fires : ∀ record, trigger (s.secured.view s.tables) .documentChunks none
        (Rag.documentChunk w record) =
          (database tx.tables).chunkScopeValid (Rag.documentChunk w record) := fun record =>
      (chunkScopeValid_view acting' rfl).trans (scopes _)
    have kept : (database tx.tables).chunks.filter (fun row => !(row.workspaceId = w &&
        row.versionId = first.chunk.versionId && row.pipelineVersion = Rag.PIPELINE.version)) =
        s.tables .documentChunks := (congrArg Database.chunks stored).symm
    dsimp only
    rw [kept, bind_assoc]
    cases inScope : (first :: rest).all fun record =>
        (database tx.tables).chunkScopeValid (Rag.documentChunk w record) with
    | false =>
      obtain ⟨record, member, outside⟩ := List.all_eq_false.mp inScope
      have stopped : schema.execute s.secured s.tables (.insert (Function.update emptyTables
          .documentChunks ((first :: rest).map (Rag.documentChunk w)))) = .error .trigger :=
        execute_insertRows_refused (List.mem_map_of_mem member) ((fires record).trans (Bool.eq_false_iff.mpr outside))
      split
      · exact Program.simulates_of_raised (run_write_error acting'.sound stopped) trivial
      · exact Program.simulates_of_raised (run_write_error acting'.sound stopped) trivial
    | true =>
      have inScope := List.all_eq_true.mp inScope
      have own : ∀ row ∈ (first :: rest).map (Rag.documentChunk w),
          ∃ record ∈ first :: rest, Rag.documentChunk w record = row :=
        fun row member => List.mem_map.mp member
      have executed : schema.execute s.secured s.tables (.insert (Function.update emptyTables
            .documentChunks ((first :: rest).map (Rag.documentChunk w)))) =
          schema.check (inserted s.tables .documentChunks
            ((first :: rest).map (Rag.documentChunk w))) := execute_insertRows
        (fun row member => by
          obtain ⟨record, -, rfl⟩ := own row member
          have here : ofWorkspace w .documentChunks (Rag.documentChunk w record) = true :=
            decide_eq_true rfl
          exact insertable_iff.2 ⟨acting'.inserts (by simp) here, acting'.selects here⟩)
        (fun row member => by
          obtain ⟨record, member', rfl⟩ := own row member
          exact (fires record).trans (inScope record member'))
      have fits : ∀ row ∈ (first :: rest).map (Rag.documentChunk w), ChunkFits s.tables row := by
        intro row member
        obtain ⟨record, member', rfl⟩ := own row member
        exact chunkFits acting' (pages record member')
          ((scopes _).trans (inScope record member'))
      split
      next keys =>
        have accepted := (constraints_insertChunks acting'.constraints fits).mpr keys
        rw [check_ok accepted] at executed
        refine Program.simulates_of_run (run_write_ok acting'.sound executed) ?_
        refine next _ _ (acting_of_tables acting' accepted (homes_congr acting'.homes rfl rfl)) ?_
          fun t other => (Function.update_of_ne other _ _).trans (others t other)
        exact congrArg (fun db : Database => { db with
          chunks := s.tables .documentChunks ++ (first :: rest).map (Rag.documentChunk w) }) stored
      next broken =>
        have refused := mt (constraints_insertChunks acting'.constraints fits).mp broken
        rw [check_error refused] at executed
        exact Program.simulates_of_raised (run_write_error acting'.sound executed) trivial

/-- The writing transaction, whose two parts the lifecycle model has one by one. -/
def activating (db : Database) (job : Job) (workerId : Text) (now : Nat)
    (located : Worker.Located) (records : List Rag.EmbeddedChunk) : Except PyError Database := do
  let documentId ← Worker.lockVersion db job located
  Worker.activate db job workerId now located documentId records

/-- The trigger for the active version lets the new one pass. -/
theorem activeVersionValid_updateDocument (db : Database) (document : Document)
    (version : DocumentVersion) (unique : (db.documents.map fun row => row.id).Nodup)
    (member : document ∈ db.documents) (member' : version ∈ db.versions)
    (ofDocument : version.documentId = document.id)
    (here : version.workspaceId = document.workspaceId) (active : version.status = .active) :
    let db' := db.updateDocument document.id fun document =>
      { document with activeVersionId := some version.id }
    (db'.documents.all fun row => row.id ≠ document.id || db'.activeVersionValid row) = true := by
  refine List.all_eq_true.mpr fun row inTable => ?_
  obtain ⟨old, there, rfl⟩ := List.mem_map.mp inTable
  by_cases same : old.id = document.id
  · obtain rfl := List.inj_on_of_nodup_map unique there member same
    simp only [decide_true, if_true]
    refine Bool.or_eq_true_iff.mpr (.inr (List.any_eq_true.mpr ⟨version, member', ?_⟩))
    simp [ofDocument, here, active]
  · simp [same]

theorem refines_activate {located : Worker.Located} {records : List Rag.EmbeddedChunk}
    (ready : Ready job tx)
    (pages : ∀ record ∈ records, ∀ page ∈ record.chunk.pageNumber.toList, 0 < page) :
    Refines job.workspaceId serviceUserId Either tx
      (activate now clock job workerId located records)
      (changes (activating (database tx.tables) job workerId clock located records)) := by
  refine ready.refines fun tx' same acting => ?_
  rw [← same, activating, Worker.lockVersion, bind_assoc, changes_bind]
  refine (finds_version acting located.versionId).bind (fun _ => trivial)
    fun version ⟨member, versionId, here⟩ => ?_
  rw [bind_assoc, changes_bind]
  refine (finds_document acting version.documentId).bind (fun _ => trivial)
    fun document ⟨member', documentId, here'⟩ => ?_
  rw [pure_bind, Worker.activate, changes_bind]
  simp only [changes_unless]
  refine refines_replaceVersion acting pages fun chunks s acting stored others => ?_
  have versions := others .documentVersions (by simp)
  obtain ⟨tables, ran, acting, stored', others', current, member, id, ofDocument, here, active⟩ :=
    run_flushStatus now .active acting (versions ▸ member) here
  refine Program.simulates_of_run ran ?_
  have there : document ∈ tables .documents := by
    rw [others' .documents (by simp), others .documents (by simp)]
    exact member'
  obtain ⟨tables', ran, acting', stored'', others''⟩ := run_flushActive now acting there
    here' member (ofDocument.trans documentId.symm) here active
  rw [id] at ran stored''
  refine Program.simulates_of_run ran ?_
  have written : ({ database tx'.tables with chunks }.setStatus located.versionId
      .active).updateDocument document.id
        (fun document => { document with activeVersionId := some located.versionId }) =
      database tables' := by
    rw [stored'', stored', stored, versionId]
  have valid := activeVersionValid_updateDocument (database tables) document.toDocument
    current.toDocumentVersion
    acting.documents_nodup (List.mem_map_of_mem there) (List.mem_map_of_mem member)
    (ofDocument.trans documentId.symm) (here.trans here'.symm) active
  rw [id, ← stored''] at valid
  rw [written, valid]
  have jobs : tables' .jobs = tx.tables .jobs := (others'' .jobs (by simp)).trans
    ((others' .jobs (by simp)).trans ((others .jobs (by simp)).trans (congrFun same _)))
  refine (refines_markCompleted now clock workerId job.id acting' fun row member => ?_).mono fun _ _ _ => trivial
  exact ready.own row (jobs ▸ member)

end Worker

end SupportPilot.Tenancy
