import SupportPilot.Lifecycle.WellFormed

/-! # How the tables change

`Change` lists the transactions that write, each with everything that is true
when it commits in a well-formed system.  The invariants of the tables are proved
by cases on it, with the two rules about a version and its job: `Pairs.save` for
a transaction that writes the job alone and `Pairs.mark` for one that writes
both. -/

namespace SupportPilot.Lifecycle

open Lib Documents Worker

/-- The status of a version agrees with the state of its job. -/
structure Agrees (status : DocumentVersionStatus) (state : JobState) : Prop where
  active : status = .active ↔ state = .completed
  failed : status = .failed ↔ state = .failed ∨ state = .deadLetter
  waiting : status = .queued ∨ status = .processing ↔
    state ≠ .completed ∧ state ≠ .failed ∧ state ≠ .deadLetter

/-- The records are what the indexer made of the content of the version. -/
def Indexes [Sha256] (indexer : Indexer) (version : DocumentVersion)
    (records : List Rag.EmbeddedChunk) : Prop :=
  ∃ run request, indexer.indexContent run request = .ok records ∧
    request.content.length = version.byteSize ∧
    Sha256.hexdigest request.content = version.sha256 ∧
    request.documentId = version.documentId ∧ request.versionId = version.id

/-- A transaction reads an unfinished job and writes it back. -/
structure Writes (db : Database) (row row' : Job) : Prop where
  read : Table.lookup db.jobs row.id = some row
  same : SameJob row row'
  unfinished : row.state ≠ .completed

section Changes

variable [UnicodeTables] [Sha256] (env : Environment)

inductive Change (s : System) (event : Event) : Database → Prop
  | uploaded (i : Nat) (input call promotedKey file target) : event = .advance i input →
      s.processes[i]? = some (.ofUpload ⟨call, promotedKey, .promoted file target⟩) →
      FileOk env call file → TargetOk call s.stores.db target →
      UploadFits s.stores.db target (newVersion call file.received file.mediaType target)
        (newJob env.service call target) →
      Change s event (added s.stores.db target (newVersion call file.received file.mediaType target)
        (newJob env.service call target))
  | renamed (documentId displayName) : Change s event (s.stores.db.updateDocument documentId
      fun document => { document with displayName := displayName })
  | deleted (deletion documentId now) :
      StoredDocument s.stores.db deletion.workspaceId documentId →
      LiveRow s.stores.db documentId →
      Database.JobFits s.stores.db.jobs (deletionJob deletion documentId now) →
      Change s event (deletedDb s.stores.db documentId now (deletionJob deletion documentId now))
  | claimed (worker : Text) (batchSize leaseSeconds now : Nat) (locked : List UUID) :
      Change s event { s.stores.db with
        jobs := (Jobs.claimJobs s.stores.db.jobs worker batchSize leaseSeconds now locked).2 }
  | saved (row row') : Writes s.stores.db row row' → row'.state ≠ .completed →
      (row.jobType = .processDocument → row'.state = row.state) →
      Change s event (saveJob s.stores.db row')
  | retried (row now) : event = .retryDocumentJob row.workspaceId row.id now →
      Writes s.stores.db row (row.retry now) → row.state = .failed ∨ row.state = .deadLetter →
      Change s event (saveJob s.stores.db (row.retry now))
  | marked (row row' version status) : Writes s.stores.db row row' →
      Table.lookup s.stores.db.versions version.id = some version → Processes row version →
      row'.state ≠ .completed → Agrees status row'.state →
      Change s event ((saveJob s.stores.db row').setStatus version.id status)
  | activated (i : Nat) (input job worker located content records row version chunks) :
      event = .advance i input → s.processes[i]? = some
        (.ofTask ⟨job, worker, .locked located content records version.documentId⟩) →
      located.versionId = version.id → Writes s.stores.db row row.complete →
      Table.lookup s.stores.db.versions version.id = some version → Processes row version →
      LiveRow s.stores.db version.documentId → Indexes env.indexer version records →
      Rag.replaceVersion s.stores.db.chunks version.workspaceId records = .ok chunks →
      Change s event (activatedDb s.stores.db chunks version.id version.documentId row)
  | swept (i : Nat) (job worker row documentId) :
      s.processes[i]? = some (.ofTask ⟨job, worker, .deleting []⟩) → SameJob job row →
      Writes s.stores.db row row.complete → row.jobType = .deleteObject →
      row.payload.documentId = some documentId →
      Change s event (saveJob { s.stores.db with
        chunks := Rag.deleteDocumentChunks s.stores.db.chunks row.workspaceId documentId }
          row.complete)

variable {env} {s t : System} {event : Event} {db db' : Database}

omit [UnicodeTables] [Sha256] in
theorem Holds.writes {job row row' : Job} {worker : Text} {now : Nat}
    (holds : Holds db job worker now row) (same : SameJob row row') : Writes db row row' := by
  refine ⟨?_, same, fun finished => ?_⟩
  · have id : row.id = job.id := Table.key_of_lookup holds.read
    rw [id]
    exact holds.read
  · obtain ⟨-, active, -⟩ := holds.owned
    simp [finished] at active

omit [UnicodeTables] [Sha256] in
theorem Writes.inPlace {row row' : Job} (writes : Writes db row row') (keyed : Table.Keyed db.jobs)
    (jobs : db'.jobs = db.jobs) : InPlace db' (saveJob db' row') := by
  apply inPlace_saveJob _ _ writes.same
  · rw [jobs]
    exact keyed
  · rw [jobs]
    exact writes.read

omit [UnicodeTables] [Sha256] in
theorem Writes.activated {row : Job} {chunks : List Rag.DocumentChunk} {versionId documentId : UUID}
    (writes : Writes db row row.complete) (keyed : Table.Keyed db.jobs) :
    InPlace db (activatedDb db chunks versionId documentId row) := by
  have updated : InPlace db ((({ db with chunks := chunks } : Database).setStatus versionId
      .active).updateDocument documentId
        fun document => { document with activeVersionId := some versionId }) :=
    ((inPlace_chunks db chunks).trans (inPlace_setStatus _ _ _)).trans
      (inPlace_updateDocument _ _ fun _ => ⟨rfl, rfl, fun deleted => deleted⟩)
  exact updated.trans (writes.inPlace keyed rfl)

omit [UnicodeTables] [Sha256] in
/-- The row whose lease a task holds is the row of its job. -/
theorem Holds.same {job row : Job} {worker : Text} {now : Nat} (holds : Holds db job worker now row)
    (stored : StoredJob db job) : SameJob job row := by
  obtain ⟨row', found, same⟩ := stored
  rw [holds.read] at found
  cases found
  exact same

omit [UnicodeTables] [Sha256] in
theorem processes_of_holds {job row : Job} {worker : Text} {now : Nat} {version : DocumentVersion}
    (linked : Linked db) (stored : StoredJob db job) (holds : Holds db job worker now row)
    (process : row.jobType = .processDocument)
    (names : Names db job.workspaceId row.payload version) :
    Table.lookup db.versions version.id = some version ∧ Processes row version := by
  refine ⟨(version?_eq_some.1 names.read).1, ?_⟩
  apply processes_of_names linked (storedJob_of_lookup holds.read) process
  rw [(holds.same stored).workspaceId]
  exact names

theorem change_of_begun {job : Job} {worker : Text} (wf : Wf env s)
    (stored : StoredJob s.stores.db job) (begun : Begun job worker s.stores.db db') :
    Change env s event db' := by
  cases begun with
  | process holds process names =>
    obtain ⟨read, processes⟩ := processes_of_holds wf.linked stored holds process names
    apply Change.marked _ _ _ _ (holds.writes (sameJob_process _)) read processes nofun
    constructor <;> simp [Job.process]
  | delete holds delete =>
    apply Change.saved _ _ (holds.writes (sameJob_process _)) nofun
    intro process
    cases process.symm.trans delete

omit [UnicodeTables] [Sha256] in
theorem sameJob_failedRow (row : Job) (message : Text) (randbelow : Nat → Nat) (later : Nat) :
    SameJob row (failedRow row message randbelow later) :=
  sameJob_fail ..

omit [UnicodeTables] [Sha256] in
theorem state_failedRow (row : Job) (message : Text) (randbelow : Nat → Nat) (later : Nat) :
    (failedRow row message randbelow later).state = .retrying ∨
      (failedRow row message randbelow later).state = .failed ∨
      (failedRow row message randbelow later).state = .deadLetter := by
  rw [failedRow, Job.fail]
  dsimp only
  split
  · exact .inl rfl
  · dsimp only
    split
    · exact .inr (.inr rfl)
    · exact .inr (.inl rfl)

omit [UnicodeTables] [Sha256] in
theorem not_completed_failedRow (row : Job) (message : Text) (randbelow : Nat → Nat)
    (later : Nat) : (failedRow row message randbelow later).state ≠ .completed := by
  intro finished
  obtain state | state | state := state_failedRow row message randbelow later <;>
    cases finished.symm.trans state

omit [UnicodeTables] [Sha256] in
theorem agrees_failedRow (row : Job) (message : Text) (randbelow : Nat → Nat) (later : Nat) :
    Agrees (statusOfFailed (failedRow row message randbelow later))
      (failedRow row message randbelow later).state := by
  rw [statusOfFailed]
  obtain state | state | state := state_failedRow row message randbelow later <;>
    rw [state] <;> constructor <;> simp

theorem change_of_failed {job : Job} {worker : Text} (wf : Wf env s)
    (stored : StoredJob s.stores.db job) (failed : Failed job worker s.stores.db db') :
    Change env s event db' := by
  cases failed with
  | @process now row version message randbelow later holds process names =>
    obtain ⟨read, processes⟩ := processes_of_holds wf.linked stored holds process names
    exact .marked _ _ _ _ (holds.writes (sameJob_failedRow row message randbelow later)) read
      processes (not_completed_failedRow _ _ _ _) (agrees_failedRow ..)
  | @other now row message randbelow later holds unnamed =>
    apply Change.saved _ _ (holds.writes (sameJob_failedRow row message randbelow later))
      (not_completed_failedRow _ _ _ _)
    -- a job for a version always finds it
    intro process
    obtain ⟨version, present, processes⟩ :=
      wf.linked.version row (Table.mem_of_lookup holds.read) process
    have read := Table.lookup_of_mem wf.linked.versions present
    have workspace := processes.workspace.trans (holds.same stored).workspaceId
    have names : Names s.stores.db job.workspaceId row.payload version :=
      ⟨by rw [processes.payload], version?_eq_some.2 ⟨read, workspace⟩⟩
    exact absurd names (unnamed process version)

/-- The activating transaction, with what the task knows. -/
theorem change_of_activated {i : Nat} {input : Input} {job : Job} {worker : Jobs.WorkerId}
    {located : Located} {content : Bytes} {records : List Rag.EmbeddedChunk} {documentId : UUID}
    (wf : Wf env s) (found : s.processes[i]? = some
      (.ofTask ⟨job, worker, .locked located content records documentId⟩))
    (activated : Activated job worker.name located.versionId documentId records s.stores.db db') :
    Change env s (.advance i input) db' := by
  obtain ⟨stored, locatedOk, contentOk, ⟨run, ran⟩, rfl⟩ :=
    wf.ok _ (List.mem_of_getElem? found)
  have live := wf.live _ (List.mem_of_getElem? found) _ rfl
  obtain ⟨read', title, rfl, ⟨version, read, same⟩, processes⟩ := locatedOk.version
  cases activated with
  | @mk now row chunks holds replaced =>
    have id : version.id = read'.id := Table.key_of_lookup read
    have links : Processes row version := processes.same (holds.same stored) same
    have writes : Writes s.stores.db row row.complete := holds.writes (sameJob_complete row)
    -- the task has indexed the object that the version names
    have indexes : Indexes env.indexer version records := by
      refine ⟨run, _, ran, ?_, ?_, same.documentId.symm, id.symm⟩
      · exact contentOk.size.trans same.byteSize.symm
      · exact contentOk.sha256.trans same.sha256.symm
    have workspace : version.workspaceId = job.workspaceId :=
      links.workspace.trans (holds.same stored).workspaceId
    have documentId : (locatedOf read' title).documentId = version.documentId :=
      same.documentId.symm
    have versionId : (locatedOf read' title).versionId = version.id := id.symm
    rw [documentId] at found live ⊢
    rw [versionId]
    rw [← workspace] at replaced
    rw [← id] at read
    exact .activated i input job worker _ content records row version chunks rfl found versionId
      writes read links live indexes replaced

theorem change_of_task {i : Nat} {input : Input} {job : Job} {worker : Jobs.WorkerId}
    {phase phase' : TaskPhase} {stores : Stores} (wf : Wf env s)
    (found : s.processes[i]? = some (.ofTask ⟨job, worker, phase⟩))
    (step : TaskStep env job worker.name phase s.stores phase' stores) :
    stores.db = s.stores.db ∨ Change env s (.advance i input) stores.db := by
  have stored := (wf.ok _ (List.mem_of_getElem? found)).1
  generalize start : s.stores = before at step
  -- four steps write rows, and the others only read or write objects
  cases step with
  | begun db begun =>
    subst start
    exact .inr (change_of_begun wf stored begun)
  | activated located content records documentId db activated =>
    subst start
    exact .inr (change_of_activated wf found activated)
  | swept db swept =>
    subst start
    have delete := (wf.ok _ (List.mem_of_getElem? found)).2
    cases swept with
    | @mk now row documentId holds payload =>
      have same := holds.same stored
      have writes : Writes s.stores.db row row.complete := holds.writes (sameJob_complete row)
      rw [← same.workspaceId]
      rw [← same.payload] at payload
      exact .inr (.swept i job worker row documentId found same writes
        (same.jobType.trans delete) payload)
  | failed db failed =>
    subst start
    exact .inr (change_of_failed wf stored failed)
  | located | listed | statted | loaded | indexed | locked | erased | stopped | ended =>
    exact .inl (by subst start; rfl)

/-- The tables change only in these ways. -/
theorem change_of_next (wf : Wf env s) (step : Next env s event t) :
    t.stores.db = s.stores.db ∨ Change env s event t.stores.db := by
  cases step with
  | spawned | purged | stuttered => exact .inl rfl
  | claimed worker batchSize leaseSeconds now locked =>
    exact .inr (.claimed worker.name batchSize leaseSeconds now locked)
  | moved i input process process' stores found unblocked step =>
    have ok := wf.ok process (List.mem_of_getElem? found)
    generalize start : s.stores = before at step
    cases step with
    | upload step =>
      cases step with
      | persisted file target fits =>
        subst start
        exact .inr (.uploaded i input _ _ file target rfl found ok.1 ok.2 fits)
      | _ => exact .inl (by subst start; rfl)
    | task step =>
      subst start
      exact change_of_task wf found step
    | @deletion deletion _ _ _ step =>
      generalize now : deletion.phase = phase at step
      cases step with
      | deleted documentId time fits =>
        subst start
        obtain ⟨-, stored⟩ := ok documentId now
        -- the request still has the lock under which it read the document
        have locks : Locks (.ofDeletion deletion) documentId := by
          simp [Locks, Process.holds, RequestPhase.holds, now]
        have live := wf.live _ (List.mem_of_getElem? found) documentId locks
        exact .inr (.deleted deletion documentId time stored live fits)
      | selected | raised => exact .inl (by subst start; rfl)
    | @update update _ _ _ step =>
      generalize now : update.phase = phase at step
      cases step with
      | renamed documentId named =>
        subst start
        exact .inr (.renamed documentId _)
      | selected | raised => exact .inl (by subst start; rfl)
    | crashed => exact .inl (by subst start; rfl)
  | halted => exact .inl rfl
  | renewed job worker row now leaseSeconds later holds =>
    have writes : Writes s.stores.db row (row.renew leaseSeconds later) :=
      holds.writes ⟨rfl, rfl, rfl, rfl, rfl⟩
    exact .inr (.saved row _ writes writes.unfinished fun _ => rfl)
  | retried row now read stopped =>
    refine .inr (.retried row now rfl ⟨read, ⟨rfl, rfl, rfl, rfl, rfl⟩, fun finished => ?_⟩ stopped)
    simp [finished] at stopped

/-- No transaction takes a row away. -/
theorem Change.grows (wf : Wf env s) (change : Change env s event db') :
    Grows s.stores.db db' := by
  have keyed := wf.linked.jobs
  cases change with
  | uploaded => exact grows_added ..
  | renamed documentId displayName =>
    apply (inPlace_updateDocument _ _ _).grows
    exact fun _ => ⟨rfl, rfl, fun deleted => deleted⟩
  | deleted => exact grows_deletedDb ..
  | claimed => exact (inPlace_claimJobs ..).grows
  | saved row row' writes => exact (writes.inPlace keyed rfl).grows
  | retried row now here writes => exact (writes.inPlace keyed rfl).grows
  | marked row row' version status writes =>
    exact ((writes.inPlace keyed rfl).trans (inPlace_setStatus _ _ _)).grows
  | activated i input job worker located content records row version chunks here found sameId
      writes => exact (writes.activated keyed).grows
  | swept i job worker row documentId found same writes =>
    have chunked : InPlace s.stores.db { s.stores.db with
        chunks := Rag.deleteDocumentChunks s.stores.db.chunks row.workspaceId documentId } :=
      inPlace_chunks _ _
    exact (chunked.trans (writes.inPlace keyed rfl)).grows

end Changes

end SupportPilot.Lifecycle
