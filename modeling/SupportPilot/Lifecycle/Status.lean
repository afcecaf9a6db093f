import SupportPilot.Lifecycle.Versions

/-! # The status of a version and the state of its job

Every transaction of the worker that moves one of the two moves the other with
it, so they agree as long as nobody retries a job by hand: `retry_document_job`
makes a failed job wait again and leaves its version `failed`, where `fail_job`
puts the version of a waiting job back to `queued`. -/

namespace SupportPilot.Lifecycle

open Lib Documents Worker

/-- Every version and its job are related by `P`. -/
def Paired (P : DocumentVersionStatus → JobState → Prop) (db : Database) : Prop :=
  ∀ job ∈ db.jobs, ∀ version ∈ db.versions, Processes job version → P version.status job.state

section Rules

variable {P : DocumentVersionStatus → JobState → Prop} {db : Database}

theorem Paired.saveJob {row row' : Job} (paired : Paired P db) (writes : Writes db row row')
    (keeps : row.jobType = .processDocument → ∀ status, P status row.state → P status row'.state) :
    Paired P (saveJob db row') := by
  intro job member version present processes
  obtain rfl | ⟨before, -⟩ := Table.mem_save member
  · have links := processes.of_same writes.same
    apply keeps links.jobType
    exact paired row (Table.mem_of_lookup writes.read) version present links
  · exact paired job before version present processes

/-- The job and the status of its version are written together. -/
theorem Paired.mark {row row' : Job} {version : DocumentVersion} {status : DocumentVersionStatus}
    (paired : Paired P db) (linked : Linked db) (writes : Writes db row row')
    (read : Table.lookup db.versions version.id = some version) (processes : Processes row version)
    (holds : P status row'.state) :
    Paired P ((Lifecycle.saveJob db row').setStatus version.id status) := by
  have stored : row ∈ db.jobs := Table.mem_of_lookup writes.read
  intro job member version' present links
  obtain ⟨old, oldMember, rfl⟩ := List.mem_map.mp present
  -- the rewritten row differs from the old one only in its status
  have links' : Processes job old := by
    split at links
    · exact ⟨links.jobType, links.payload, links.workspace⟩
    · exact links
  obtain rfl | ⟨before, other⟩ := Table.mem_save member
  · have named := links'.payload.symm.trans (processes.same writes.same (.refl version)).payload
    have id : old.id = version.id := by
      simp only [Payload.mk.injEq, Option.some.injEq] at named
      exact named.2
    simp only [id, decide_true, if_true]
    exact holds
  · have differs : old.id ≠ version.id := by
      intro same
      have read' := Table.lookup_of_mem linked.versions oldMember
      rw [DocumentVersion.row_key, same, read] at read'
      cases read'
      have one := linked.oneJob version job before row stored links' processes
      exact other (one.trans writes.same.id.symm)
    simp only [differs, decide_false, Bool.false_eq_true, if_false]
    exact paired job before old oldMember links'

theorem state_of_claimable {now : Nat} {job : Job} (claimable : Jobs.claimable now job = true) :
    job.state = .queued ∨ job.state = .retrying ∨ job.state = .leased ∨ job.state = .processing := by
  simp only [Jobs.claimable, Jobs.due, Jobs.expired, Bool.or_eq_true, Bool.and_eq_true,
    decide_eq_true_eq] at claimable
  obtain ⟨waiting, -⟩ | ⟨held, -⟩ := claimable
  · exact waiting.elim .inl fun retrying => .inr (.inl retrying)
  · exact .inr (.inr held)

/-- A row that a claim writes. -/
theorem state_of_selected {batchSize now : Nat} {locked : List UUID} {job : Job}
    (keyed : Table.Keyed db.jobs) (member : job ∈ db.jobs)
    (selected : ((Jobs.selectClaimable db.jobs batchSize now locked).any fun row =>
      row.id = job.id) = true) :
    job.state = .queued ∨ job.state = .retrying ∨ job.state = .leased ∨ job.state = .processing := by
  obtain ⟨row, claimed, same⟩ := List.any_eq_true.mp selected
  obtain ⟨stored, claimable⟩ := Jobs.mem_selectClaimable claimed
  have read := Table.lookup_of_mem keyed stored
  have read' := Table.lookup_of_mem keyed member
  rw [Job.row_key, of_decide_eq_true same, ← Job.row_key, read'] at read
  cases read
  exact state_of_claimable claimable

/-- A claim takes only jobs that are waiting or whose lease has run out. -/
theorem Paired.claim {worker : Text} {batchSize leaseSeconds now : Nat} {locked : List UUID}
    (paired : Paired P db) (keyed : Table.Keyed db.jobs)
    (keeps : ∀ status state, P status state →
      state = .queued ∨ state = .retrying ∨ state = .leased ∨ state = .processing →
      P status .leased) :
    Paired P { db with
      jobs := (Jobs.claimJobs db.jobs worker batchSize leaseSeconds now locked).2 } := by
  intro job member version present processes
  obtain ⟨old, before, rfl⟩ := List.mem_map.mp member
  split
  next selected =>
    rw [if_pos selected] at processes
    have links : Processes old version := processes.of_same (sameJob_lease old worker leaseSeconds now)
    apply keeps _ _ (paired old before version present links)
    exact state_of_selected keyed before selected
  next other =>
    rw [if_neg other] at processes
    exact paired old before version present processes

/-- An upload adds a version with its job. -/
theorem Paired.add {target : Target} {version : DocumentVersion} {job : Job}
    (paired : Paired P db) (linked : Linked db) (fits : UploadFits db target version job)
    (processes : Processes job version) (holds : P version.status job.state) :
    Paired P (added db target version job) := by
  intro job' member version' present processes'
  obtain before | rfl := List.mem_append.mp member |>.imp_right List.mem_singleton.mp
  · obtain before' | rfl := List.mem_append.mp present |>.imp_right List.mem_singleton.mp
    · exact paired job' before version' before' processes'
    · exact absurd processes' (linked.unnamed before fits.version.id)
  · obtain before' | rfl := List.mem_append.mp present |>.imp_right List.mem_singleton.mp
    · have fresh := Table.lookup_eq_none.1 fits.version.id version' before'
      exact absurd (processes'.id_eq processes) fresh
    · exact holds

end Rules

/-! ## Agreement -/

section Agreement

variable [UnicodeTables] [Sha256] {env : Environment} {s t : System} {event : Event}
  {db' : Database}

/-- The step is not a manual retry of the failed job of a version. -/
def automatic (s : System) : Event → Bool
  | .retryDocumentJob workspaceId jobId _ => (Table.lookup s.stores.db.jobs jobId).all fun row =>
    row.workspaceId ≠ workspaceId || row.jobType ≠ .processDocument ||
      (row.state ≠ .failed && row.state ≠ .deadLetter)
  | _ => true

omit [UnicodeTables] [Sha256] in
theorem Agrees.leased {status : DocumentVersionStatus} {state : JobState}
    (agrees : Agrees status state)
    (claimable : state = .queued ∨ state = .retrying ∨ state = .leased ∨ state = .processing) :
    Agrees status .leased := by
  have waits : status = .queued ∨ status = .processing := by
    apply agrees.waiting.mpr
    obtain rfl | rfl | rfl | rfl := claimable <;> simp
  obtain rfl | rfl := waits <;> constructor <;> simp

theorem paired_of_change (wf : Wf env s) (change : Change env s event db')
    (auto : automatic s event = true) (paired : Paired Agrees s.stores.db) :
    Paired Agrees db' := by
  cases change with
  | uploaded i input call promotedKey file target here found fileOk targetOk fits =>
    apply paired.add wf.linked fits ⟨rfl, rfl, rfl⟩
    constructor <;> simp [newVersion, newJob, Job.new]
  | renamed documentId displayName => exact paired
  | deleted deletion documentId now stored live fits =>
    intro job member version present processes
    obtain before | rfl := List.mem_append.mp member |>.imp_right List.mem_singleton.mp
    · exact paired job before version present processes
    · cases processes.jobType
  | claimed worker batchSize leaseSeconds now locked =>
    exact paired.claim wf.linked.jobs fun _ _ => Agrees.leased
  | saved row row' writes unfinished keeps =>
    apply paired.saveJob writes
    intro process status agrees
    rw [keeps process]
    exact agrees
  | retried row now here writes stopped =>
    apply paired.saveJob writes
    intro process
    subst here
    -- the retry of a stopped job of a version is manual
    simp only [automatic, writes.read, Option.all_some, process, ne_eq, not_true_eq_false] at auto
    obtain stopped | stopped := stopped <;> simp [stopped] at auto
  | marked row row' version status writes read processes unfinished agrees =>
    exact paired.mark wf.linked writes read processes agrees
  | activated i input job worker located content records row version chunks here found sameId
      writes read processes live indexes replaced =>
    have agrees : Agrees .active row.complete.state := by constructor <;> simp [Job.complete]
    exact paired.mark wf.linked writes read processes agrees
  | swept i job worker row documentId found same writes delete payload =>
    have kept : Paired Agrees { s.stores.db with
        chunks := Rag.deleteDocumentChunks s.stores.db.chunks row.workspaceId documentId } := paired
    apply kept.saveJob ⟨writes.read, writes.same, writes.unfinished⟩
    intro process
    cases process.symm.trans delete

theorem paired_step (wf : Wf env s) (taken : stepOf (guarded automatic (next env)) s event t)
    (paired : Paired Agrees s.stores.db) : Wf env t ∧ Paired Agrees t.stores.db := by
  obtain ⟨auto, moved⟩ := stepOf_guarded.1 taken
  refine ⟨wf_step wf moved, ?_⟩
  obtain same | change := change_of_next wf (next_of_event moved)
  · rw [same]
    exact paired
  · exact paired_of_change wf change auto paired

/-- Where no failed job of a version is retried by hand, the status of each
version agrees with its job. -/
theorem status_agrees (reached : Reachable (stepOf (guarded automatic (next env))) .empty s) :
    ∀ version ∈ s.stores.db.versions, (∃ job ∈ s.stores.db.jobs, Processes job version) ∧
      ∀ job ∈ s.stores.db.jobs, Processes job version → Agrees version.status job.state := by
  have both : Wf env s ∧ Paired Agrees s.stores.db := by
    apply reached.invariant (I := fun s => Wf env s ∧ Paired Agrees s.stores.db)
    · exact ⟨wf_empty, fun _ member => nomatch member⟩
    · exact fun _ _ _ ⟨wf, paired⟩ taken => paired_step wf taken paired
  intro version present
  exact ⟨both.1.linked.job version present, fun job member => both.2 job member version present⟩

end Agreement

/-- An upload and its processing. -/
theorem status_agrees_letter : ∃ s,
    Reachable (stepOf (guarded automatic (@next asciiTables letterSha256 letterEnvironment)))
      .empty s ∧ s.stores.db.versions ≠ [] ∧
    ∀ version ∈ s.stores.db.versions, (∃ job ∈ s.stores.db.jobs, Processes job version) ∧
      ∀ job ∈ s.stores.db.jobs, Processes job version → Agrees version.status job.state := by
  have executed : (exec (guarded automatic (@next asciiTables letterSha256 letterEnvironment)) .empty
      (uploading 0 letterCall ++ claiming firstWorker :: processing 1)).any
        (fun s => s.stores.db.versions ≠ []) = true := by
    rw [letterSha256_eq]
    decide +kernel
  obtain ⟨s, reached, stored⟩ := reachable_of_exec executed
  exact ⟨s, reached, of_decide_eq_true stored,
    @status_agrees asciiTables letterSha256 letterEnvironment s reached⟩

def singleSettings : Settings where
  maxUploadBytes := 1024
  maxWorkspaceStorageBytes := 1024
  jobMaxAttempts := 1
  jobMaxAttempts_pos := Nat.le.refl

/-- One attempt a job. -/
def singleAttempt : Environment :=
  { letterEnvironment with service := { letterService with settings := singleSettings } }

/-- The indexer fails on the first version, and a user retries the job. -/
def failingAndRetried : List Event :=
  uploading 0 letterCall ++ [claiming firstWorker, .advance 1 steady, .interrupt 1,
    .advance 1 steady, .retryDocumentJob 1 6 3]

/-- The version is still `failed` while its job waits. -/
theorem retried_version_stays_failed :
    ∃ s, Reachable (stepOf (@next asciiTables letterSha256 singleAttempt)) .empty s ∧
      ∃ version ∈ s.stores.db.versions, ∃ job ∈ s.stores.db.jobs, Processes job version ∧
        version.status = .failed ∧ job.state = .retrying ∧ ¬ Agrees version.status job.state := by
  have executed : (exec (@next asciiTables letterSha256 singleAttempt) .empty failingAndRetried).any
      (fun s => s.stores.db.versions.any fun version => s.stores.db.jobs.any fun job =>
        job.jobType = .processDocument && job.payload = ⟨some version.documentId, some version.id⟩ &&
          version.workspaceId = job.workspaceId && version.status = .failed &&
          job.state = .retrying) = true := by
    rw [letterSha256_eq]
    decide +kernel
  obtain ⟨s, reached, found⟩ := reachable_of_exec executed
  obtain ⟨version, present, found⟩ := List.any_eq_true.mp found
  obtain ⟨job, member, found⟩ := List.any_eq_true.mp found
  simp only [Bool.and_eq_true, decide_eq_true_eq] at found
  obtain ⟨⟨⟨⟨jobType, payload⟩, workspace⟩, failed⟩, retrying⟩ := found
  refine ⟨s, reached, version, present, job, member, ⟨jobType, payload, workspace⟩, failed,
    retrying, fun agrees => ?_⟩
  have stopped := agrees.failed.mp failed
  simp [retrying] at stopped

end SupportPilot.Lifecycle
