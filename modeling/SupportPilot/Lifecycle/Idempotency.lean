import SupportPilot.Lifecycle.Identifiers

/-! # Idempotency keys

The job of an upload carries its key, and the unique constraint of `jobs` lets one
upload for a key through.  The others find its job or fail when they commit, and a
call that fails leaves nothing (`same_key_uploads`).  What a call returns is what it
has stored, unless it finds a job of its key: then it returns the rows of that job,
whatever it was given (`returned_result`). -/

namespace SupportPilot.Lifecycle

open Lib Documents Worker

/-- The job of an upload with the key. -/
structure OfKey (workspaceId : UUID) (key : Text) (job : Job) : Prop where
  workspace : job.workspaceId = workspaceId
  jobType : job.jobType = .processDocument
  key : job.idempotencyKey = key

/-- The version was committed for the key. -/
def CommittedFor (db : Database) (workspaceId : UUID) (key : Text) (version : DocumentVersion) :
    Prop :=
  version ∈ db.versions ∧ ∃ job ∈ db.jobs, OfKey workspaceId key job ∧ Processes job version

/-- No row and no object of the call is stored. -/
structure LeavesNothing [UnicodeTables] (call : UploadCall) (stores : Stores) : Prop where
  document : ∀ document ∈ stores.db.documents, document.id ≠ call.newDocumentId
  version : ∀ version ∈ stores.db.versions, version.id ≠ call.versionId
  job : ∀ job ∈ stores.db.jobs, job.id ≠ call.jobId
  staged : stores.objects call.stagingKey = none
  promoted : ∀ documentId, stores.objects (call.finalKey documentId) = none

/-! ## One job for each key -/

def OneJobPerKey (jobs : List Job) : Prop :=
  ∀ job ∈ jobs, ∀ job' ∈ jobs, job.workspaceId = job'.workspaceId → job.jobType = job'.jobType →
    job.idempotencyKey = job'.idempotencyKey → job.id = job'.id

section Keys

variable {jobs jobs' : List Job}

theorem OneJobPerKey.rewritten (one : OneJobPerKey jobs)
    (rewritten : List.Forall₂ SameJob jobs jobs') : OneJobPerKey jobs' := by
  intro first member second member' workspace jobType key
  obtain ⟨job, before, same⟩ := exists_of_mem_forall₂ rewritten member
  obtain ⟨job', before', same'⟩ := exists_of_mem_forall₂ rewritten member'
  rw [same.workspaceId, same'.workspaceId] at workspace
  rw [same.jobType, same'.jobType] at jobType
  rw [same.idempotencyKey, same'.idempotencyKey] at key
  rw [same.id, same'.id]
  exact one job before job' before' workspace jobType key

theorem OneJobPerKey.append {job : Job} (one : OneJobPerKey jobs) (fits : Database.JobFits jobs job) :
    OneJobPerKey (jobs ++ [job]) := by
  intro first member second member' workspace jobType key
  obtain before | rfl := List.mem_append.mp member |>.imp_right List.mem_singleton.mp
  · obtain before' | rfl := List.mem_append.mp member' |>.imp_right List.mem_singleton.mp
    · exact one first before second before' workspace jobType key
    · exact absurd key (fits.key first before workspace jobType)
  · obtain before' | rfl := List.mem_append.mp member' |>.imp_right List.mem_singleton.mp
    · exact absurd key.symm (fits.key second before' workspace.symm jobType.symm)
    · rfl

end Keys

section Runs

variable [UnicodeTables] [Sha256] {env : Environment} {s t : System} {event : Event}
  {db' : Database}

/-- The job rows are rewritten, or one is inserted. -/
theorem Change.jobs (wf : Wf env s) (change : Change env s event db') :
    List.Forall₂ SameJob s.stores.db.jobs db'.jobs ∨
      ∃ job, Database.JobFits s.stores.db.jobs job ∧ db'.jobs = s.stores.db.jobs ++ [job] := by
  have keyed := wf.linked.jobs
  cases change with
  | uploaded i input call promotedKey file target here found fileOk targetOk fits =>
    exact .inr ⟨_, fits.job, rfl⟩
  | deleted deletion documentId now stored live fits => exact .inr ⟨_, fits, rfl⟩
  | renamed => exact .inl (rewritten_refl SameJob.refl _)
  | claimed => exact .inl (inPlace_claimJobs ..).jobs
  | saved row row' writes => exact .inl (writes.inPlace keyed rfl).jobs
  | retried row now here writes => exact .inl (writes.inPlace keyed rfl).jobs
  | marked row row' version status writes => exact .inl (writes.inPlace keyed rfl).jobs
  | activated i input job worker located content records row version chunks here found sameId
      writes => exact .inl (writes.activated keyed).jobs
  | swept i job worker row documentId found same writes =>
    have saved : InPlace { s.stores.db with
        chunks := Rag.deleteDocumentChunks s.stores.db.chunks row.workspaceId documentId } _ :=
      writes.inPlace keyed rfl
    exact .inl saved.jobs

/-- Every identifier is fresh and every key has one job. -/
structure Keyed (env : Environment) (s : System) : Prop where
  wf : Wf env s
  fresh : Fresh s
  one : OneJobPerKey s.stores.db.jobs

theorem keyed_empty : Keyed env .empty := by
  refine ⟨wf_empty, fresh_empty, ?_⟩
  exact fun _ member => nomatch member

theorem keyed_step (keyed : Keyed env s) (taken : stepOf (next env) s event t) : Keyed env t := by
  have step := next_of_event taken
  refine ⟨wf_next keyed.wf step, fresh_next keyed.wf keyed.fresh step, ?_⟩
  obtain same | change := change_of_next keyed.wf step
  · rw [same]
    exact keyed.one
  · obtain rewritten | ⟨job, fits, inserted⟩ := change.jobs keyed.wf
    · exact keyed.one.rewritten rewritten
    · rw [inserted]
      exact keyed.one.append fits

theorem keyed_of_reachable (reached : Reachable (stepOf (next env)) .empty s) : Keyed env s :=
  reached.invariant keyed_empty fun _ _ _ => keyed_step

theorem grows_of_run {events : List Event} (run : Run (stepOf (next env)) s events t)
    (wf : Wf env s) : Grows s.stores.db t.stores.db := by
  apply run.relates (I := Wf env) (R := fun s t => Grows s.stores.db t.stores.db)
  · exact fun s => .refl s.stores.db
  · exact fun _ _ _ => Grows.trans
  · exact fun _ _ _ => wf_step
  · intro s event t wf taken
    obtain same | change := change_of_next wf (next_of_event taken)
    · rw [same]
      exact .refl _
    · exact change.grows wf
  · exact wf

/-! ## Calls -/

/-- A result that was returned is stored under the key. -/
theorem committed_of_returned {upload : Upload} {result : UploadResult} (wf : Wf env s)
    (member : .ofUpload upload ∈ s.processes) (returned : upload.phase = .returned result) :
    ∃ job ∈ s.stores.db.jobs, ∃ version ∈ s.stores.db.versions,
      OfKey upload.call.workspaceId upload.call.key job ∧ Processes job version ∧
        job.id = result.job.id ∧ version.id = result.version.id := by
  have answers : Answers upload.call s.stores.db result := by
    have ok := wf.ok _ member
    rw [Process.Ok, returned] at ok
    exact ok
  obtain ⟨job, readJob, sameJob⟩ := answers.job
  obtain ⟨version, readVersion, sameVersion⟩ := answers.version
  have ofKey : OfKey upload.call.workspaceId upload.call.key job :=
    ⟨sameJob.workspaceId.trans answers.workspace, sameJob.jobType.trans answers.processes.jobType,
      sameJob.idempotencyKey.trans answers.key⟩
  exact ⟨job, Table.mem_of_lookup readJob, version, Table.mem_of_lookup readVersion, ofKey,
    answers.processes.same sameJob sameVersion, sameJob.id, sameVersion.id⟩

omit [Sha256] in
theorem leavesNothing_of_raised {upload : Upload} {error : PyError} (fresh : Fresh s)
    (member : .ofUpload upload ∈ s.processes) (raised : upload.phase = .raised error) :
    LeavesNothing upload.call s.stores := by
  have isOpen : upload.phase.isOpen = true := by
    rw [raised]
    rfl
  have clean := fresh.clean upload member isOpen
  have absent : ∀ key, keyId key ∈ (Process.ofUpload upload).drawn →
      s.stores.objects key = none := by
    intro key own
    by_contra stored
    have kept := clean.objects key own stored
    rw [raised] at kept
    exact kept
  have unnamed : ∀ id ∈ (Process.ofUpload upload).drawn,
      (∀ document ∈ s.stores.db.documents, document.id ≠ id) ∧
        (∀ version ∈ s.stores.db.versions, version.id ≠ id) ∧
        ∀ job ∈ s.stores.db.jobs, job.id ≠ id := by
    intro id own
    simpa [mem_ids] using clean.rows id own
  refine ⟨?_, ?_, ?_, absent _ ?_, fun documentId => absent _ ?_⟩
  · exact fun document stored => (unnamed _ (by simp [Process.drawn])).1 document stored
  · exact fun version stored => (unnamed _ (by simp [Process.drawn])).2.1 version stored
  · exact fun job stored => (unnamed _ (by simp [Process.drawn])).2.2 job stored
  · simp [Process.drawn, keyId, UploadCall.stagingKey]
  · simp [Process.drawn, keyId, UploadCall.finalKey]

/-- Uploads with one key in one workspace, in any order: at most one version and one
job are committed for the key, also later; a call that has ended has returned them or
has raised and left nothing. -/
theorem same_key_uploads {events : List Event} (reached : Reachable (stepOf (next env)) .empty s)
    (run : Run (stepOf (next env)) s events t) (workspaceId : UUID) (key : Text) :
    (∀ job ∈ s.stores.db.jobs, ∀ job' ∈ t.stores.db.jobs, OfKey workspaceId key job →
      OfKey workspaceId key job' → job'.id = job.id) ∧
    (∀ version version', CommittedFor s.stores.db workspaceId key version →
      CommittedFor t.stores.db workspaceId key version' → version'.id = version.id) ∧
    ∀ upload, .ofUpload upload ∈ t.processes → upload.call.workspaceId = workspaceId →
      upload.call.key = key → upload.advance env t.stores = none →
        (∃ result, upload.phase = .returned result ∧ ∃ job ∈ t.stores.db.jobs,
          ∃ version ∈ t.stores.db.versions, OfKey workspaceId key job ∧ Processes job version ∧
            job.id = result.job.id ∧ version.id = result.version.id) ∨
        ∃ error, upload.phase = .raised error ∧ LeavesNothing upload.call t.stores := by
  have keyed := keyed_of_reachable reached
  have later : Keyed env t := run.invariant (fun _ _ _ => keyed_step) keyed
  have grows := grows_of_run run keyed.wf
  have oneJob : ∀ job ∈ s.stores.db.jobs, ∀ job' ∈ t.stores.db.jobs, OfKey workspaceId key job →
      OfKey workspaceId key job' → job'.id = job.id := by
    intro job member job' member' ofKey ofKey'
    -- the job is still there
    obtain ⟨row, read, same⟩ := grows.job (Table.lookup_of_mem keyed.wf.linked.jobs member)
    have one := later.one job' member' row (Table.mem_of_lookup read)
    rw [same.workspaceId, same.jobType, same.idempotencyKey, same.id] at one
    exact one (ofKey'.workspace.trans ofKey.workspace.symm)
      (ofKey'.jobType.trans ofKey.jobType.symm) (ofKey'.key.trans ofKey.key.symm)
  refine ⟨oneJob, ?_, ?_⟩
  · rintro version version' ⟨-, job, member, ofKey, processes⟩ ⟨-, job', member', ofKey', processes'⟩
    obtain ⟨row, read, same⟩ := grows.job (Table.lookup_of_mem keyed.wf.linked.jobs member)
    have read' := Table.lookup_of_mem later.wf.linked.jobs member'
    rw [Job.row_key, oneJob job member job' member' ofKey ofKey', ← Job.row_key, read] at read'
    cases read'
    exact processes'.id_eq (processes.same same (.refl version))
  · rintro upload member rfl rfl ended
    obtain ⟨call, promotedKey, phase⟩ := upload
    cases phase with
    | returned result => exact .inl ⟨result, rfl, committed_of_returned later.wf member rfl⟩
    | raised error => exact .inr ⟨error, rfl, leavesNothing_of_raised later.fresh member rfl⟩
    | _ => cases ended

end Runs

/-- Another document, under the key of `letterCall`. -/
def racingCall : UploadCall :=
  { secondCall with
    idempotencyKey := " first ".toList
    documentId := none }

/-- `letterCall` once more. -/
def repeatedCall : UploadCall :=
  { letterCall with
    stagingId := 23
    newDocumentId := 24
    versionId := 25
    jobId := 26 }

/-- Both calls find no job, and the second one commits first. -/
def racing : List Event :=
  .upload letterCall :: .upload racingCall ::
    (List.replicate 7 (.advance 0 steady) ++ List.replicate 9 (.advance 1 steady) ++
      List.replicate 2 (.advance 0 steady))

theorem same_key_uploads_letters : ∃ s t,
    s.stores.db.jobs.map Job.id = [16] ∧
    Run (stepOf (@next asciiTables letterSha256 letterEnvironment)) s
      [.upload repeatedCall, .advance 2 steady] t ∧
    (∀ job ∈ s.stores.db.jobs, ∀ job' ∈ t.stores.db.jobs, OfKey 1 "first".toList job →
      OfKey 1 "first".toList job' → job'.id = job.id) ∧
    (∀ version version', CommittedFor s.stores.db 1 "first".toList version →
      CommittedFor t.stores.db 1 "first".toList version' → version'.id = version.id) ∧
    ∀ upload, .ofUpload upload ∈ t.processes → upload.call.workspaceId = 1 →
      upload.call.key = "first".toList →
      @Upload.advance asciiTables letterSha256 letterEnvironment upload t.stores = none →
        (∃ result, upload.phase = .returned result ∧ ∃ job ∈ t.stores.db.jobs,
          ∃ version ∈ t.stores.db.versions, OfKey 1 "first".toList job ∧ Processes job version ∧
            job.id = result.job.id ∧ version.id = result.version.id) ∨
        ∃ error, upload.phase = .raised error ∧ @LeavesNothing asciiTables upload.call t.stores := by
  have executed : ((exec (@next asciiTables letterSha256 letterEnvironment) .empty racing).any
      fun s => (exec (@next asciiTables letterSha256 letterEnvironment) s
        [.upload repeatedCall, .advance 2 steady]).any fun _ =>
          s.stores.db.jobs.map Job.id = [16]) = true := by
    rw [letterSha256_eq]
    decide +kernel
  obtain ⟨s, t, reached, run, one⟩ := run_of_exec executed
  exact ⟨s, t, of_decide_eq_true one, run,
    @same_key_uploads asciiTables letterSha256 letterEnvironment s t _ reached run 1
      "first".toList⟩

/-! ## What a call returns -/

/-- The call has looked for its key, and has not returned a result. -/
def UploadPhase.isRunning : UploadPhase → Bool
  | start | returned _ => false
  | _ => true

def UploadPhase.isFinal : UploadPhase → Bool
  | returned _ | raised _ => true
  | _ => false

section Results

variable [UnicodeTables] [Sha256] {env : Environment} {s t u : System} {call : UploadCall}
  {process process' : Process} {stores stores' : Stores}

/-- A call that returns only what it makes. -/
inductive Making (call : UploadCall) : Process → Prop
  | running {promotedKey phase} : phase.isRunning = true →
      Making call (.ofUpload ⟨call, promotedKey, phase⟩)
  | returned {promotedKey result} : Made call result →
      Making call (.ofUpload ⟨call, promotedKey, .returned result⟩)
  | crashed : Making call .crashed

/-- The call stays where it has ended. -/
inductive Ended (call : UploadCall) (phase : UploadPhase) : Process → Prop
  | still {promotedKey} : Ended call phase (.ofUpload ⟨call, promotedKey, phase⟩)
  | crashed : Ended call phase .crashed

theorem Making.step (making : Making call process) (ok : process.Ok env stores.db)
    (step : ProcessStep env process stores process' stores') : Making call process' := by
  cases step with
  | crashed => exact .crashed
  | upload step =>
    cases making with
    | returned made =>
      cases step with
      | stopped phase error isStaged => cases isStaged
    | running running =>
      cases step with
      | replayed | refused | opened => cases running
      | returned result => exact .returned ok.2
      | _ => exact .running rfl
  | task | deletion | update => cases making

theorem Ended.step {phase : UploadPhase} (final : phase.isFinal = true)
    (ended : Ended call phase process) (step : ProcessStep env process stores process' stores') :
    Ended call phase process' := by
  cases step with
  | crashed => exact .crashed
  | upload step =>
    cases ended with
    | still =>
      cases step with
      | stopped phase error isStaged =>
        cases phase with
        | returned | raised => cases isStaged
        | _ => cases final
      | _ => cases final
  | task | deletion | update => cases ended

/-- The call makes its next step. -/
theorem upload_of_advance {i : Nat} {input : Input} {promotedKey : Option ObjectKey}
    {phase : UploadPhase} (found : s.processes[i]? = some (.ofUpload ⟨call, promotedKey, phase⟩))
    (taken : stepOf (next env) s (.advance i input) u) : ∃ promotedKey' phase',
      u.processes[i]? = some (.ofUpload ⟨call, promotedKey', phase'⟩) ∧
        UploadStep env call promotedKey phase s.stores promotedKey' phase' u.stores := by
  obtain ⟨moved, found', rest⟩ := Option.bind_eq_some_iff.mp taken
  cases found.symm.trans found'
  dsimp only at rest
  split at rest
  · obtain ⟨⟨process', stores⟩, advanced, same⟩ := Option.bind_eq_some_iff.mp rest
    cases same
    obtain ⟨after, moved, same⟩ := Option.map_eq_some_iff.mp advanced
    cases same
    obtain ⟨sameCall, step⟩ := uploadStep_of_advance moved
    obtain ⟨⟨call', promotedKey', phase'⟩, stores'⟩ := after
    dsimp only at sameCall
    subst sameCall
    have inside : i < s.processes.length := (List.getElem?_eq_some_iff.mp found).1
    exact ⟨promotedKey', phase', List.getElem?_set_self inside, step⟩
  · cases rest

/-- What every step of its process preserves holds of it at the end of a run. -/
theorem process_of_run {i : Nat} {P : Process → Prop} {events : List Event} (wf : Wf env s)
    (run : Run (stepOf (next env)) s events t) (found : s.processes[i]? = some process)
    (start : P process)
    (preserved : ∀ (before after : Process) (stores stores' : Stores), P before →
      before.Ok env stores.db → ProcessStep env before stores after stores' → P after)
    (ended : t.processes[i]? = some process') : P process' := by
  have holds : Wf env t ∧ ∃ process, t.processes[i]? = some process ∧ P process := by
    apply run.invariant
      (I := fun s => Wf env s ∧ ∃ process, s.processes[i]? = some process ∧ P process)
    · rintro s event t ⟨wf, process, found, holds⟩ taken
      refine ⟨wf_step wf taken, ?_⟩
      obtain ⟨after, found', rfl | step⟩ := process_after (next_of_event taken) found
      · exact ⟨after, found', holds⟩
      · have ok := wf.ok process (List.mem_of_getElem? found)
        exact ⟨after, found', preserved _ _ _ _ holds ok step⟩
    · exact ⟨wf, process, found, start⟩
  obtain ⟨-, last, found', holds⟩ := holds
  cases found'.symm.trans ended
  exact holds

/-- A call whose key has no job when it looks returns the version that it has stored:
it has the size and the digest of the content and is a version of the document that
was asked for.  A call that finds a job changes nothing and returns the rows of the
job. -/
theorem returned_result {i : Nat} {input : Input} {promotedKey : Option ObjectKey}
    {events : List Event} {upload : Upload} {result : UploadResult}
    (reached : Reachable (stepOf (next env)) .empty s)
    (found : s.processes[i]? = some (.ofUpload ⟨call, promotedKey, .start⟩))
    (looked : stepOf (next env) s (.advance i input) u) (run : Run (stepOf (next env)) u events t)
    (ended : t.processes[i]? = some (.ofUpload upload)) (returned : upload.phase = .returned result) :
    (s.stores.db.jobOfKey call.workspaceId .processDocument call.key = none →
      result.version.byteSize = call.content.length ∧
        result.version.sha256 = Sha256.hexdigest call.content ∧
        result.version.documentId = result.document.id ∧
        (∀ documentId, call.documentId = some documentId → result.document.id = documentId) ∧
        StoredVersion t.stores.db result.version) ∧
    (s.stores.db.jobOfKey call.workspaceId .processDocument call.key ≠ none →
      call.Replays s.stores.db result ∧ u.stores = s.stores) := by
  have wf := wf_of_reachable reached
  have wfU := wf_step wf looked
  have wfT : Wf env t := run.invariant (fun _ _ _ => wf_step) wfU
  obtain ⟨call', promotedKey', phase'⟩ := upload
  cases returned
  obtain ⟨promotedKey₁, phase, found', step⟩ := upload_of_advance found looked
  -- where the first step ends the call, it stays
  have final : phase.isFinal = true → phase = .returned result := by
    intro final
    have still : Ended call phase _ := process_of_run wfU run found' .still
      (fun _ _ _ _ ended _ step => ended.step final step) ended
    cases still
    rfl
  generalize u.stores = stores' at step ⊢
  cases step with
  | replayed replays =>
    cases final rfl
    refine ⟨fun unused => ?_, fun _ => ⟨replays, rfl⟩⟩
    cases unused.symm.trans replays.job
  | refused error => cases final rfl
  | opened unused =>
    refine ⟨fun _ => ?_, fun used => absurd unused used⟩
    have making : Making call _ := process_of_run wfU run found' (.running rfl)
      (fun _ _ _ _ making ok step => making.step ok step) ended
    cases making with
    | running running => cases running
    | returned made =>
      have answers : Answers call t.stores.db result := wfT.ok _ (List.mem_of_getElem? ended)
      refine ⟨made.byteSize, made.sha256, answers.document, fun documentId asked => ?_,
        answers.version⟩
      obtain ⟨unasked, -⟩ | same := made.document
      · cases unasked.symm.trans asked
      · exact Option.some.inj (same.symm.trans asked)
  | stopped phase error isStaged => cases isStaged

end Results

/-- Process `i` is a call that has returned a result. -/
def hasReturned (s : System) (i : Nat) (check : UploadCall → UploadResult → Bool) : Bool :=
  match s.processes[i]? with
  | some (.ofUpload ⟨call, _, .returned result⟩) => check call result
  | _ => false

theorem upload_of_hasReturned {s : System} {i : Nat} {check : UploadCall → UploadResult → Bool}
    (returned : hasReturned s i check = true) : ∃ upload result,
      s.processes[i]? = some (.ofUpload upload) ∧ upload.phase = .returned result ∧
        check upload.call result = true := by
  unfold hasReturned at returned
  split at returned
  next call promotedKey result found => exact ⟨_, result, found, rfl, returned⟩
  · cases returned

theorem returned_result_letter : ∃ s u t upload result,
    stepOf (@next asciiTables letterSha256 letterEnvironment) s (.advance 0 steady) u ∧
    Run (stepOf (@next asciiTables letterSha256 letterEnvironment)) u
      (List.replicate 8 (.advance 0 steady)) t ∧
    t.processes[0]? = some (.ofUpload upload) ∧ upload.phase = .returned result ∧
    (s.stores.db.jobOfKey 1 .processDocument letterCall.key = none →
      result.version.byteSize = letterCall.content.length ∧
        result.version.sha256 = letterSha256.hexdigest letterCall.content ∧
        result.version.documentId = result.document.id ∧
        (∀ documentId, letterCall.documentId = some documentId →
          result.document.id = documentId) ∧
        StoredVersion t.stores.db result.version) ∧
    (s.stores.db.jobOfKey 1 .processDocument letterCall.key ≠ none →
      @UploadCall.Replays letterCall s.stores.db result ∧ u.stores = s.stores) := by
  have reached : Reachable (stepOf (@next asciiTables letterSha256 letterEnvironment)) .empty
      ⟨⟨.empty, fun _ => none⟩, [.ofUpload ⟨letterCall, none, .start⟩], [3, 4, 5, 6]⟩ :=
    ⟨[.upload letterCall], .of_exec rfl⟩
  have executed : ((@next asciiTables letterSha256 letterEnvironment
      ⟨⟨.empty, fun _ => none⟩, [.ofUpload ⟨letterCall, none, .start⟩], [3, 4, 5, 6]⟩
      (.advance 0 steady)).any fun u => (exec (@next asciiTables letterSha256 letterEnvironment) u
        (List.replicate 8 (.advance 0 steady))).any fun t =>
          hasReturned t 0 fun _ _ => true) = true := by
    rw [letterSha256_eq]
    decide +kernel
  obtain ⟨u, looked, rest⟩ := (Option.any_eq_true _ _).mp executed
  obtain ⟨t, ran, checked⟩ := (Option.any_eq_true _ _).mp rest
  obtain ⟨upload, result, ended, returned, -⟩ := upload_of_hasReturned checked
  exact ⟨_, u, t, upload, result, looked, .of_exec ran, ended, returned,
    @returned_result asciiTables letterSha256 letterEnvironment _ t u letterCall 0 steady none _
      upload result reached rfl looked (.of_exec ran) ended returned⟩

/-- The other content and another document, under the key of `letterCall`. -/
def reusedCall : UploadCall :=
  { repeatedCall with
    reads := [[0x62], []]
    documentId := some 14 }

/-- A reused key returns a version of another document with another content. -/
theorem reused_key_returns_other_version : ∃ s upload result,
    Reachable (stepOf (@next asciiTables letterSha256 letterEnvironment)) .empty s ∧
    .ofUpload upload ∈ s.processes ∧ upload.phase = .returned result ∧
    result.version.sha256 ≠ letterSha256.hexdigest upload.call.content ∧
    upload.call.documentId = some 14 ∧ result.document.id = 4 := by
  have executed : (exec (@next asciiTables letterSha256 letterEnvironment) .empty
      (uploading 0 letterCall ++ uploading 1 { secondCall with documentId := none } ++
        [.upload reusedCall, .advance 2 steady])).any (fun s => hasReturned s 2 fun call result =>
          result.version.sha256 ≠ letterSha256.hexdigest call.content &&
            call.documentId = some 14 && result.document.id = 4) = true := by
    rw [letterSha256_eq]
    decide +kernel
  obtain ⟨s, reached, checked⟩ := reachable_of_exec executed
  obtain ⟨upload, result, found, returned, differs⟩ := upload_of_hasReturned checked
  simp only [Bool.and_eq_true, decide_eq_true_eq] at differs
  exact ⟨s, upload, result, reached, List.mem_of_getElem? found, returned, differs.1.1,
    differs.1.2, differs.2⟩

end SupportPilot.Lifecycle
