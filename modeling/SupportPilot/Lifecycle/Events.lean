import SupportPilot.Lib.Processes
import SupportPilot.Lifecycle.Steps

/-! # What one event does

`Event` steps turned into the relation `Next`: one constructor for each way the
system can move, over `UploadStep`, `TaskStep` and the steps of the other
requests.  A step that acquires the lock of a document finds it free. -/

namespace SupportPilot.Lifecycle

open Lib Documents Worker

/-! ## The other requests -/

def deletionJob (deletion : Deletion) (documentId : UUID) (now : Nat) : Job :=
  .new deletion.jobId deletion.workspaceId .deleteObject ⟨some documentId, none⟩
    (deleteKey documentId) 5 now

/-- The writes of `delete_document`. -/
def deletedDb (db : Database) (documentId : UUID) (now : Nat) (job : Job) : Database :=
  { db.updateDocument documentId fun document =>
      { document with deletedAt := some now, activeVersionId := none } with
    jobs := db.jobs ++ [job] }

inductive DeletionStep (deletion : Deletion) :
    RequestPhase → Stores → RequestPhase → Stores → Prop
  | selected {stores} (document) :
      Live stores.db deletion.workspaceId deletion.documentId document →
      DeletionStep deletion .start stores (.selected deletion.documentId) stores
  | deleted {stores} (documentId now) :
      Database.JobFits stores.db.jobs (deletionJob deletion documentId now) →
      DeletionStep deletion (.selected documentId) stores .done
        ⟨deletedDb stores.db documentId now (deletionJob deletion documentId now), stores.objects⟩
  | raised {phase stores} : DeletionStep deletion phase stores .raised stores

inductive UpdateStep (update : Update) : RequestPhase → Stores → RequestPhase → Stores → Prop
  | selected {stores} (document) :
      Live stores.db update.workspaceId update.documentId document →
      UpdateStep update .start stores (.selected update.documentId) stores
  | renamed {stores} (documentId) : update.displayName ≠ [] →
      UpdateStep update (.selected documentId) stores .done
        ⟨stores.db.updateDocument documentId fun document =>
          { document with displayName := update.displayName }, stores.objects⟩
  | raised {phase stores} : UpdateStep update phase stores .raised stores

theorem deletionStep_of_advance {deletion : Deletion} {stores : Stores} {input : Input}
    {after : Deletion × Stores} (advanced : deletion.advance stores input = some after) :
    after.1 = { deletion with phase := after.1.phase } ∧
      DeletionStep deletion deletion.phase stores after.1.phase after.2 := by
  obtain ⟨workspaceId, documentId, jobId, phase⟩ := deletion
  cases phase with
  | start =>
    simp only [Deletion.advance] at advanced
    split at advanced
    next document found =>
      cases advanced
      have live := selectLive_ok.1 found
      have id : document.id = documentId := Table.key_of_lookup live.read
      subst id
      exact ⟨rfl, .selected document live⟩
    · cases advanced
      exact ⟨rfl, .raised⟩
  | selected documentId' =>
    simp only [Deletion.advance] at advanced
    split at advanced
    next db deleted =>
      cases advanced
      obtain ⟨fits, rfl⟩ := Database.insertJob_ok.1 deleted
      exact ⟨rfl, .deleted documentId' input.now fits⟩
    · cases advanced
      exact ⟨rfl, .raised⟩
  | done => cases advanced
  | raised => cases advanced

theorem updateStep_of_advance {update : Update} {stores : Stores} {after : Update × Stores}
    (advanced : update.advance stores = some after) :
    after.1 = { update with phase := after.1.phase } ∧
      UpdateStep update update.phase stores after.1.phase after.2 := by
  obtain ⟨workspaceId, documentId, displayName, phase⟩ := update
  cases phase with
  | start =>
    simp only [Update.advance] at advanced
    split at advanced
    next document found =>
      cases advanced
      have live := selectLive_ok.1 found
      have id : document.id = documentId := Table.key_of_lookup live.read
      subst id
      exact ⟨rfl, .selected document live⟩
    · cases advanced
      exact ⟨rfl, .raised⟩
  | selected documentId' =>
    simp only [Update.advance, renameDocument] at advanced
    by_cases unnamed : displayName = []
    · simp only [unnamed, if_true] at advanced
      cases advanced
      exact ⟨by rw [unnamed], .raised⟩
    · simp only [unnamed, if_false] at advanced
      cases advanced
      exact ⟨rfl, .renamed documentId' unnamed⟩
  | done => cases advanced
  | raised => cases advanced

/-! ## Events -/

/-- A request that has just arrived. -/
def Process.isNew : Process → Bool
  | .ofUpload ⟨_, none, .start⟩ | .ofDeletion ⟨_, _, _, .start⟩ | .ofUpdate ⟨_, _, _, .start⟩ => true
  | _ => false

/-- The step of the process that moves. -/
inductive ProcessStep [UnicodeTables] [Sha256] (env : Environment) :
    Process → Stores → Process → Stores → Prop
  | upload {call promotedKey phase stores promotedKey' phase' stores'} :
      UploadStep env call promotedKey phase stores promotedKey' phase' stores' →
      ProcessStep env (.ofUpload ⟨call, promotedKey, phase⟩) stores
        (.ofUpload ⟨call, promotedKey', phase'⟩) stores'
  | task {job worker phase stores phase' stores'} :
      TaskStep env job worker.name phase stores phase' stores' →
      ProcessStep env (.ofTask ⟨job, worker, phase⟩) stores (.ofTask ⟨job, worker, phase'⟩) stores'
  | deletion {deletion stores phase stores'} :
      DeletionStep deletion deletion.phase stores phase stores' →
      ProcessStep env (.ofDeletion deletion) stores (.ofDeletion { deletion with phase := phase })
        stores'
  | update {update stores phase stores'} :
      UpdateStep update update.phase stores phase stores' →
      ProcessStep env (.ofUpdate update) stores (.ofUpdate { update with phase := phase }) stores'
  | crashed {process stores} : ProcessStep env process stores .crashed stores

/-- Nobody but process `i` has locked a row that its next step locks. -/
def Unblocked [UnicodeTables] (s : System) (i : Nat) (process : Process) : Prop :=
  ∀ documentId, process.wants s.stores.db = some documentId →
    ∀ j other, j ≠ i → s.processes[j]? = some other → other.holds ≠ some documentId

inductive Next [UnicodeTables] [Sha256] (env : Environment) (s : System) : Event → System → Prop
  | spawned {event} (process) : process.isNew = true → process.drawn.Nodup →
      (∀ id ∈ process.drawn, id ∉ s.drawn) →
      Next env s event { s with
        processes := s.processes ++ [process], drawn := process.drawn ++ s.drawn }
  | claimed {event} (worker : Jobs.WorkerId) (batchSize leaseSeconds now : Nat)
      (locked : List UUID) :
      Next env s event { s with
        stores := ⟨{ s.stores.db with jobs := (Jobs.claimJobs s.stores.db.jobs worker.name batchSize
          leaseSeconds now locked).2 }, s.stores.objects⟩
        processes := s.processes ++ (Jobs.claimJobs s.stores.db.jobs worker.name batchSize
          leaseSeconds now locked).1.map fun job => .ofTask ⟨job, worker, .claimed⟩ }
  | moved (i input process process' stores) : s.processes[i]? = some process →
      Unblocked s i process → ProcessStep env process s.stores process' stores →
      Next env s (.advance i input)
        { s with stores := stores, processes := s.processes.set i process' }
  | halted {event} (i process process') : s.processes[i]? = some process →
      process'.holds = none → ProcessStep env process s.stores process' s.stores →
      Next env s event { s with processes := s.processes.set i process' }
  | renewed {event} (job worker row now leaseSeconds later) :
      Holds s.stores.db job worker now row →
      Next env s event { s with
        stores := ⟨saveJob s.stores.db (row.renew leaseSeconds later), s.stores.objects⟩ }
  | retried (row now) : Table.lookup s.stores.db.jobs row.id = some row →
      row.state = .failed ∨ row.state = .deadLetter →
      Next env s (.retryDocumentJob row.workspaceId row.id now) { s with
        stores := ⟨saveJob s.stores.db (row.retry now), s.stores.objects⟩ }
  | purged {event} (keys : List ObjectKey) : Next env s event { s with
      stores := ⟨s.stores.db, fun key =>
        if ObjectKey.isStaging key ∧ key ∈ keys then none else s.stores.objects key⟩ }
  | stuttered {event} : Next env s event s

section Inversion

variable [UnicodeTables] [Sha256] {env : Environment} {s t : System}

theorem processStep_of_advance {process process' : Process} {stores stores' : Stores} {input : Input}
    (advanced : process.advance env stores input = some (process', stores')) :
    ProcessStep env process stores process' stores' := by
  cases process with
  | ofUpload upload =>
    obtain ⟨after, moved, same⟩ := Option.map_eq_some_iff.mp advanced
    cases same
    obtain ⟨call, step⟩ := uploadStep_of_advance moved
    obtain ⟨⟨call', promotedKey', phase'⟩, stores'⟩ := after
    dsimp only at call
    subst call
    exact .upload step
  | ofTask task =>
    obtain ⟨after, moved, same⟩ := Option.map_eq_some_iff.mp advanced
    cases same
    obtain ⟨job, worker, step⟩ := taskStep_of_advance moved
    obtain ⟨⟨job', worker', phase'⟩, stores'⟩ := after
    dsimp only at job worker
    subst job worker
    exact .task step
  | ofDeletion deletion =>
    obtain ⟨after, moved, same⟩ := Option.map_eq_some_iff.mp advanced
    cases same
    obtain ⟨rest, step⟩ := deletionStep_of_advance moved
    rw [rest]
    exact .deletion step
  | ofUpdate update =>
    obtain ⟨after, moved, same⟩ := Option.map_eq_some_iff.mp advanced
    cases same
    obtain ⟨rest, step⟩ := updateStep_of_advance moved
    rw [rest]
    exact .update step
  | crashed => cases advanced

omit [UnicodeTables] [Sha256] in
theorem spawn_eq_some {process : Process} (spawned : spawn s process = some t) :
    (process.drawn.Nodup ∧ ∀ id ∈ process.drawn, id ∉ s.drawn) ∧
      t = { s with processes := s.processes ++ [process], drawn := process.drawn ++ s.drawn } := by
  rw [spawn] at spawned
  split at spawned
  next fresh =>
    cases spawned
    exact ⟨fresh, rfl⟩
  · cases spawned

omit [Sha256] in
theorem unblocked_of_free {i : Nat} {process : Process}
    (guard : ((process.wants s.stores.db).all fun documentId => free s i documentId) = true) :
    Unblocked s i process := by
  intro documentId wants j other differs found holds
  rw [wants, Option.all_some, free, List.all_eq_true] at guard
  have inside : j < s.processes.length := by
    by_contra outside
    rw [List.getElem?_eq_none (Nat.le_of_not_lt outside)] at found
    cases found
  have unlocked := guard j (List.mem_range.mpr inside)
  simp [differs, found, holds] at unlocked

/-- Every event is one of these moves. -/
theorem next_of_event {event : Event} (taken : next env s event = some t) : Next env s event t := by
  cases event with
  | upload call =>
    obtain ⟨⟨distinct, fresh⟩, rfl⟩ := spawn_eq_some taken
    exact .spawned _ rfl distinct fresh
  | deleteDocument workspaceId documentId jobId =>
    obtain ⟨⟨distinct, fresh⟩, rfl⟩ := spawn_eq_some taken
    exact .spawned _ rfl distinct fresh
  | updateDocument workspaceId documentId displayName =>
    obtain ⟨⟨distinct, fresh⟩, rfl⟩ := spawn_eq_some taken
    exact .spawned _ rfl distinct fresh
  | claimJobs worker batchSize leaseSeconds now locked =>
    cases taken
    exact .claimed worker batchSize leaseSeconds now locked
  | advance i input =>
    obtain ⟨process, found, rest⟩ := Option.bind_eq_some_iff.mp taken
    dsimp only at rest
    split at rest
    next guard =>
      obtain ⟨⟨process', stores⟩, moved, same⟩ := Option.bind_eq_some_iff.mp rest
      -- a step of a process, which no lock of another holds up
      cases same
      exact .moved i input process process' stores found (unblocked_of_free guard)
        (processStep_of_advance moved)
    · cases rest
  | renewLease i leaseSeconds now later =>
    simp only [next] at taken
    split at taken
    next job worker located content found =>
      split at taken
      next result =>
        cases taken
        obtain ⟨row, holds, same⟩ := holds_of_updateOwnedJob result
        cases same
        exact .renewed job worker.name row now leaseSeconds later holds
      · cases taken
        exact .halted i _ _ found rfl (.task (.stopped _ rfl))
    · cases taken
  | interrupt i =>
    obtain ⟨process, found, rest⟩ := Option.bind_eq_some_iff.mp taken
    cases process with
    | ofTask task =>
      obtain ⟨task', stops, same⟩ := Option.bind_eq_some_iff.mp rest
      cases same
      obtain ⟨job, worker, phase⟩ := task
      cases phase with
      | done => cases stops
      | failing =>
        cases stops
        exact .halted i _ _ found rfl (.task .ended)
      | _ =>
        cases stops
        exact .halted i _ _ found rfl (.task (.stopped _ rfl))
    | _ => cases rest
  | crash i =>
    obtain ⟨process, found, same⟩ := Option.bind_eq_some_iff.mp taken
    cases same
    exact .halted i process .crashed found rfl .crashed
  | retryDocumentJob workspaceId jobId now =>
    simp only [next] at taken
    split at taken
    next db retried =>
      cases taken
      obtain ⟨⟨row', jobs⟩, result, returned⟩ := bind_eq_ok.1 retried
      cases returned
      obtain ⟨row, read, rfl, stopped, rfl, rfl⟩ := Jobs.retryJob_ok.1 result
      have id : row.id = jobId := Table.key_of_lookup read
      subst id
      exact .retried row now read stopped
    · cases taken
      exact .stuttered
  | deleteStaleStaging keys =>
    cases taken
    exact .purged keys

/-- Where the processes behind an event come from. -/
theorem process_of_next {event : Event} (step : Next env s event t) {process' : Process}
    (member : process' ∈ t.processes) :
    process' ∈ s.processes ∨ process'.isNew = true ∨
      (∃ job worker, process' = .ofTask ⟨job, worker, .claimed⟩) ∨
      ∃ process ∈ s.processes, ProcessStep env process s.stores process' t.stores := by
  cases step with
  | spawned process isNew =>
    obtain before | rfl := List.mem_append.mp member |>.imp_right List.mem_singleton.mp
    · exact .inl before
    · exact .inr (.inl isNew)
  | claimed =>
    obtain before | new := List.mem_append.mp member
    · exact .inl before
    · obtain ⟨job, -, rfl⟩ := List.mem_map.mp new
      exact .inr (.inr (.inl ⟨job, _, rfl⟩))
  | moved i input process process' stores found unblocked step =>
    obtain rfl | before := mem_of_set member
    · exact .inr (.inr (.inr ⟨process, List.mem_of_getElem? found, step⟩))
    · exact .inl before
  | halted i process process' found idle step =>
    obtain rfl | before := mem_of_set member
    · exact .inr (.inr (.inr ⟨process, List.mem_of_getElem? found, step⟩))
    · exact .inl before
  | renewed | retried | purged | stuttered => exact .inl member

/-- What an event makes of a process. -/
theorem process_after {event : Event} {i : Nat} {process : Process} (step : Next env s event t)
    (found : s.processes[i]? = some process) :
    ∃ process', t.processes[i]? = some process' ∧
      (process' = process ∨ ProcessStep env process s.stores process' t.stores) := by
  have inside : i < s.processes.length := (List.getElem?_eq_some_iff.mp found).1
  cases step with
  | spawned | claimed =>
    exact ⟨process, (List.getElem?_append_left inside).trans found, .inl rfl⟩
  | moved j input moved moved' stores found' unblocked step =>
    by_cases same : j = i
    · subst same
      cases found.symm.trans found'
      exact ⟨moved', List.getElem?_set_self inside, .inr step⟩
    · exact ⟨process, (List.getElem?_set_ne same).trans found, .inl rfl⟩
  | halted j moved moved' found' idle step =>
    by_cases same : j = i
    · subst same
      cases found.symm.trans found'
      exact ⟨moved', List.getElem?_set_self inside, .inr step⟩
    · exact ⟨process, (List.getElem?_set_ne same).trans found, .inl rfl⟩
  | renewed | retried | purged | stuttered => exact ⟨process, found, .inl rfl⟩

end Inversion

end SupportPilot.Lifecycle
