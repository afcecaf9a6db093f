import SupportPilot.Lifecycle.Index

/-! # Identifiers

Every identifier is drawn by one process.  As long as an upload has not committed,
no row has one of its identifiers, and the only objects whose keys carry one are
those that it still has to move or to delete (`Clean`). -/

namespace SupportPilot.Lifecycle

open Lib Documents Worker

/-- The identifiers of the rows. -/
def ids (db : Database) : List UUID :=
  db.documents.map Document.id ++ db.versions.map DocumentVersion.id ++ db.jobs.map Job.id

/-- The identifier that was drawn for the key. -/
def keyId : ObjectKey → UUID
  | .staging _ id => id
  | .version _ _ versionId _ => versionId

/-- The call has not returned a result. -/
def UploadPhase.isOpen : UploadPhase → Bool
  | persisted _ | returned _ => false
  | _ => true

/-- The keys under which an open call may have an object. -/
def UploadPhase.mayStore [UnicodeTables] (call : UploadCall) (key : ObjectKey) :
    UploadPhase → Prop
  | start | receiving | raised _ => False
  | promoted _ target => key = call.finalKey target.document.id
  | _ => key = call.stagingKey

/-- Nothing of the call is stored but the object of its phase. -/
structure Clean [UnicodeTables] (upload : Upload) (stores : Stores) : Prop where
  rows : ∀ id ∈ (Process.ofUpload upload).drawn, id ∉ ids stores.db
  objects : ∀ key, keyId key ∈ (Process.ofUpload upload).drawn → stores.objects key ≠ none →
    upload.phase.mayStore upload.call key

/-- The object may be one that the process has put there. -/
def Process.puts (process : Process) (key : ObjectKey) : Prop :=
  keyId key ∈ process.drawn ∧ ∃ upload, process = .ofUpload upload ∧ upload.phase.isOpen = true

/-! ## One process moves -/

section Rows

variable {db db' : Database}

theorem InPlace.ids (inPlace : InPlace db db') : ids db' = ids db := by
  simp only [Lifecycle.ids, map_eq_of_forall₂ (fun _ _ same => SameDocument.id same) inPlace.documents,
    map_eq_of_forall₂ (fun _ _ same => SameVersion.id same) inPlace.versions,
    map_eq_of_forall₂ (fun _ _ same => SameJob.id same) inPlace.jobs]

theorem mem_ids {id : UUID} : id ∈ ids db ↔ (∃ document ∈ db.documents, document.id = id) ∨
    (∃ version ∈ db.versions, version.id = id) ∨ ∃ job ∈ db.jobs, job.id = id := by
  simp [ids]

theorem mem_ids_version {version : DocumentVersion} (member : version ∈ db.versions) :
    version.id ∈ ids db :=
  mem_ids.2 (.inr (.inl ⟨version, member, rfl⟩))

/-- The rows of a commit have identifiers of the call. -/
theorem mem_ids_added {target : Target} {version : DocumentVersion} {job : Job} {id : UUID}
    (member : id ∈ ids (added db target version job)) :
    id ∈ ids db ∨ (target.isNew = true ∧ id = target.document.id) ∨ id = version.id ∨
      id = job.id := by
  rw [mem_ids] at member ⊢
  simp only [added, List.mem_append, List.mem_singleton] at member
  cases isNew : target.isNew <;> simp [isNew] at member ⊢ <;> grind

theorem mem_ids_insertJob {job : Job} {id : UUID}
    (member : id ∈ ids { db with jobs := db.jobs ++ [job] }) : id ∈ ids db ∨ id = job.id := by
  rw [mem_ids] at member ⊢
  simp only [List.mem_append, List.mem_singleton] at member
  grind

end Rows

/-- What is new in the stores is of the process. -/
structure Owns (process : Process) (stores stores' : Stores) : Prop where
  rows : ∀ id ∈ ids stores'.db, id ∈ ids stores.db ∨ id ∈ process.drawn
  objects : ∀ key, stores'.objects key ≠ none → stores.objects key ≠ none ∨ process.puts key

section Moves

variable [UnicodeTables] [Sha256] {env : Environment} {call : UploadCall} {process : Process}
  {promotedKey promotedKey' : Option ObjectKey} {phase phase' : UploadPhase}
  {stores stores' : Stores}

omit [UnicodeTables] [Sha256] in
theorem Owns.still (same : ids stores'.db = ids stores.db)
    (kept : ∀ key, stores'.objects key ≠ none → stores.objects key ≠ none) :
    Owns process stores stores' := by
  constructor
  · intro id member
    rw [same] at member
    exact .inl member
  · exact fun key stored => .inl (kept key stored)

omit [UnicodeTables] [Sha256] in
theorem Owns.refl : Owns process stores stores := .still rfl fun _ stored => stored

omit [UnicodeTables] [Sha256] in
/-- What is stored behind an update. -/
theorem stored_of_update {objects : ObjectKey → Option Bytes} {key updated : ObjectKey}
    {content : Option Bytes} (stored : Function.update objects updated content key ≠ none) :
    (key = updated ∧ content ≠ none) ∨ (key ≠ updated ∧ objects key ≠ none) := by
  by_cases same : key = updated
  · subst same
    rw [Function.update_self] at stored
    exact .inl ⟨rfl, stored⟩
  · rw [Function.update_of_ne same] at stored
    exact .inr ⟨same, stored⟩

omit [UnicodeTables] [Sha256] in
theorem stored_of_erase {objects : ObjectKey → Option Bytes} {key erased : ObjectKey}
    (stored : Function.update objects erased none key ≠ none) :
    key ≠ erased ∧ objects key ≠ none := by
  obtain ⟨-, content⟩ | other := stored_of_update stored
  · exact absurd rfl content
  · exact other

omit [UnicodeTables] [Sha256] in
theorem stored_of_cleanedUp {error : PyError} {session : Session} {key : ObjectKey}
    (stored : (cleanedUp call error session).objects key ≠ none) :
    key ≠ call.stagingKey ∧ session.objects key ≠ none := by
  simp only [cleanedUp] at stored
  split at stored
  · exact stored_of_erase stored
  · cases promoted : session.promotedKey with
    | none =>
      rw [promoted] at stored
      exact stored_of_erase stored
    | some promotedKey =>
      rw [promoted] at stored
      exact stored_of_erase (stored_of_erase stored).2

omit [UnicodeTables] [Sha256] in
theorem puts_stagingKey (isOpen : phase.isOpen = true) :
    (Process.ofUpload ⟨call, promotedKey, phase⟩).puts call.stagingKey :=
  ⟨by simp [Process.drawn, keyId, UploadCall.stagingKey], _, rfl, isOpen⟩

omit [Sha256] in
theorem puts_finalKey {documentId : UUID} (isOpen : phase.isOpen = true) :
    (Process.ofUpload ⟨call, promotedKey, phase⟩).puts (call.finalKey documentId) :=
  ⟨by simp [Process.drawn, keyId, UploadCall.finalKey], _, rfl, isOpen⟩

theorem owns_upload (ok : phase.Ok env call stores.db)
    (step : UploadStep env call promotedKey phase stores promotedKey' phase' stores') :
    Owns (.ofUpload ⟨call, promotedKey, phase⟩) stores stores' := by
  cases step with
  | replayed | refused | opened | admitted | resolved | numbered | distinct | stopped | returned =>
    exact .refl
  | received mediaType accepted =>
    refine ⟨fun _ member => .inl member, fun key stored => ?_⟩
    obtain ⟨rfl, -⟩ | ⟨-, before⟩ := stored_of_update stored
    · -- only the staged and the promoted object are written, under the keys of the call
      exact .inr (puts_stagingKey rfl)
    · exact .inl before
  | dropped error objects others =>
    refine ⟨fun _ member => .inl member, fun key stored => ?_⟩
    by_cases staged : key = call.stagingKey
    · subst staged
      exact .inr (puts_stagingKey rfl)
    · dsimp only at stored
      rw [others key staged] at stored
      exact .inl stored
  | promoted file target content staged =>
    refine ⟨fun _ member => .inl member, fun key stored => ?_⟩
    obtain ⟨rfl, -⟩ | ⟨-, before⟩ := stored_of_update stored
    · exact .inr (puts_finalKey rfl)
    · exact .inl (stored_of_erase before).2
  | persisted file target fits =>
    refine ⟨fun id member => ?_, fun _ stored => .inl stored⟩
    obtain before | ⟨isNew, rfl⟩ | rfl | rfl := mem_ids_added member
    · exact .inl before
    · -- the document of the call
      obtain ⟨-, ⟨documentOk, -⟩⟩ := ok
      rw [isNew] at documentOk
      cases documentOk with
      | created asked new =>
        rw [new]
        exact .inr (by simp [Process.drawn, UploadCall.newDocument])
    · exact .inr (by simp [Process.drawn, newVersion])
    · exact .inr (by simp [Process.drawn, newJob, Job.new])
  | undone file target error => exact .still rfl fun _ stored => (stored_of_erase stored).2
  | raised error error' => exact .still rfl fun _ stored => (stored_of_cleanedUp stored).2

/-- A call that does not commit leaves only the object of its phase. -/
theorem clean_upload (clean : phase.isOpen = true → Clean ⟨call, promotedKey, phase⟩ stores)
    (step : UploadStep env call promotedKey phase stores promotedKey' phase' stores')
    (isOpen : phase'.isOpen = true) : Clean ⟨call, promotedKey', phase'⟩ stores' := by
  cases step with
  | replayed | persisted | returned => cases isOpen
  | refused | opened | admitted | resolved | numbered | distinct =>
    exact ⟨(clean rfl).rows, (clean rfl).objects⟩
  | received mediaType accepted =>
    refine ⟨(clean rfl).rows, fun key own stored => ?_⟩
    obtain ⟨rfl, -⟩ | ⟨-, before⟩ := stored_of_update stored
    · exact rfl
    · exact ((clean rfl).objects key own before).elim
  | dropped error objects others =>
    refine ⟨(clean rfl).rows, fun key own stored => ?_⟩
    -- only the staging object may be left behind
    by_contra other
    dsimp only at stored
    rw [others key other] at stored
    exact (clean rfl).objects key own stored
  | promoted file target content staged =>
    refine ⟨(clean rfl).rows, fun key own stored => ?_⟩
    obtain ⟨rfl, -⟩ | ⟨-, before⟩ := stored_of_update stored
    · exact rfl
    · obtain ⟨moved, before⟩ := stored_of_erase before
      exact absurd ((clean rfl).objects key own before) moved
  | stopped _ error isStaged =>
    cases phase with
    | received | admitted | resolved | numbered | distinct =>
      exact ⟨(clean rfl).rows, (clean rfl).objects⟩
    | _ => cases isStaged
  | undone file target error =>
    refine ⟨(clean rfl).rows, fun key own stored => ?_⟩
    obtain ⟨other, before⟩ := stored_of_erase stored
    exact absurd ((clean rfl).objects key own before) other
  | raised error error' =>
    refine ⟨(clean rfl).rows, fun key own stored => ?_⟩
    obtain ⟨other, before⟩ := stored_of_cleanedUp stored
    exact absurd ((clean rfl).objects key own before) other

omit [UnicodeTables] in
theorem owns_task {job : Job} {worker : Text} {phase phase' : TaskPhase}
    (linked : Linked stores.db) (step : TaskStep env job worker phase stores phase' stores') :
    Owns process stores stores' := by
  cases step with
  | begun db begun => exact .still (begun.inPlace linked.jobs).ids fun _ stored => stored
  | activated located content records documentId db activated =>
    exact .still (activated.inPlace linked.jobs).ids fun _ stored => stored
  | erased key keys => exact .still rfl fun _ stored => (stored_of_erase stored).2
  | swept db swept => exact .still (swept.inPlace linked.jobs).ids fun _ stored => stored
  | failed db failed => exact .still (failed.inPlace linked.jobs).ids fun _ stored => stored
  | located | listed | statted | loaded | indexed | locked | stopped | ended => exact .refl

theorem owns_process {process' : Process} (linked : Linked stores.db)
    (ok : process.Ok env stores.db) (step : ProcessStep env process stores process' stores') :
    Owns process stores stores' := by
  cases step with
  | upload step => exact owns_upload ok step
  | task step => exact owns_task linked step
  | @deletion deletion _ _ _ step =>
    generalize deletion.phase = phase at step
    cases step with
    | selected | raised => exact .refl
    | deleted documentId now fits =>
      have updated := (inPlace_deleted stores.db documentId now).ids
      refine ⟨fun id member => ?_, fun _ stored => .inl stored⟩
      obtain before | rfl := mem_ids_insertJob member
      · rw [updated] at before
        exact .inl before
      · exact .inr (List.mem_singleton.mpr rfl)
  | @update update _ _ _ step =>
    generalize update.phase = phase at step
    cases step with
    | selected | raised => exact .refl
    | renamed documentId named =>
      have inPlace : InPlace stores.db (stores.db.updateDocument documentId fun document =>
          { document with displayName := update.displayName }) :=
        inPlace_updateDocument _ _ fun _ => ⟨rfl, rfl, fun deleted => deleted⟩
      exact .still inPlace.ids fun _ stored => stored
  | crashed => exact .refl

theorem drawn_process {process' : Process} (step : ProcessStep env process stores process' stores') :
    ∀ id ∈ process'.drawn, id ∈ process.drawn := by
  cases step with
  | upload | task | deletion | update => exact fun _ member => member
  | crashed => exact fun _ member => nomatch member

end Moves

/-! ## The whole system -/

section Systems

variable [UnicodeTables] [Sha256] {env : Environment} {s t : System} {event : Event}

/-- The process has drawn the identifier. -/
def Draws (process : Process) (id : UUID) : Prop := id ∈ process.drawn

structure Fresh (s : System) : Prop where
  drawn : ∀ process ∈ s.processes, ∀ id ∈ process.drawn, id ∈ s.drawn
  exclusive : Exclusive Draws s.processes
  rows : ∀ id ∈ ids s.stores.db, id ∈ s.drawn
  objects : ∀ key, s.stores.objects key ≠ none → keyId key ∈ s.drawn
  clean : ∀ upload, .ofUpload upload ∈ s.processes → upload.phase.isOpen = true →
    Clean upload s.stores

omit [Sha256] in
theorem fresh_empty : Fresh .empty := by
  refine ⟨?_, .nil, ?_, ?_, ?_⟩
  · exact fun _ member => nomatch member
  · exact fun _ member => nomatch member
  · exact fun _ stored => absurd rfl stored
  · exact fun _ member => nomatch member

omit [Sha256] in
/-- Rows are rewritten and objects go. -/
theorem Fresh.still {stores : Stores} (fresh : Fresh s) (same : ids stores.db = ids s.stores.db)
    (kept : ∀ key, stores.objects key ≠ none → s.stores.objects key ≠ none) :
    Fresh { s with stores := stores } := by
  refine ⟨fresh.drawn, fresh.exclusive, fun id member => ?_, ?_, fun upload member isOpen => ?_⟩
  · dsimp only at member
    rw [same] at member
    exact fresh.rows id member
  · exact fun key stored => fresh.objects key (kept key stored)
  · have clean := fresh.clean upload member isOpen
    refine ⟨fun id draws => ?_, fun key own stored => clean.objects key own (kept key stored)⟩
    rw [same]
    exact clean.rows id draws

omit [Sha256] in
/-- Processes without identifiers start. -/
theorem Fresh.started {jobs : List Job} {task : Job → Task} (fresh : Fresh s) :
    Fresh { s with processes := s.processes ++ jobs.map fun job => .ofTask (task job) } := by
  have none : ∀ process ∈ jobs.map fun job => .ofTask (task job), ∀ id, ¬ Draws process id := by
    intro process member id draws
    obtain ⟨job, -, rfl⟩ := List.mem_map.mp member
    cases draws
  refine ⟨?_, fresh.exclusive.append_idle none, fresh.rows, fresh.objects, ?_⟩
  · intro process member id draws
    obtain before | new := List.mem_append.mp member
    · exact fresh.drawn process before id draws
    · exact absurd draws (none process new id)
  · intro upload member isOpen
    obtain before | new := List.mem_append.mp member
    · exact fresh.clean upload before isOpen
    · obtain ⟨job, -, other⟩ := List.mem_map.mp new
      cases other

theorem Fresh.moved {i : Nat} {process process' : Process} {stores : Stores} (wf : Wf env s)
    (fresh : Fresh s) (found : s.processes[i]? = some process)
    (step : ProcessStep env process s.stores process' stores) :
    Fresh ⟨stores, s.processes.set i process', s.drawn⟩ := by
  have member := List.mem_of_getElem? found
  have owns := owns_process wf.linked (wf.ok process member) step
  have own := fresh.drawn process member
  refine ⟨?_, fresh.exclusive.set found fun id draws => .inl (drawn_process step id draws),
    ?_, ?_, ?_⟩
  · intro other there id draws
    obtain rfl | before := mem_of_set there
    · exact own id (drawn_process step id draws)
    · exact fresh.drawn other before id draws
  · intro id stored
    obtain before | new := owns.rows id stored
    · exact fresh.rows id before
    · exact own id new
  · intro key stored
    obtain before | ⟨new, -⟩ := owns.objects key stored
    · exact fresh.objects key before
    · exact own _ new
  · intro upload there isOpen
    obtain ⟨j, read⟩ := List.getElem?_of_mem there
    obtain ⟨rfl, moved⟩ | ⟨differs, before⟩ := getElem?_of_set read
    · -- the upload that moved
      subst moved
      cases step with
      | upload step => exact clean_upload (fresh.clean _ member) step isOpen
    · have clean := fresh.clean upload (List.mem_of_getElem? before) isOpen
      -- what is new is not its own
      have foreign : ∀ id, Draws (.ofUpload upload) id → id ∉ process.drawn :=
        fun id draws new => differs (fresh.exclusive j i _ process id before found draws new)
      constructor
      · intro id draws stored
        obtain old | new := owns.rows id stored
        · exact clean.rows id draws old
        · exact foreign id draws new
      · intro key draws stored
        obtain old | ⟨new, -⟩ := owns.objects key stored
        · exact clean.objects key draws old
        · exact absurd new (foreign _ draws)

omit [Sha256] in
theorem Fresh.spawned {process : Process} (fresh : Fresh s)
    (unused : ∀ id ∈ process.drawn, id ∉ s.drawn) :
    Fresh { s with processes := s.processes ++ [process], drawn := process.drawn ++ s.drawn } := by
  have apart : ∀ id, Draws process id → ∀ other ∈ s.processes, ¬ Draws other id :=
    fun id new other member draws => unused id new (fresh.drawn other member id draws)
  refine ⟨?_, fresh.exclusive.append apart, ?_, ?_, ?_⟩
  · intro other member id draws
    obtain before | rfl := List.mem_append.mp member |>.imp_right List.mem_singleton.mp
    · exact List.mem_append_right _ (fresh.drawn other before id draws)
    · exact List.mem_append_left _ draws
  · exact fun id member => List.mem_append_right _ (fresh.rows id member)
  · exact fun key stored => List.mem_append_right _ (fresh.objects key stored)
  · intro upload member isOpen
    obtain before | rfl := List.mem_append.mp member |>.imp_right List.mem_singleton.mp
    · exact fresh.clean upload before isOpen
    · constructor
      · exact fun id draws stored => unused id draws (fresh.rows id stored)
      · exact fun key draws stored => absurd (fresh.objects key stored) (unused _ draws)

theorem fresh_next (wf : Wf env s) (fresh : Fresh s) (step : Next env s event t) : Fresh t := by
  cases step with
  | spawned process isNew distinct unused => exact fresh.spawned unused
  | claimed worker batchSize leaseSeconds now locked =>
    have inPlace := inPlace_claimJobs s.stores.db worker.name batchSize leaseSeconds now locked
    have written : Fresh { s with stores := ⟨_, s.stores.objects⟩ } :=
      fresh.still inPlace.ids fun _ stored => stored
    exact written.started
  | moved i input process process' stores found unblocked step => exact fresh.moved wf found step
  | halted i process process' found idle step => exact fresh.moved wf found step
  | renewed job worker row now leaseSeconds later holds =>
    have inPlace : InPlace s.stores.db (saveJob s.stores.db (row.renew leaseSeconds later)) :=
      holds.inPlace wf.linked.jobs ⟨rfl, rfl, rfl, rfl, rfl⟩ rfl
    exact fresh.still inPlace.ids fun _ stored => stored
  | retried row now read stopped =>
    have inPlace : InPlace s.stores.db (saveJob s.stores.db (row.retry now)) :=
      inPlace_saveJob wf.linked.jobs read ⟨rfl, rfl, rfl, rfl, rfl⟩
    exact fresh.still inPlace.ids fun _ stored => stored
  | purged keys =>
    apply fresh.still
    · rfl
    · intro key stored
      dsimp only at stored
      split at stored
      · exact absurd rfl stored
      · exact stored
  | stuttered => exact fresh

/-- Only an open upload puts objects. -/
theorem stored_of_next {key : ObjectKey} (wf : Wf env s) (step : Next env s event t)
    (stored : t.stores.objects key ≠ none) :
    s.stores.objects key ≠ none ∨ ∃ process ∈ s.processes, process.puts key := by
  cases step with
  | spawned | claimed | renewed | retried | stuttered => exact .inl stored
  | moved i input process process' stores found unblocked step =>
    have member := List.mem_of_getElem? found
    obtain before | new := (owns_process wf.linked (wf.ok process member) step).objects key stored
    · exact .inl before
    · exact .inr ⟨process, member, new⟩
  | halted => exact .inl stored
  | purged keys =>
    dsimp only at stored
    split at stored
    · exact absurd rfl stored
    · exact .inl stored

end Systems

end SupportPilot.Lifecycle
