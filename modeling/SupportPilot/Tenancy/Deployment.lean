import SupportPilot.Lifecycle.Changes
import SupportPilot.Tenancy.RouteRefinement

/-! # Requests and workers on one database

Any requests and any transactions of any workers follow one another on the connections of the pool,
with row level security.  A worker may stop for good between two transactions, and what it does in
between, at the object store or in the indexer, is an argument of the next one.

The lifecycle model has no policies and no users: its functions are given the tables of all
workspaces and filter them.  `deployment_refines` says that every run of the deployment is one of
these functions. -/

namespace SupportPilot.Tenancy

open Lib Policies Workspaces

/-! ## Transactions of a job -/

inductive JobTransaction where
  | beginProcessing
  | locate
  | renewDocumentLease (leaseSeconds later : Nat)
  | activate (located : Worker.Located) (records : List Rag.EmbeddedChunk)
  | deleteKeys
  | finishDelete
  | failJob (errorMessage : Text) (randbelow : Nat → Nat) (later : Nat)

namespace JobTransaction

variable (now clock : Nat) (job : Job) (workerId : Text)

def program : JobTransaction → Handler Unit
  | .beginProcessing => Tenancy.beginProcessing now clock job workerId
  | .locate => do let _ ← Tenancy.locate job
  | .renewDocumentLease leaseSeconds later =>
    Tenancy.renewDocumentLease now clock job workerId leaseSeconds later
  | .activate located records => Tenancy.activate now clock job workerId located records
  | .deleteKeys => do let _ ← Tenancy.deleteKeys job
  | .finishDelete => Tenancy.finishDelete now clock job workerId
  | .failJob errorMessage randbelow later =>
    Tenancy.failJob now clock job workerId errorMessage randbelow later

/-- The function of the lifecycle model. -/
def effect (db : Database) : JobTransaction → Except PyError Database
  | .beginProcessing => Worker.beginProcessing db job workerId clock
  | .locate => (fun _ => db) <$> Worker.locate db job
  | .renewDocumentLease leaseSeconds later => (fun renewed => { db with jobs := renewed.2 }) <$>
    Jobs.renewLease db.jobs job.id workerId leaseSeconds clock later
  | .activate located records => activating db job workerId clock located records
  | .deleteKeys => (fun _ => db) <$> Worker.deleteKeys db job
  | .finishDelete => Worker.finishDelete db job workerId clock
  | .failJob errorMessage randbelow later =>
    Worker.failJob db job workerId errorMessage randbelow clock later

/-- The page numbers of new chunks are positive. -/
def Numbered : JobTransaction → Prop
  | .activate _ records =>
    ∀ record ∈ records, ∀ page ∈ record.chunk.pageNumber.toList, 0 < page
  | _ => True

end JobTransaction

section Transactions

variable {job : Job} {tx : Transaction} {α β : Type}

/-- What a program returns does not matter to what it writes. -/
theorem refines_discard {w userId : UUID} {p : Handler α} {x : Except PyError β}
    {f : β → α × Database} {db : β → Database} (same : ∀ b, (f b).2 = db b)
    (refines : Refines w userId Raises tx p (f <$> x)) :
    Refines w userId Raises tx (do let _ ← p) (changes (db <$> x)) := by
  cases x with
  | error error =>
    obtain ⟨raised, s, ran, matched⟩ := refines
    exact Program.simulates_of_raised ran matched
  | ok b =>
    obtain ⟨s, ran, stored, acting⟩ := refines
    refine Program.simulates_of_run ran ?_
    show Refines _ _ _ _ _ (.ok ((), db b))
    rw [← same, ← stored]
    exact Program.simulates_pure acting

theorem refines_program {transaction : JobTransaction} (now clock : Nat) (workerId : Text)
    (ready : Ready job tx)
    (numbered : transaction.Numbered) :
    Refines job.workspaceId serviceUserId Either tx (transaction.program now clock job workerId)
      (changes (transaction.effect clock job workerId (database tx.tables))) := by
  cases transaction with
  | beginProcessing => exact (refines_beginProcessing ready).mono fun _ _ _ => trivial
  | locate =>
    exact (refines_discard (fun _ => rfl) (refines_locate ready)).mono fun _ _ _ => trivial
  | renewDocumentLease leaseSeconds later =>
    exact (refines_renewDocumentLease ready).mono fun _ _ _ => trivial
  | activate located records => exact refines_activate ready numbered
  | deleteKeys =>
    exact (refines_discard (fun _ => rfl) (refines_deleteKeys ready)).mono fun _ _ _ => trivial
  | finishDelete => exact (refines_finishDelete ready).mono fun _ _ _ => trivial
  | failJob errorMessage randbelow later =>
    exact (refines_failJob ready).mono fun _ _ _ => trivial

end Transactions

/-! ## The deployment -/

/-- What the workspace's route does to the tables of the lifecycle model. -/
def WorkspaceRoute.effect (env : Environment) (workspaceId : UUID) (db : Database) :
    WorkspaceRoute → Except PyError Database
  | .updateDocument documentId displayName => renamed db workspaceId documentId displayName
  | .deleteDocument documentId =>
    retired db workspaceId documentId env.drawnId env.now env.clock
  | .retryDocumentJob jobId => Documents.retryDocumentJob db workspaceId jobId env.clock
  | .getWorkspace | .updateWorkspace _ | .listMembers | .addMember _ | .updateMember _ _
  | .removeMember _ | .listDocuments | .getDocument _ => .ok db

/-- The server, and the jobs that workers have claimed from it. -/
structure Deployment where
  server : Server
  claimed : List Job

inductive DeploymentEvent where
  | request (received : Received)
  | claimJobs (connection : ConnectionId) (now clock : Nat) (workerId : Text)
      (batchSize leaseSeconds : Nat) (locked : List UUID)
  | transaction (connection : ConnectionId) (now clock : Nat) (job : Job) (workerId : Text)
      (transaction : JobTransaction)

namespace Deployment

def lifecycle (d : Deployment) : Database × List Job := (database d.server.tables, d.claimed)

def next (d : Deployment) : DeploymentEvent → Option Deployment
  | .request received => (d.server.serve received).map fun server => { d with server }
  | .claimJobs connection now clock workerId batchSize leaseSeconds locked =>
    let claim := Tenancy.claimJobs now clock workerId batchSize leaseSeconds locked
    let ended := claim.run Transaction.execute
      (.start d.server.tables (d.server.sessions connection))
    (d.server.next ⟨connection, do let _ ← claim⟩).map fun server =>
      ⟨server, d.claimed ++ ended.1.toOption.getD []⟩
  | .transaction connection now clock job workerId transaction =>
    if job ∈ d.claimed then
      (d.server.next ⟨connection, transaction.program now clock job workerId⟩).map fun server =>
        { d with server }
    else none

end Deployment

/-- A worker has a name, and an index numbers its pages from one. -/
def DeploymentEvent.Proper : DeploymentEvent → Prop
  | .request _ => True
  | .claimJobs _ _ _ workerId _ _ _ => workerId ≠ []
  | .transaction _ _ _ _ _ work => work.Numbered

/-- The tables after a function, which an exception rolls back. -/
def committed (db : Database) : Except PyError Database → Database
  | .ok db' => db'
  | .error _ => db

/-- What the functions of the lifecycle model do at an event. -/
inductive Effect : Database × List Job → DeploymentEvent → Database × List Job → Prop
  | refused {db claimed received} : Effect (db, claimed) (.request received) (db, claimed)
  | served {db claimed received w route} (asks : received.request = .ofWorkspace w route) :
      Effect (db, claimed) (.request received)
        (committed db (route.effect received.env w db), claimed)
  | claimed {db claimed connection now clock workerId batchSize leaseSeconds locked} :
      Effect (db, claimed)
        (.claimJobs connection now clock workerId batchSize leaseSeconds locked)
        ({ db with
          jobs := (Jobs.claimJobs db.jobs workerId batchSize leaseSeconds clock locked).2 },
          claimed ++ (Jobs.claimJobs db.jobs workerId batchSize leaseSeconds clock locked).1)
  | worked {db claimed connection now clock job workerId transaction} (member : job ∈ claimed) :
      Effect (db, claimed) (.transaction connection now clock job workerId transaction)
        (committed db (transaction.effect clock job workerId db), claimed)

/-! ## One step -/

section Outcome

variable {tables : Tables} {settings : Settings} {α : Type}

/-- The commit of a program that simulates a function. -/
theorem outcome_of_simulates {I : Transaction → Prop} {blame : PyError → ApiError → Prop}
    {p : Handler α} {x : Except PyError (α × Database)}
    (holds : ∀ tx, I tx → tx.failed = false ∧ Homes tx.tables) (homes : Homes tables)
    (simulates : Program.Simulates Transaction.execute (fun tx : Transaction => database tx.tables)
      I blame (.start tables settings) p x) :
    let after := Transaction.outcome tables (p.run Transaction.execute (.start tables settings))
    database after = committed (database tables) (Prod.snd <$> x) ∧ Homes after := by
  cases x with
  | error error =>
    obtain ⟨raised, s, ran, -⟩ := simulates
    rw [ran]
    exact ⟨rfl, homes⟩
  | ok result =>
    obtain ⟨s, ran, stored, finished⟩ := simulates
    obtain ⟨sound, homes'⟩ := holds s finished
    rw [ran, Transaction.outcome, if_neg (by simp [sound])]
    exact ⟨stored, homes'⟩

theorem snd_changes (x : Except PyError Database) : Prod.snd <$> changes x = x := by
  cases x <;> rfl

theorem outcome_discard {p : Handler α} {tx : Transaction} :
    Transaction.outcome tables ((do let _ ← p : Handler Unit).run Transaction.execute tx) =
      Transaction.outcome tables (p.run Transaction.execute tx) := by
  rw [Program.run_bind]
  cases p.run Transaction.execute tx with
  | mk result tx' => cases result <;> rfl

theorem database_congr {db db' : Tables} (documents : db' .documents = db .documents)
    (versions : db' .documentVersions = db .documentVersions) (jobs : db' .jobs = db .jobs)
    (chunks : db' .documentChunks = db .documentChunks) : database db' = database db := by
  rw [database, database, documents, versions, jobs, chunks]

end Outcome

section Serve

variable {s s' : Server} {received : Received}

/-- A program that writes none of the tables of the lifecycle model. -/
theorem database_unwritten {α : Type} {p : Handler α} {tx : Transaction}
    (written : List TableName) (calls : p.Calls (WritesOnly written))
    (apart : ∀ t ∈ written, t = .workspaces ∨ t = .workspaceMemberships) :
    database (p.run Transaction.execute tx).2.tables = database tx.tables := by
  have same : ∀ t, t ≠ .workspaces → t ≠ .workspaceMemberships →
      (p.run Transaction.execute tx).2.tables t = tx.tables t := fun t first second =>
    run_unwritten calls fun listed => (apart t listed).elim first second
  exact database_congr (same _ (by simp) (by simp)) (same _ (by simp) (by simp))
    (same _ (by simp) (by simp)) (same _ (by simp) (by simp))

/-- A request does what its route does in the lifecycle model, if it is let in. -/
theorem serve_database (sound : Sound s) (homes : Homes s.tables)
    (taken : stepOf Server.serve s received s') :
    database s'.tables = database s.tables ∨ ∃ w route, received.request = .ofWorkspace w route ∧
      database s'.tables =
        committed (database s.tables) (route.effect received.env w (database s.tables)) := by
  have kept := serve_keeps (I := fun tables => database tables = database s.tables) taken rfl
  rw [Server.answered] at kept
  cases asks : received.request with
  | listWorkspaces =>
    rw [asks] at kept
    exact .inl (kept (database_unwritten _ calls_listWorkspaces (by simp)))
  | createWorkspace name slug =>
    rw [asks] at kept
    refine .inl (kept (database_unwritten [.workspaces, .workspaceMemberships]
      (calls_createWorkspace (fun _ _ => trivial) (fun _ _ _ => trivial) fun t row either => ?_)
      (by simp)))
    exact (ofRoute_insertInto (by simpa using either)).2
  | ofWorkspace w route =>
    rw [asks] at kept
    cases access : accessOf s.tables received.sub route.roles w with
    | error error =>
      obtain ⟨settings, ran⟩ : ∃ settings, ((Request.ofWorkspace w route).handle received.env
          received.sub).run Transaction.execute (.start s.tables (s.sessions received.connection)) =
            (.error error, ⟨s.tables, settings, false⟩) := run_refused received.env rfl access
      rw [ran] at kept
      exact .inl (kept rfl)
    | ok access' =>
      obtain ⟨user, membership⟩ := access'
      have ran : ((Request.ofWorkspace w route).handle received.env received.sub).run
          Transaction.execute (.start s.tables (s.sessions received.connection)) = _ :=
        run_granted rfl access
      have acting : Acting w user.id (.start s.tables
          (granted (s.sessions received.connection) user.id w)) :=
        acting_setTenantContext w user.id
          (by rw [sound.nobody received.connection]; rfl) sound.inScope.constraints homes
      refine .inr ⟨w, route, rfl, ?_⟩
      have whole := serve_tables taken
      rw [Server.answered, asks] at whole
      replace whole := whole.trans (congrArg (Transaction.outcome s.tables) ran)
      have refined : ∀ {x : Except PyError Database},
          Refines w user.id Raises (.start s.tables
            (granted (s.sessions received.connection) user.id w))
            (do let _ ← route.handle received.env w user membership) (changes x) →
          database s'.tables = committed (database s.tables) x := by
        intro x refines
        obtain ⟨stored, -⟩ := outcome_of_simulates
          (fun tx acting => ⟨acting.sound, acting.homes⟩) homes refines
        rw [outcome_discard, snd_changes] at stored
        rw [whole]
        exact stored
      cases route with
      | updateDocument documentId displayName => exact refined (refines_updateDocument acting)
      | deleteDocument documentId => exact refined (refines_deleteDocument acting)
      | retryDocumentJob jobId => exact refined (refines_retryDocumentJob acting)
      | getWorkspace | updateWorkspace _ | listMembers | addMember _ | updateMember _ _
      | removeMember _ | listDocuments | getDocument _ =>
        refine kept ?_
        rw [ran]
        exact database_unwritten _
          ((calls_handle received.env w user membership _).mono fun _ allowed => allowed.2)
          (by simp [WorkspaceRoute.writes])

end Serve

/-! ## What the functions keep -/

section Effects

open Lifecycle

variable {db db' : Database} {job : Job} {workerId : Text} {clock : Nat}

theorem grows_committed {x : Except PyError Database} (grows : ∀ db', x = .ok db' → Grows db db') :
    Grows db (committed db x) := by
  cases x with
  | error error => exact .refl db
  | ok db' => exact grows db' rfl

/-- A read leaves the tables. -/
theorem map_const_ok {α : Type} {x : Except PyError α}
    (done : (fun _ => db) <$> x = .ok db') : db' = db := by
  cases x with
  | error error => cases done
  | ok a => exact (Except.ok.inj done).symm

theorem inPlace_save {row : Job} (row' : Job) (keyed : Table.Keyed db.jobs)
    (holds : Holds db job workerId clock row) (same : SameJob row row') :
    InPlace db (saveJob db row') :=
  (holds.writes same).inPlace keyed rfl

/-- No transaction of a worker takes a row away. -/
theorem grows_effect {transaction : JobTransaction} (keyed : Table.Keyed db.jobs)
    (done : transaction.effect clock job workerId db = .ok db') : Grows db db' := by
  cases transaction with
  | beginProcessing =>
    cases begun_of_ok done with
    | @process _ row version holds =>
      have saved := inPlace_save row.process keyed holds ⟨rfl, rfl, rfl, rfl, rfl⟩
      exact (saved.trans (inPlace_setStatus _ _ _)).grows
    | @delete _ row holds =>
      exact (inPlace_save row.process keyed holds ⟨rfl, rfl, rfl, rfl, rfl⟩).grows
  | locate | deleteKeys =>
    rw [map_const_ok done]
    exact .refl db
  | renewDocumentLease leaseSeconds later =>
    obtain ⟨written, renewed, rfl⟩ : ∃ written, Jobs.renewLease db.jobs job.id workerId leaseSeconds
        clock later = .ok written ∧ db' = { db with jobs := written.2 } := by
      change (fun renewed : Job × List Job => { db with jobs := renewed.2 }) <$>
        Jobs.renewLease db.jobs job.id workerId leaseSeconds clock later = .ok db' at done
      cases renewed : Jobs.renewLease db.jobs job.id workerId leaseSeconds clock later with
      | error error => rw [renewed] at done; cases done
      | ok written => rw [renewed] at done; exact ⟨written, rfl, (Except.ok.inj done).symm⟩
    obtain ⟨row, holds, rfl⟩ := holds_of_updateOwnedJob renewed
    exact (inPlace_save (row.renew leaseSeconds later) keyed holds
      ⟨rfl, rfl, rfl, rfl, rfl⟩).grows
  | activate located records =>
    obtain ⟨documentId, -, done⟩ := bind_eq_ok.1 done
    cases activated_of_ok done with
    | @mk _ row _ holds _ =>
      have writes : Writes db row row.complete := holds.writes ⟨rfl, rfl, rfl, rfl, rfl⟩
      exact (writes.activated keyed).grows
  | finishDelete =>
    cases swept_of_ok done with
    | @mk _ row documentId holds _ =>
      have writes : Writes db row row.complete := holds.writes ⟨rfl, rfl, rfl, rfl, rfl⟩
      have chunked : InPlace db { db with
          chunks := Rag.deleteDocumentChunks db.chunks job.workspaceId documentId } :=
        inPlace_chunks _ _
      exact (chunked.trans (writes.inPlace keyed rfl)).grows
  | failJob errorMessage randbelow later =>
    cases failed_of_ok done with
    | process holds =>
      exact ((inPlace_save _ keyed holds (sameJob_failedRow ..)).trans
        (inPlace_setStatus _ _ _)).grows
    | other holds => exact (inPlace_save _ keyed holds (sameJob_failedRow ..)).grows

/-- No route takes a row away. -/
theorem grows_route {env : Environment} {w : UUID} {route : WorkspaceRoute}
    (keyed : Table.Keyed db.jobs) (done : route.effect env w db = .ok db') : Grows db db' := by
  cases route with
  | updateDocument documentId displayName =>
    obtain ⟨document, -, done⟩ := bind_eq_ok.1 done
    rw [Documents.renameDocument] at done
    split at done
    · cases done
    · cases done
      refine (inPlace_updateDocument _ _ ?_).grows
      exact fun _ => ⟨rfl, rfl, fun deleted => deleted⟩
  | deleteDocument documentId =>
    obtain ⟨document, -, done⟩ := bind_eq_ok.1 done
    obtain ⟨-, rfl⟩ := Database.insertJob_ok.1 done
    refine ((inPlace_updateDocument _ _ ?_).grows).trans (grows_insertJob _ _)
    exact fun _ => ⟨rfl, rfl, fun _ => Option.some_ne_none _⟩
  | retryDocumentJob jobId =>
    obtain ⟨written, retried, done⟩ := bind_eq_ok.1 done
    obtain ⟨job', jobs'⟩ := written
    obtain ⟨row, read, -, -, rfl, rfl⟩ := Jobs.retryJob_ok.1 retried
    cases done
    have id : row.id = jobId := Table.key_of_lookup read
    subst id
    have same : SameJob row (row.retry env.clock) := ⟨rfl, rfl, rfl, rfl, rfl⟩
    exact (inPlace_saveJob keyed read same).grows
  | getWorkspace | updateWorkspace _ | listMembers | addMember _ | updateMember _ _
  | removeMember _ | listDocuments | getDocument _ =>
    cases done
    exact .refl db

variable {before after : Database × List Job} {event : DeploymentEvent}

theorem Effect.grows (keyed : Table.Keyed before.1.jobs) (effect : Effect before event after) :
    Grows before.1 after.1 := by
  cases effect with
  | refused => exact .refl _
  | served _ => exact grows_committed fun _ => grows_route keyed
  | claimed => exact (inPlace_claimJobs ..).grows
  | worked _ => exact grows_committed fun _ => grows_effect keyed

/-- The jobs that workers work on are in the table, but for what may change. -/
theorem Effect.stored (keyed : Table.Keyed before.1.jobs) (effect : Effect before event after)
    (stored : ∀ job ∈ before.2, StoredJob before.1 job) :
    ∀ job ∈ after.2, StoredJob after.1 job := by
  have grows := effect.grows keyed
  cases effect with
  | refused | served _ | worked _ => exact fun job member => (stored job member).mono grows
  | claimed =>
    intro job member
    obtain old | new := List.mem_append.mp member
    · exact (stored job old).mono grows
    · obtain ⟨row, selected, rfl⟩ := List.mem_map.mp new
      have read := Table.lookup_of_mem keyed (Jobs.mem_selectClaimable selected).1
      obtain ⟨row', found, same⟩ := grows.job read
      exact ⟨row', found, same.id, same.workspaceId, same.jobType, same.payload,
        same.idempotencyKey⟩

end Effects

/-! ## Runs -/

/-- What holds between any two events. -/
structure Deployment.Ok (d : Deployment) : Prop where
  sound : Sound d.server
  homes : Homes d.server.tables
  stored : ∀ job ∈ d.claimed, Lifecycle.StoredJob (database d.server.tables) job

section Steps

variable {d d' : Deployment} {event : DeploymentEvent}

theorem Deployment.Ok.keyed (ok : d.Ok) : Table.Keyed (database d.server.tables).jobs := by
  have unique : ((d.server.tables .jobs).map fun row => row.id).Nodup :=
    ok.sound.inScope.constraints.jobs.1
  simpa [Table.Keyed, database, Function.comp_def] using unique

/-- A transaction can start on a claimed job. -/
theorem Deployment.Ok.ready {job : Job} (ok : d.Ok) (member : job ∈ d.claimed)
    (connection : ConnectionId) :
    Ready job (.start d.server.tables (d.server.sessions connection)) where
  sound := rfl
  nobody := congrArg Context.workerId (ok.sound.nobody connection)
  constraints := ok.sound.inScope.constraints
  homes := ok.homes
  own row there same := by
    obtain ⟨row', read, kept⟩ := ok.stored job member
    have found := Table.lookup_of_mem ok.keyed (List.mem_map_of_mem (f := fun row : JobRow =>
      row.toJob) there)
    rw [show Row.key row.toJob = job.id from same, read] at found
    exact (congrArg Job.workspaceId (Option.some.inj found)).symm.trans kept.workspaceId

theorem Deployment.Ok.step (ok : d.Ok) (proper : event.Proper)
    (taken : stepOf Deployment.next d event d') :
    Effect d.lifecycle event d'.lifecycle ∧ d'.Ok := by
  -- what is left to show of each event
  have finish : Sound d'.server → Homes d'.server.tables →
      Effect d.lifecycle event d'.lifecycle → Effect d.lifecycle event d'.lifecycle ∧ d'.Ok :=
    fun sound homes effect => ⟨effect, sound, homes, effect.stored ok.keyed ok.stored⟩
  cases event with
  | request received =>
    rw [stepOf, Deployment.next, Option.map_eq_some_iff] at taken
    obtain ⟨server, served, rfl⟩ := taken
    refine finish (sound_serve ok.sound served) (homes_serve ok.sound ok.homes served) ?_
    obtain same | ⟨w, route, asks, wrote⟩ := serve_database ok.sound ok.homes served
    · rw [Deployment.lifecycle, Deployment.lifecycle, same]
      exact .refused
    · rw [Deployment.lifecycle, Deployment.lifecycle, wrote]
      exact .served asks
  | claimJobs connection now clock workerId batchSize leaseSeconds locked =>
    rw [stepOf, Deployment.next, Option.map_eq_some_iff] at taken
    obtain ⟨server, served, rfl⟩ := taken
    have refines := refines_claimJobs now clock leaseSeconds workerId batchSize locked proper
      (show (Transaction.start d.server.tables (d.server.sessions connection)).failed = false from
        rfl) ok.sound.inScope.constraints ok.homes
    have committed := outcome_of_simulates (fun tx serving => ⟨serving.sound, serving.homes⟩)
      ok.homes refines
    obtain ⟨tx, ran, -, -⟩ := refines
    have tables : server.tables = Transaction.outcome d.server.tables
        ((claimJobs now clock workerId batchSize leaseSeconds locked).run Transaction.execute
          (.start d.server.tables (d.server.sessions connection))) := by
      cases served
      exact outcome_discard
    rw [← tables] at committed
    refine finish (sound_next ok.sound served) committed.2 ?_
    rw [Deployment.lifecycle, Deployment.lifecycle, committed.1, ran]
    exact .claimed
  | transaction connection now clock job workerId transaction =>
    change (if _ then _ else _) = some d' at taken
    split at taken
    next member =>
      obtain ⟨server, served, rfl⟩ := Option.map_eq_some_iff.mp taken
      have refines := refines_program now clock workerId
        (ok.ready member connection) proper
      have committed := outcome_of_simulates (fun tx acting => ⟨acting.sound, acting.homes⟩)
        ok.homes refines
      rw [snd_changes] at committed
      have tables : server.tables = Transaction.outcome d.server.tables
          ((transaction.program now clock job workerId).run Transaction.execute
            (.start d.server.tables (d.server.sessions connection))) := by
        cases served
        rfl
      rw [← tables] at committed
      refine finish (sound_next ok.sound served) committed.2 ?_
      rw [Deployment.lifecycle, Deployment.lifecycle, committed.1]
      exact .worked member
    next => cases taken

end Steps

section Runs

variable {s : Server} {d d' : Deployment} {events : List DeploymentEvent}

theorem Deployment.Ok.run (ok : d.Ok) (proper : ∀ event ∈ events, event.Proper)
    (run : Run (stepOf Deployment.next) d events d') :
    Run Effect d.lifecycle events d'.lifecycle ∧
      Lifecycle.Grows (database d.server.tables) (database d'.server.tables) ∧ d'.Ok := by
  induction run with
  | nil => exact ⟨.nil, .refl _, ok⟩
  | cons taken _ ih =>
    obtain ⟨effect, ok'⟩ := ok.step (proper _ List.mem_cons_self) taken
    obtain ⟨rest, grows, finished⟩ := ih ok' fun event member =>
      proper event (List.mem_cons_of_mem _ member)
    exact ⟨.cons effect rest, (effect.grows ok.keyed).trans grows, finished⟩

theorem ok_of_reachable (reached : Reachable (stepOf Server.next) Server.init s)
    (homes : Homes s.tables) : Deployment.Ok ⟨s, []⟩ :=
  ⟨sound_of_reachable reached, homes, fun _ member => absurd member List.not_mem_nil⟩

/-- The owner retires the document, and a worker sweeps its chunks. -/
def sampleDeployment : List DeploymentEvent :=
  let job := (Job.new 30 10 .deleteObject ⟨some 11, none⟩ (Documents.deleteKey 11) 5 0).lease
    ['w'] 60 0
  [.request ⟨1, sampleEnvironment, some 1, .ofWorkspace 10 (.deleteDocument 11)⟩,
    .claimJobs 2 0 0 ['w'] 1 60 [], .transaction 2 0 0 job ['w'] .beginProcessing,
    .transaction 2 0 0 job ['w'] .deleteKeys, .transaction 2 0 0 job ['w'] .finishDelete]

theorem proper_sampleDeployment : ∀ event ∈ sampleDeployment, event.Proper := by
  simp [sampleDeployment, DeploymentEvent.Proper, JobTransaction.Numbered]

end Runs

end SupportPilot.Tenancy
