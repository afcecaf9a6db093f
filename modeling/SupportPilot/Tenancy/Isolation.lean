import SupportPilot.Tenancy.Scope

/-! # What transactions of other workspaces leave as it was

A transaction that never makes a workspace its current one cannot insert, change or delete rows
of it, whatever statements it issues; only the jobs are open to a worker.  The foreign keys reach
across: a deleted document takes along every version that names it, and nothing declares that such
a version is of the workspace of the document.  The versions that are (`atHome`) are safe, because
their documents are, and so are the chunks and the active versions, which the triggers keep in one
workspace. -/

namespace SupportPilot.Tenancy

open Lib Policies Deletion

/-- The row belongs to the workspace. -/
def ofWorkspace (workspaceId : UUID) : Where Record
  | .users, _ => false
  | .workspaces, row => row.id = workspaceId
  | .workspaceMemberships, row => row.workspaceId = workspaceId
  | .documents, row => row.workspaceId = workspaceId
  | .documentVersions, row => row.workspaceId = workspaceId
  | .jobs, row => row.workspaceId = workspaceId
  | .documentChunks, row => row.workspaceId = workspaceId

/-- The version belongs to the workspace, and so does its document. -/
def atHome (workspaceId : UUID) (db : Tables) (row : VersionRow) : Bool :=
  row.workspaceId = workspaceId &&
    (db .documents).any fun document =>
      ofWorkspace workspaceId .documents document && document.id = row.documentId

/-- The rows of the workspace are as before, but for the jobs if workers are about. -/
structure Untouched (workers : Bool) (workspaceId : UUID) (before after : Tables) : Prop where
  rows : ∀ t, t ≠ .documentVersions → (workers = true → t ≠ .jobs) →
    (after t).filter (ofWorkspace workspaceId t) = (before t).filter (ofWorkspace workspaceId t)
  versions : (after .documentVersions).filter (atHome workspaceId after) =
    (before .documentVersions).filter (atHome workspaceId before)
  /-- No version is added or changed. -/
  strays : ((after .documentVersions).filter (ofWorkspace workspaceId .documentVersions)).Sublist
    ((before .documentVersions).filter (ofWorkspace workspaceId .documentVersions))

/-- The transaction acts for another workspace, or for none. -/
def Outside (workers : Bool) (workspaceId : UUID) (context : Context) : Prop :=
  context.workspaceId ≠ some workspaceId ∧ (workers = false → context.workerId = none)

/-- A command with which a transaction stays outside.  Users have no policy; the services delete
none. -/
def StaysOutside (workers : Bool) (workspaceId : UUID) : Command → Prop
  | .setTenantContext _ current => current ≠ some workspaceId
  | .setWorkerContext _ => workers = true
  | .select _ _ => True
  | .write (.delete chosen) _ => ∀ row, chosen .users row = false
  | .write _ _ => True

variable {workers : Bool} {w : UUID} {context : Context} {db db' db'' : Tables}

namespace Untouched

theorem refl (db : Tables) : Untouched workers w db db :=
  ⟨fun _ _ _ => rfl, rfl, .refl _⟩

theorem trans (first : Untouched workers w db db') (second : Untouched workers w db' db'') :
    Untouched workers w db db'' :=
  ⟨fun t notVersions notJobs =>
      (second.rows t notVersions notJobs).trans (first.rows t notVersions notJobs),
    second.versions.trans first.versions, second.strays.trans first.strays⟩

end Untouched

/-- Being at home depends on the documents of the workspace alone. -/
theorem atHome_congr
    (same : (db' .documents).filter (ofWorkspace w .documents) =
      (db .documents).filter (ofWorkspace w .documents)) :
    atHome w db' = atHome w db := by
  funext row
  simp only [atHome]
  congr 1
  have split : ∀ db : Tables,
      ((db .documents).any fun document =>
        ofWorkspace w .documents document && document.id = row.documentId) =
      ((db .documents).filter (ofWorkspace w .documents)).any fun document =>
        document.id = row.documentId := fun db => by
    simp only [List.any_filter]
  rw [split, split, same]

/-! ## The policies -/

theorem writes_outside (outside : Outside workers w context) {t : TableName} {row : Record t}
    (notJobs : workers = true → t ≠ .jobs) (here : ofWorkspace w t row = true) :
    context.writes t row = false := by
  obtain ⟨elsewhere, noWorker⟩ := outside
  have notCurrent : context.isCurrent w = false := by simpa [Context.isCurrent] using elsewhere
  cases t with
  | users => cases here
  | jobs =>
    have noWorkers : workers = false := by
      cases workers with
      | false => rfl
      | true => exact absurd rfl (notJobs rfl)
    obtain rfl : row.workspaceId = w := of_decide_eq_true here
    simp [Context.writes, notCurrent, Context.isWorker, noWorker noWorkers]
  | workspaces | workspaceMemberships | documents | documentVersions | documentChunks =>
    obtain rfl := of_decide_eq_true here
    exact notCurrent

theorem inserts_outside (outside : Outside workers w context) {t : TableName} {row : Record t}
    (here : ofWorkspace w t row = true) : context.inserts t row = false := by
  have notCurrent : context.isCurrent w = false := by
    simpa [Context.isCurrent] using outside.1
  cases t with
  | users => cases here
  | workspaces =>
    obtain rfl := of_decide_eq_true here
    simp [Context.inserts, notCurrent]
  | workspaceMemberships | documents | documentVersions | jobs | documentChunks =>
    obtain rfl := of_decide_eq_true here
    exact notCurrent

/-! ## One write -/

/-- A write that leaves the rows of the workspace in every table leaves the workspace. -/
theorem untouched_of_rows (rows : ∀ t, (workers = true → t ≠ .jobs) →
      (db' t).filter (ofWorkspace w t) = (db t).filter (ofWorkspace w t)) :
    Untouched workers w db db' := by
  have versions := rows .documentVersions (fun _ => by simp)
  refine ⟨fun t _ => rows t, ?_, versions ▸ .refl _⟩
  rw [atHome_congr (rows .documents fun _ => by simp)]
  have split : ∀ rows : List VersionRow, rows.filter (atHome w db) =
      (rows.filter (ofWorkspace w .documentVersions)).filter (atHome w db) := by
    intro rows
    rw [List.filter_filter]
    refine List.filter_congr fun row _ => ?_
    simp only [atHome, ofWorkspace]
    cases decide (row.workspaceId = w) <;> simp
  rw [split, split (db .documentVersions), versions]

section Delete

variable {chosen : Where Record}

/-- What is gone has been deleted, and not another row with its key. -/
theorem goes_of_gone {α : Type} {rows : List α} {id : α → UUID} (unique : (rows.map id).Nodup)
    {going : α → Bool} {row : α} (member : row ∈ rows)
    (gone : (rows.any fun other => going other && id other = id row) = true) :
    going row = true := by
  obtain ⟨other, member', both⟩ := List.any_eq_true.mp gone
  simp only [Bool.and_eq_true, decide_eq_true_eq] at both
  rw [← List.inj_on_of_nodup_map unique member' member both.2]
  exact both.1

/-- Rows that stay as they are, among those that a condition picks out before and after. -/
theorem filter_cascade {t : TableName} {p : Record t → Bool}
    (same : ∀ row, p (kept db chosen t row) = p row)
    (stay : ∀ row ∈ db t, p row = true →
      goes db chosen t row = false ∧ kept db chosen t row = row) :
    (cascade db chosen t).filter p = (db t).filter p := by
  rw [cascade, List.filter_map, List.filter_filter]
  have staying : (db t).filter (fun row => (p ∘ kept db chosen t) row && !goes db chosen t row) =
      (db t).filter p := by
    refine List.filter_congr fun row member => ?_
    rw [Function.comp_apply, same]
    cases picked : p row with
    | false => rfl
    | true => simp [(stay row member picked).1]
  have unchanged : ((db t).filter p).map (kept db chosen t) = ((db t).filter p).map id :=
    List.map_congr_left fun row member =>
      (stay row (List.mem_filter.mp member).1 (List.mem_filter.mp member).2).2
  rw [staying, unchanged, List.map_id]

theorem ofWorkspace_kept {t : TableName} (row : Record t) :
    ofWorkspace w t (kept db chosen t row) = ofWorkspace w t row := by
  cases t with
  | documents => exact congrArg (fun id => decide (id = w)) (unlinked_workspaceId row)
  | users | workspaces | workspaceMemberships | documentVersions | jobs | documentChunks => rfl

theorem cascade_versions : cascade db chosen .documentVersions =
    (db .documentVersions).filter fun row => !versionGoes db chosen row := List.map_id' _

variable (inScope : Scoped db) (noUsers : ∀ row, chosen .users row = false)
  (elsewhere : ∀ t row, (workers = true → t ≠ .jobs) → ofWorkspace w t row = true →
    chosen t row = false)

include elsewhere

theorem workspace_there : workspaceGone db chosen w = false := by
  by_contra gone
  rw [Bool.not_eq_false] at gone
  obtain ⟨row, -, both⟩ := List.any_eq_true.mp gone
  rw [Bool.and_eq_true] at both
  rw [elsewhere .workspaces row (fun _ => by simp) both.2] at both
  cases both.1

theorem document_stays {row : DocumentRow} (here : row.workspaceId = w) :
    documentGoes db chosen row = false := by
  rw [documentGoes, elsewhere .documents row (fun _ => by simp) (decide_eq_true here), here,
    workspace_there elsewhere]
  rfl

include inScope

theorem document_there {row : DocumentRow} (member : row ∈ db .documents)
    (here : row.workspaceId = w) : documentGone db chosen row.id = false := by
  by_contra gone
  rw [Bool.not_eq_false] at gone
  have going := goes_of_gone inScope.constraints.documents.1 member gone
  rw [document_stays elsewhere here] at going
  cases going

theorem version_there {row : VersionRow} (member : row ∈ db .documentVersions)
    (here : row.workspaceId = w) (ofHere : documentGone db chosen row.documentId = false) :
    versionGone db chosen row.id = false := by
  by_contra gone
  rw [Bool.not_eq_false] at gone
  have going := goes_of_gone inScope.constraints.versions.1 member gone
  rw [versionGoes, elsewhere .documentVersions row (fun _ => by simp) (decide_eq_true here), here,
    workspace_there elsewhere, ofHere] at going
  cases going

/-- The active version of a document that stays. -/
theorem unlinked_eq {row : DocumentRow} (member : row ∈ db .documents)
    (here : row.workspaceId = w) : unlinked db chosen row = row := by
  rw [unlinked, if_neg]
  intro gone
  obtain ⟨id, active, gone⟩ := (Option.any_eq_true _ _).mp gone
  obtain ⟨version, inVersions, rfl, ofDocument, here'⟩ := inScope.documents row member id active
  have there := version_there inScope elsewhere inVersions (here'.trans here)
    (ofDocument ▸ document_there inScope elsewhere member here)
  rw [there] at gone
  cases gone

include noUsers

/-- A row of the workspace that is no version stays, as it is. -/
theorem stays_outside {t : TableName} (notVersions : t ≠ .documentVersions)
    (notJobs : workers = true → t ≠ .jobs) {row : Record t} (member : row ∈ db t)
    (here : ofWorkspace w t row = true) :
    goes db chosen t row = false ∧ kept db chosen t row = row := by
  have spared := elsewhere t row notJobs here
  have there : workspaceGone db chosen w = false := workspace_there elsewhere
  cases t with
  | users => cases here
  | workspaces => exact ⟨spared, rfl⟩
  | workspaceMemberships =>
    obtain rfl := of_decide_eq_true here
    have user : userGone db chosen row.userId = false := by
      simp [userGone, noUsers]
    exact ⟨by simp [goes, spared, there, user], rfl⟩
  | documents =>
    have here' := of_decide_eq_true here
    exact ⟨document_stays elsewhere here', unlinked_eq inScope elsewhere member here'⟩
  | documentVersions => exact absurd rfl notVersions
  | jobs =>
    obtain rfl := of_decide_eq_true here
    exact ⟨by simp [goes, spared, there], rfl⟩
  | documentChunks =>
    obtain rfl := of_decide_eq_true here
    -- the version and the document of the chunk are of its workspace
    obtain ⟨version, inVersions, id, ofDocument, here', document, inDocuments, id', here''⟩ :=
      inScope.chunks row member
    have documentThere := document_there inScope elsewhere inDocuments here''
    rw [id'] at documentThere
    have versionThere := version_there inScope elsewhere inVersions here' documentThere
    rw [ofDocument] at documentThere
    rw [id] at versionThere
    exact ⟨by simp [goes, spared, there, documentThere, versionThere], rfl⟩

theorem untouched_delete : Untouched workers w db (cascade db chosen) := by
  have rows : ∀ t, t ≠ .documentVersions → (workers = true → t ≠ .jobs) →
      (cascade db chosen t).filter (ofWorkspace w t) = (db t).filter (ofWorkspace w t) :=
    fun t notVersions notJobs => filter_cascade ofWorkspace_kept fun row =>
      stays_outside inScope noUsers elsewhere notVersions notJobs
  refine ⟨rows, ?_, ?_⟩
  · rw [atHome_congr (rows .documents (by simp) fun _ => by simp)]
    refine filter_cascade (t := .documentVersions) (fun _ => rfl) fun row member isHome => ?_
    simp only [atHome, Bool.and_eq_true, decide_eq_true_eq, List.any_eq_true] at isHome
    obtain ⟨rfl, document, inDocuments, here, id⟩ := isHome
    have there := document_there inScope elsewhere inDocuments (of_decide_eq_true here)
    rw [id] at there
    have spared := elsewhere .documentVersions row (fun _ => by simp) (decide_eq_true rfl)
    exact ⟨by simp [goes, versionGoes, spared, there, workspace_there elsewhere], rfl⟩
  · rw [cascade_versions]
    exact List.filter_sublist.filter _

end Delete

theorem untouched_write (inScope : Scoped db) (outside : Outside workers w context)
    {write : Write Record}
    (noUsers : ∀ chosen, write = .delete chosen → ∀ row, chosen .users row = false)
    (executed : schema.execute (context.policies db) db write = .ok db') :
    Untouched workers w db db' := by
  cases Schema.execute_eq_ok.1 executed with
  | insert _ allowed _ =>
    refine untouched_of_rows fun t _ => Schema.filter_insert fun row member => ?_
    -- an inserted row is of the current workspace
    by_contra here
    rw [Bool.not_eq_false] at here
    have inserts := (insertable_iff.1 (allowed t row member)).1
    rw [show (context.policies db).insert t row = context.inserts t row from rfl,
      inserts_outside outside here] at inserts
    cases inserts
  | update _ allowed _ =>
    refine untouched_of_rows fun t notJobs => Schema.filter_update fun row member changed => ?_
    -- and so is a changed row, as it was and as it is
    have before : context.writes t row = true := (updatable_iff.1 changed).2.2
    have later : context.writes t _ = true := (leavable_iff.1 (allowed t row member changed)).1
    constructor
    · by_contra here
      rw [Bool.not_eq_false] at here
      rw [writes_outside outside notJobs here] at before
      cases before
    · by_contra here
      rw [Bool.not_eq_false] at here
      rw [writes_outside outside notJobs here] at later
      cases later
  | @delete chosen _ =>
    refine untouched_delete inScope (fun row => ?_) fun t row notJobs here => ?_
    · simp [deletable, noUsers chosen rfl]
    · rw [deletable, show (context.policies db).delete t row = context.writes t row from rfl,
        writes_outside outside notJobs here, Bool.and_false, Bool.and_false]

/-! ## Runs -/

theorem execute_untouched {tx : Transaction} {command : Command} (inScope : Scoped tx.tables)
    (outside : Outside workers w tx.settings.context)
    (stays : StaysOutside workers w command) :
    Untouched workers w tx.tables (tx.execute command).2.tables := by
  have effect := Transaction.effect tx command
  generalize (tx.execute command).2 = tx' at effect ⊢
  cases effect with
  | wrote executed =>
    refine untouched_write inScope outside ?_ executed
    rintro chosen rfl
    exact stays
  | same | tenant | worker | refused => exact .refl _

theorem execute_outside {tx : Transaction} {command : Command}
    (outside : Outside workers w tx.settings.context) (stays : StaysOutside workers w command) :
    Outside workers w (tx.execute command).2.settings.context := by
  have effect := Transaction.effect tx command
  generalize (tx.execute command).2 = tx' at effect ⊢
  cases effect with
  | tenant => exact ⟨stays, outside.2⟩
  | worker => exact ⟨outside.1, fun noWorkers => absurd (noWorkers.symm.trans stays) (by simp)⟩
  | same | wrote | refused => exact outside

theorem run_untouched {tx : Transaction} {χ α : Type} {p : Program Command Answer χ α}
    (calls : p.Calls (StaysOutside workers w)) (inScope : Scoped tx.tables)
    (outside : Outside workers w tx.settings.context) :
    Untouched workers w tx.tables (p.run Transaction.execute tx).2.tables := by
  refine Program.run_relates
    (I := fun tx : Transaction => Scoped tx.tables ∧ Outside workers w tx.settings.context)
    (R := fun tx tx' : Transaction => Untouched workers w tx.tables tx'.tables)
    calls (fun _ => .refl _) (fun _ _ _ => .trans) ?_ ?_ ⟨inScope, outside⟩
  · intro tx command stays ⟨inScope, outside⟩
    refine ⟨?_, execute_outside outside stays⟩
    obtain same | wrote := (Transaction.effect tx command).tables
    · exact same ▸ inScope
    · exact wrote.inScope inScope
  · intro tx command stays ⟨inScope, outside⟩
    exact execute_untouched inScope outside stays

/-! ## The pool -/

/-- A setting without a value is left without one. -/
theorem join_restored {α : Type} {before after : Option (Option α)} (absent : before.join = none) :
    (Settings.restored none before after).join = none := by
  cases before with
  | some value => exact absent
  | none => cases after <;> rfl

theorem nobody_ended {before after : Settings} (nobody : before.context = .nobody) :
    (before.ended after).context = .nobody := by
  obtain ⟨userId, workspaceId, workerId⟩ := before
  simp only [Settings.context, Context.nobody, Context.mk.injEq, Settings.ended] at nobody ⊢
  refine ⟨join_restored nobody.1, join_restored nobody.2.1, ?_⟩
  cases workerId with
  | some value => exact nobody.2.2
  | none => cases after.currentWorkerId <;> rfl

/-- The tables are in scope, and no connection has an identity between transactions. -/
structure Sound (s : Server) : Prop where
  inScope : Scoped s.tables
  nobody : ∀ connection, (s.sessions connection).context = .nobody

theorem sound_init : Sound Server.init where
  inScope := scoped_empty
  nobody _ := rfl

theorem sound_next {s t : Server} {event : Event} (sound : Sound s)
    (taken : stepOf Server.next s event t) : Sound t := by
  cases taken
  refine ⟨?_, fun connection => ?_⟩
  · exact Transaction.outcome_keeps sound.inScope
      (Transaction.run_keeps (fun _ _ _ inScope wrote => wrote.inScope inScope) sound.inScope)
  · by_cases same : connection = event.connection
    · subst same
      show (Function.update s.sessions _ _ _).context = _
      rw [Function.update_self]
      exact nobody_ended (sound.nobody event.connection)
    · show (Function.update s.sessions _ _ _).context = _
      rw [Function.update_of_ne same]
      exact sound.nobody connection

theorem sound_of_reachable {s : Server} (reached : Reachable (stepOf Server.next) Server.init s) :
    Sound s :=
  reached.invariant sound_init fun _ _ _ sound taken => sound_next sound taken

/-- The state that a run leaves. -/
def serverAfter (events : List Event) : Server :=
  (exec Server.next Server.init events).getD Server.init

theorem reachable_serverAfter (events : List Event) :
    Reachable (stepOf Server.next) Server.init (serverAfter events) := by
  unfold serverAfter
  cases executed : exec Server.next Server.init events with
  | none => exact ⟨[], .nil⟩
  | some s => exact ⟨events, .of_exec executed⟩

theorem outside_nobody : Outside workers w .nobody :=
  ⟨by simp [Context.nobody], fun _ => rfl⟩

theorem next_untouched {s t : Server} {event : Event} (sound : Sound s)
    (calls : event.program.Calls (StaysOutside workers w))
    (taken : stepOf Server.next s event t) : Untouched workers w s.tables t.tables := by
  cases taken
  have outside : Outside workers w (s.sessions event.connection).context := by
    rw [sound.nobody event.connection]
    exact outside_nobody
  have ran : Untouched workers w s.tables (s.ran event).2.tables :=
    run_untouched calls (show Scoped (Transaction.start s.tables _).tables from sound.inScope)
      outside
  exact Transaction.outcome_keeps (I := Untouched workers w s.tables) (.refl _) ran

/-- A transaction of the workspace that deletes all it can. -/
def wrecking (userId workspaceId : UUID) : Handler Unit := do
  perform (.setTenantContext userId (some workspaceId))
  let _ ← perform (.deleteFrom .documents fun _ => true)
  let _ ← perform (.deleteFrom .workspaceMemberships fun _ => true)
  let _ ← perform (.deleteFrom .workspaces fun _ => true)

/-- A statement that sets no identity. -/
def Anonymous : Command → Prop
  | .setTenantContext _ _ => False
  | .setWorkerContext _ => False
  | .select _ _ => True
  | .write (.delete chosen) _ => ∀ row, chosen .users row = false
  | .write _ _ => True

section Nobody

variable {t : TableName}

theorem nobody_selects (tenant : t ≠ .users) (row : Record t) :
    (Context.nobody.policies db).select t row = false := by
  have none : Context.nobody.memberOf db = [] := by
    rw [Context.memberOf, List.map_eq_nil_iff, List.filter_eq_nil_iff]
    simp [Context.isUser, Context.nobody]
  cases t with
  | users => exact absurd rfl tenant
  | workspaces =>
    show (Context.nobody.isCurrent row.id || (Context.nobody.memberOf db).contains row.id) = false
    rw [none]
    rfl
  | workspaceMemberships => rfl
  | documents | documentVersions | jobs | documentChunks => rfl

theorem nobody_inserts (tenant : t ≠ .users) (row : Record t) :
    (Context.nobody.policies db).insert t row = false := by
  cases t with
  | users => exact absurd rfl tenant
  | workspaces | workspaceMemberships | documents | documentVersions | jobs | documentChunks => rfl

theorem nobody_write {write : Write Record}
    (noUsers : ∀ chosen, write = .delete chosen → ∀ row, chosen .users row = false)
    (executed : schema.execute (Context.nobody.policies db) db write = .ok db')
    (tenant : t ≠ .users) : db' t = db t := by
  cases Schema.execute_eq_ok.1 executed with
  | @insert rows _ allowed _ =>
    have none : rows t = [] := by
      refine List.eq_nil_iff_forall_not_mem.mpr fun row member => ?_
      have inserts := (insertable_iff.1 (allowed t row member)).1
      rw [nobody_inserts tenant] at inserts
      cases inserts
    simp only [none, List.append_nil]
  | update _ _ _ =>
    refine (List.map_congr_left fun row _ => ?_).trans (List.map_id' _)
    rw [if_neg]
    intro changed
    have selects := (updatable_iff.1 changed).2.1
    rw [nobody_selects tenant] at selects
    cases selects
  | @delete chosen _ =>
    -- no row is chosen at all
    have none : ∀ t (row : Record t),
        (Context.nobody.policies db).deletable chosen t row = false := by
      intro t row
      by_cases same : t = .users
      · subst same
        simp [deletable, noUsers chosen rfl]
      · rw [deletable, nobody_selects same, Bool.false_and, Bool.and_false]
    have nothing : cascade db ((Context.nobody.policies db).deletable chosen) =
        deleted db .jobs fun _ => false := by
      rw [cascade_congr fun t row _ => none t row]
      exact cascade_leaf rfl fun _ _ _ => rfl
    refine (congrFun nothing t).trans ?_
    by_cases same : t = .jobs
    · subst same
      rw [deleted, Function.update_self]
      exact List.filter_eq_self.mpr fun _ _ => rfl
    · rw [deleted, Function.update_of_ne same]

end Nobody

end SupportPilot.Tenancy
