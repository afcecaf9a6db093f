import SupportPilot.Tenancy.Authorization

/-! # What the policies change for the requests

Nothing: every statement of a route names its workspace, or rows that an earlier statement has
found there, so a server without row level security answers every request alike and goes through
the same states (`policies_redundant`).  This rests on the versions, which the routes select by
their document alone: every version must be of the workspace of its document (`Homes`).  No
constraint says so, but the requests keep it. -/

namespace SupportPilot.Tenancy

open Lib Policies Workspaces Security

/-- Every version is of the workspace of its document. -/
def Homes (db : Tables) : Prop :=
  ∀ version ∈ db .documentVersions, ∀ document ∈ db .documents,
    document.id = version.documentId → version.workspaceId = document.workspaceId

/-! ## Versions stay at home -/

section Homes

variable {context : Context} {db db' : Tables} {written : List TableName}

theorem homes_update {chosen : Where Record} {set : (t : TableName) → Record t → Record t}
    (homes : Homes db) (keeps : KeepsKeys (.update chosen set))
    (fires : ∀ t, ∀ row ∈ db t, (context.policies db).updatable chosen t row = true →
      schema.trigger ((context.policies db).view db) t (some row) (set t row) = true)
    (allowed : ∀ t, ∀ row ∈ db t, (context.policies db).updatable chosen t row = true →
      (context.policies db).leavable t (set t row) = true) :
    Homes fun t => Table.updateWhere ((context.policies db).updatable chosen t) (set t) (db t) := by
  intro version member document member' same
  obtain ⟨oldVersion, inVersions, rfl⟩ := List.mem_map.mp member
  obtain ⟨oldDocument, inDocuments, rfl⟩ := List.mem_map.mp member'
  -- neither the references of a version nor the workspace of a document change
  have references : ∀ new : VersionRow, new = (if (context.policies db).updatable chosen
        .documentVersions oldVersion = true then set .documentVersions oldVersion else oldVersion) →
      new.workspaceId = oldVersion.workspaceId ∧ new.documentId = oldVersion.documentId := by
    rintro new rfl
    split
    next changed =>
      obtain ⟨workspace, document, -⟩ :=
        sameContent_iff.1 (fires .documentVersions oldVersion inVersions changed)
      exact ⟨workspace, document⟩
    · exact ⟨rfl, rfl⟩
  have belongs : ∀ new : DocumentRow, new = (if (context.policies db).updatable chosen
        .documents oldDocument = true then set .documents oldDocument else oldDocument) →
      new.id = oldDocument.id ∧ new.workspaceId = oldDocument.workspaceId := by
    rintro new rfl
    split
    next changed => exact ⟨keeps .documents oldDocument, document_moves allowed inDocuments changed⟩
    · exact ⟨rfl, rfl⟩
  obtain ⟨workspace, ofDocument⟩ := references _ rfl
  obtain ⟨id, workspace'⟩ := belongs _ rfl
  rw [workspace, workspace']
  exact homes oldVersion inVersions oldDocument inDocuments (id ▸ ofDocument ▸ same)

theorem homes_insert {rows : Tables} (homes : Homes db) (constraints : Constraints db)
    (none : rows .documentVersions = [])
    (accepted : accepts (fun t => db t ++ rows t) = true) : Homes fun t => db t ++ rows t := by
  intro version member document member' same
  simp only [none, List.append_nil] at member
  obtain old | new := List.mem_append.mp member'
  · exact homes version member document old same
  · -- a version has its document already
    have there := (constraints.versions.2.2.2.2 version member).2.1
    have unique := (accepts_iff.1 accepted).documents.1
    rw [documentIds, List.map_append] at unique
    exact absurd (same ▸ List.mem_map_of_mem new) (List.disjoint_of_nodup_append unique there)

theorem homes_delete {chosen : Where Record} (homes : Homes db) : Homes (cascade db chosen) := by
  intro version member document member' same
  obtain ⟨oldVersion, inVersions, -, rfl⟩ := mem_cascade.1 member
  obtain ⟨oldDocument, inDocuments, -, rfl⟩ := mem_cascade.1 member'
  have same' : oldDocument.id = oldVersion.documentId := (unlinked_id oldDocument).symm.trans same
  exact (homes oldVersion inVersions oldDocument inDocuments same').trans
    (unlinked_workspaceId oldDocument).symm

/-- A command that inserts no versions. -/
def InsertsNoVersions : Command → Prop
  | .write (.insert rows) _ => rows .documentVersions = []
  | _ => True

theorem homes_write {w : Write Record} (keeps : KeepsKeys w) (homes : Homes db)
    (constraints : Constraints db) (none : InsertsNoVersions (.write w keeps))
    (executed : schema.execute (context.policies db) db w = .ok db') : Homes db' := by
  cases Schema.execute_eq_ok.1 executed with
  | insert _ _ accepted => exact homes_insert homes constraints none accepted
  | update fires allowed _ => exact homes_update homes keeps fires allowed
  | delete _ => exact homes_delete homes

theorem insertsNoVersions {command : Command} (only : WritesOnly written command)
    (unlisted : .documentVersions ∉ written) : InsertsNoVersions command := by
  cases command with
  | write w keeps =>
    cases w with
    | insert rows => exact only _ unlisted
    | update _ _ | delete _ => trivial
  | setTenantContext _ _ | setWorkerContext _ | select _ _ => trivial

end Homes

/-! ## Transactions of a workspace -/

/-- A transaction that acts for a user in a workspace, and has not failed. -/
structure Acting (w userId : UUID) (tx : Transaction) : Prop where
  sound : tx.failed = false
  context : tx.settings.context = ⟨some userId, some w, none⟩
  constraints : Constraints tx.tables
  homes : Homes tx.tables

section Acting

variable {w userId : UUID} {tx tx' : Transaction} {t : TableName} {written : List TableName}
  {chosen : Record t → Bool}

theorem Acting.execute {command : Command} (acting : Acting w userId tx)
    (allowed : OfRoute written command) (unlisted : .documentVersions ∉ written) :
    (tx.execute command).2.failed = true ∨ Acting w userId (tx.execute command).2 := by
  have effect := Transaction.effect tx command
  generalize (tx.execute command).2 = tx' at effect ⊢
  cases effect with
  | same => exact .inr acting
  | tenant | worker => exact allowed.1.elim
  | wrote executed =>
    exact .inr ⟨acting.sound, acting.context,
      accepts_iff.1 (Schema.accepts_of_execute executed),
      homes_write _ acting.homes acting.constraints (insertsNoVersions allowed.2 unlisted) executed⟩
  | refused => exact .inl rfl

theorem Acting.run {χ α : Type} {p : Program Command Answer χ α} (acting : Acting w userId tx)
    (calls : p.Calls (OfRoute written)) (unlisted : .documentVersions ∉ written) :
    (p.run Transaction.execute tx).2.failed = true ∨
      Acting w userId (p.run Transaction.execute tx).2 := by
  refine Program.run_invariant
    (I := fun tx : Transaction => tx.failed = true ∨ Acting w userId tx) calls ?_ (.inr acting)
  rintro tx command allowed (failed | acting)
  · exact .inl (execute_failed failed)
  · exact acting.execute allowed unlisted

theorem Acting.isCurrent (acting : Acting w userId tx) {id : UUID} :
    tx.settings.context.isCurrent id = true ↔ id = w := by
  rw [acting.context]
  simp [Context.isCurrent, eq_comm]

/-- Rows of the workspace are open to the transaction. -/
theorem Acting.selects (acting : Acting w userId tx) {row : Record t}
    (here : ofWorkspace w t row = true) : tx.secured.select t row = true := by
  cases t with
  | users => rfl
  | workspaces =>
    obtain rfl := of_decide_eq_true here
    show (tx.settings.context.isCurrent row.id || _) = true
    rw [acting.isCurrent.mpr rfl, Bool.true_or]
  | workspaceMemberships =>
    obtain rfl := of_decide_eq_true here
    show (tx.settings.context.isCurrent row.workspaceId || _) = true
    rw [acting.isCurrent.mpr rfl, Bool.true_or]
  | jobs =>
    obtain rfl := of_decide_eq_true here
    show (tx.settings.context.isCurrent row.workspaceId || _) = true
    rw [acting.isCurrent.mpr rfl, Bool.true_or]
  | documents | documentVersions | documentChunks =>
    exact acting.isCurrent.mpr (of_decide_eq_true here)

theorem Acting.writes (acting : Acting w userId tx) {row : Record t}
    (here : ofWorkspace w t row = true) : tx.settings.context.writes t row = true := by
  cases t with
  | users => rfl
  | jobs =>
    obtain rfl := of_decide_eq_true here
    show (tx.settings.context.isCurrent row.workspaceId || _) = true
    rw [acting.isCurrent.mpr rfl, Bool.true_or]
  | workspaces | workspaceMemberships | documents | documentVersions | documentChunks =>
    exact acting.isCurrent.mpr (of_decide_eq_true here)

theorem Acting.inserts (acting : Acting w userId tx) {row : Record t} (other : t ≠ .workspaces)
    (here : ofWorkspace w t row = true) : tx.settings.context.inserts t row = true := by
  cases t with
  | users => rfl
  | workspaces => exact absurd rfl other
  | workspaceMemberships | documents | documentVersions | jobs | documentChunks =>
    exact acting.isCurrent.mpr (of_decide_eq_true here)

end Acting

/-! ## Statements -/

/-- The program does the same without row level security. -/
def Transparent {α : Type} (tx : Transaction) (p : Handler α) : Prop :=
  Program.Agrees Transaction.execute Transaction.executeUnsecured tx p

section Statements

variable {w userId : UUID} {tx tx' : Transaction} {t : TableName} {chosen : Record t → Bool}
  {α : Type} {error : ApiError}

theorem transparent_pure {a : α} : Transparent tx (pure a) := rfl

theorem transparent_throw : Transparent tx (throw error : Handler α) := rfl

theorem transparent_perform {command : Command}
    (same : tx.execute command = tx.executeUnsecured command) :
    Transparent tx (perform command) := by
  refine Program.agrees_call same ?_
  split <;> rfl

theorem transparent_setTenantContext {userId : UUID} {current : Option UUID} :
    Transparent tx (perform (.setTenantContext userId current)) :=
  transparent_perform rfl

theorem transparent_select
    (visible : ∀ row ∈ tx.tables t, chosen row = true → tx.secured.select t row = true) :
    Transparent tx (perform (.select t chosen)) := by
  refine transparent_perform ?_
  unfold Transaction.execute Transaction.executeUnsecured Transaction.executeUnder
  simp only [filter_view visible, view_bypass]

theorem transparent_write {write : Write Record} {keeps : KeepsKeys write}
    (isOpen : Schema.Open schema tx.secured tx.tables write) :
    Transparent tx (perform (.write write keeps)) := by
  refine transparent_perform ?_
  unfold Transaction.execute Transaction.executeUnsecured Transaction.executeUnder
  simp only [Schema.execute_bypass isOpen, Schema.returned_bypass isOpen]

/-! ### In front of the rest of a program -/

/-- What is selected may be used later. -/
theorem transparent_rows {rest : List (Record t) → Handler α} (sound : tx.failed = false)
    (visible : ∀ row ∈ tx.tables t, chosen row = true → tx.secured.select t row = true)
    (next : ∀ rows : List (Record t), (∀ row ∈ rows, row ∈ tx.tables t ∧ chosen row = true) →
      Transparent tx (rest rows)) :
    Transparent tx (perform (.select t chosen) >>= rest) := by
  refine (transparent_select visible).bind fun rows tx' ran => ?_
  rw [run_select sound] at ran
  cases ran
  refine next _ fun row member => ?_
  rw [filter_view visible] at member
  exact List.mem_filter.mp member

theorem transparent_scalar {rest : Option (Record t) → Handler α} (sound : tx.failed = false)
    (visible : ∀ row ∈ tx.tables t, chosen row = true → tx.secured.select t row = true)
    (next : ∀ found : Option (Record t),
      (∀ row, found = some row → row ∈ tx.tables t ∧ chosen row = true) →
      Transparent tx (rest found)) :
    Transparent tx (scalar t chosen >>= rest) := by
  rw [scalar, bind_assoc]
  refine transparent_rows sound visible fun rows chose => ?_
  rw [pure_bind]
  exact next _ fun row first => chose row (List.mem_of_head? first)

/-- A row that is selected, and is there. -/
theorem transparent_load {rest : Record t → Handler α} (sound : tx.failed = false)
    (visible : ∀ row ∈ tx.tables t, chosen row = true → tx.secured.select t row = true)
    (next : ∀ row ∈ tx.tables t, chosen row = true → Transparent tx (rest row)) :
    Transparent tx (scalar t chosen >>= fun found => raiseUnless found error >>= rest) := by
  refine transparent_scalar sound visible fun found chose => ?_
  cases found with
  | none => rfl
  | some row =>
    obtain ⟨member, holds⟩ := chose row rfl
    exact next row member holds

/-- Rows of the workspace are changed, and remain there. -/
theorem transparent_flush {set : Record t → Record t} {keeps : ∀ row, SameKey t row (set row)}
    {rest : Unit → Handler α} (acting : Acting w userId tx) (other : t ≠ .documentVersions)
    (here : ∀ row ∈ tx.tables t, chosen row = true → ofWorkspace w t row = true)
    (stays : ∀ row, ofWorkspace w t row = true → ofWorkspace w t (set row) = true)
    (fires : ∀ row view, trigger view t (some row) (set row) = true)
    (next : ∀ tx', Acting w userId tx' →
      (∀ row ∈ tx'.tables t, chosen row = true → ofWorkspace w t row = true) →
      Transparent tx' (rest ())) :
    Transparent tx (flushRow t chosen set keeps >>= rest) := by
  have writes : ∀ row ∈ tx.tables t, chosen row = true →
      (tx.secured.select t row = true ∧ tx.secured.update t row = true) ∧
        tx.secured.leavable t (set row) = true := by
    intro row member holds
    have here := here row member holds
    exact ⟨⟨acting.selects here, acting.writes here⟩,
      leavable_iff.2 ⟨acting.writes (stays row here), acting.selects (stays row here)⟩⟩
  have isOpen : Schema.Open schema tx.secured tx.tables
      (.update (Function.update (fun _ _ => false) t chosen)
        (Function.update (fun _ row => row) t set)) := by
    intro t' row member holds
    by_cases same : t' = t
    · subst same
      rw [Function.update_self] at holds ⊢
      obtain ⟨written, leaves⟩ := writes row member holds
      exact ⟨written, leaves, (fires row _).trans (fires row _).symm⟩
    · rw [Function.update_of_ne same] at holds
      cases holds
  refine Program.Agrees.bind (.bind (transparent_write isOpen) fun returned tx' ran => ?_)
    fun _ tx' ran => ?_
  · split <;> rfl
  · rw [flushRow, Program.run_bind, run_updateIn acting.sound] at ran
    cases executed : schema.execute tx.secured tx.tables
        (.update (Function.update (fun _ _ => false) t chosen)
          (Function.update (fun _ row => row) t set)) with
    | error reason => simp only [executed] at ran; cases ran
    | ok tables =>
      simp only [executed] at ran
      have left : tx' = { tx with tables } := by
        split at ran
        · exact (congrArg Prod.snd ran).symm
        · cases ran
      subst left
      refine next _ ⟨acting.sound, acting.context,
        accepts_iff.1 (Schema.accepts_of_execute executed), ?_⟩ fun row member holds => ?_
      · exact homes_write (keepsKeys_update keeps) acting.homes acting.constraints trivial
          executed
      · cases Schema.execute_eq_ok.1 executed with
        | update _ _ _ =>
          obtain ⟨old, member', rfl⟩ := List.mem_map.mp member
          split at holds
          next changed =>
            have chose := (updatable_iff.1 changed).1
            rw [Function.update_self] at chose
            rw [if_pos changed, Function.update_self]
            exact stays old (here old member' chose)
          next unchanged => rw [if_neg unchanged]; exact here old member' holds

theorem transparent_insert {row : Record t} (acting : Acting w userId tx) (other : t ≠ .workspaces)
    (here : ofWorkspace w t row = true) (fires : ∀ view, trigger view t none row = true) :
    Transparent tx (perform (.insertInto t row)) := by
  refine transparent_write fun t' row' member => ?_
  by_cases same : t' = t
  · subst same
    rw [Function.update_self] at member
    obtain rfl := List.mem_singleton.mp member
    exact ⟨insertable_iff.2 ⟨acting.inserts other here, acting.selects here⟩,
      (fires _).trans (fires _).symm⟩
  · rw [Function.update_of_ne same] at member
    cases member

theorem transparent_delete (acting : Acting w userId tx)
    (here : ∀ row ∈ tx.tables t, chosen row = true → ofWorkspace w t row = true) :
    Transparent tx (perform (.deleteFrom t chosen)) := by
  refine transparent_write fun t' row member holds => ?_
  by_cases same : t' = t
  · subst same
    rw [Function.update_self] at holds
    have here := here row member holds
    exact ⟨acting.selects here, acting.writes here⟩
  · rw [Function.update_of_ne same] at holds
    cases holds

theorem transparent_mapM {β : Type} {f : β → Handler α} {l : List β}
    (each : ∀ b ∈ l, Transparent tx (f b))
    (same : ∀ b ∈ l, ∀ a tx', (f b).run Transaction.execute tx = (.ok a, tx') → tx' = tx) :
    Transparent tx (l.mapM f) := by
  induction l with
  | nil => exact transparent_pure
  | cons b l ih =>
    rw [List.mapM_cons]
    refine (each b List.mem_cons_self).bind fun a tx' ran => ?_
    obtain rfl := same b List.mem_cons_self a tx' ran
    have rest := ih (fun b member => each b (List.mem_cons_of_mem _ member))
      fun b member => same b (List.mem_cons_of_mem _ member)
    exact rest.bind fun _ _ _ => transparent_pure

/-- A program without commands. -/
theorem transparent_memberResponse {users : List UserRow} {membership : MembershipRow} :
    Transparent tx (memberResponse users membership) := by
  unfold memberResponse
  split <;> rfl

theorem run_memberResponse {users : List UserRow} {membership : MembershipRow}
    {a : MembershipResponse}
    (ran : (memberResponse users membership).run Transaction.execute tx = (.ok a, tx')) :
    tx' = tx := by
  unfold memberResponse at ran
  split at ran
  · exact (congrArg Prod.snd ran).symm
  · cases ran

theorem transparent_documentResponse {document : DocumentRow} (acting : Acting w userId tx)
    (member : document ∈ tx.tables .documents) (here : document.workspaceId = w) :
    Transparent tx (documentResponse document) := by
  refine transparent_rows acting.sound (fun row inVersions chose => ?_) fun _ _ => transparent_pure
  refine acting.selects (t := .documentVersions) (decide_eq_true ?_)
  rw [acting.homes row inVersions document member (of_decide_eq_true chose).symm, here]

theorem run_documentResponse {document : DocumentRow} (sound : tx.failed = false) :
    (documentResponse document).run Transaction.execute tx =
      (.ok (responseOf document (newestFirst
        (((tx.secured.view tx.tables .documentVersions).filter
          fun row => row.documentId = document.id))).head?), tx) := by
  simp only [documentResponse, Program.run_bind, run_select sound, Program.run_pure]

end Statements

/-! ## Routes -/

section Routes

variable {env : Environment} {w : UUID} {principal : UserRow} {access : MembershipRow}
  {tx : Transaction}

/-- Rows with the key of a row of the workspace are this row. -/
theorem here_of_key {t : TableName} {rows : List (Record t)} (id : Record t → UUID)
    (unique : (rows.map id).Nodup) {row : Record t} (member : row ∈ rows)
    (here : ofWorkspace w t row = true) :
    ∀ other ∈ rows, decide (id other = id row) = true → ofWorkspace w t other = true := by
  intro other member' same
  rw [List.inj_on_of_nodup_map unique member' member (of_decide_eq_true same)]
  exact here

theorem transparent_handle (acting : Acting w principal.id tx) (route : WorkspaceRoute) :
    Transparent tx (route.handle env w principal access) := by
  cases route with
  | getWorkspace =>
    exact transparent_load acting.sound
      (fun row _ chose => acting.selects (t := .workspaces) chose) fun _ _ _ => transparent_pure
  | updateWorkspace name =>
    refine transparent_load acting.sound
      (fun row _ chose => acting.selects (t := .workspaces) chose) fun workspace _ chose => ?_
    split
    · exact transparent_pure
    · obtain rfl := of_decide_eq_true chose
      refine transparent_flush acting (by simp) (fun row _ holds => holds) (fun row holds => holds)
        (fun _ _ => rfl) fun _ _ _ => transparent_pure
  | listMembers =>
    refine transparent_rows acting.sound
      (fun row _ chose => acting.selects (t := .workspaceMemberships) chose) fun memberships _ => ?_
    refine transparent_rows acting.sound (fun _ _ _ => rfl) fun users _ => ?_
    exact (transparent_mapM (fun _ _ => transparent_memberResponse)
      fun _ _ _ _ => run_memberResponse).bind fun _ _ _ => transparent_pure
  | addMember payload =>
    show Transparent tx (Tenancy.addMember env w access payload)
    unfold Tenancy.addMember
    split
    · refine transparent_load acting.sound (fun _ _ _ => rfl) fun user _ _ => ?_
      refine Program.Agrees.bind (.tryCatch ?_ fun error _ _ => ?_) fun _ _ _ => transparent_pure
      · exact (transparent_insert (t := .workspaceMemberships) acting (by simp)
          (decide_eq_true rfl) fun _ => rfl).bind fun _ _ _ => transparent_pure
      · split <;> rfl
    · exact transparent_throw
  | updateMember membershipId payload =>
    show Transparent tx (Tenancy.updateMember env w principal access membershipId payload)
    rw [Tenancy.updateMember, loadTargetMembership, bind_assoc]
    refine transparent_load acting.sound (fun row _ chose => ?_) fun target member chose => ?_
    · rw [Bool.and_eq_true] at chose
      exact acting.selects (t := .workspaceMemberships) chose.2
    rw [Bool.and_eq_true] at chose
    refine transparent_rows acting.sound (fun _ _ _ => rfl) fun users _ => ?_
    split
    · exact transparent_throw
    split
    · exact transparent_throw
    split
    · exact transparent_memberResponse.bind fun _ _ _ => transparent_pure
    · refine transparent_flush acting (by simp) ?_ (fun row holds => holds) (fun _ _ => rfl)
        fun _ _ _ => transparent_memberResponse.bind fun _ _ _ => transparent_pure
      exact here_of_key (t := .workspaceMemberships) (fun row : MembershipRow => row.id)
        acting.constraints.memberships.1 member chose.2
  | removeMember membershipId =>
    show Transparent tx (Tenancy.removeMember w principal access membershipId)
    rw [Tenancy.removeMember, loadTargetMembership, bind_assoc]
    refine transparent_load acting.sound (fun row _ chose => ?_) fun target member chose => ?_
    · rw [Bool.and_eq_true] at chose
      exact acting.selects (t := .workspaceMemberships) chose.2
    rw [Bool.and_eq_true] at chose
    split
    · exact transparent_throw
    split
    · exact transparent_throw
    · refine (transparent_delete acting ?_).bind fun _ _ _ => transparent_pure
      exact here_of_key (t := .workspaceMemberships) (fun row : MembershipRow => row.id)
        acting.constraints.memberships.1 member chose.2
  | listDocuments =>
    refine transparent_rows acting.sound (fun row _ chose => ?_) fun documents chose => ?_
    · rw [Bool.and_eq_true] at chose
      exact acting.selects (t := .documents) chose.1
    · refine (transparent_mapM (fun document member => ?_) fun document _ response tx' ran => ?_).bind
        fun _ _ _ => transparent_pure
      · obtain ⟨listed, chose⟩ := chose document (Table.mem_orderBy.1 member)
        rw [Bool.and_eq_true] at chose
        exact transparent_documentResponse acting listed (of_decide_eq_true chose.1)
      · rw [run_documentResponse acting.sound] at ran
        exact (congrArg Prod.snd ran).symm
  | getDocument documentId =>
    show Transparent tx (Tenancy.getDocument w documentId)
    rw [Tenancy.getDocument, loadDocument, bind_assoc]
    refine transparent_load acting.sound (fun row _ chose => ?_) fun document member chose => ?_
    · simp only [Bool.and_eq_true] at chose
      exact acting.selects (t := .documents) chose.1.2
    simp only [Bool.and_eq_true, decide_eq_true_eq] at chose
    refine transparent_rows acting.sound (fun row inVersions chose' => ?_) fun versions _ => ?_
    · refine acting.selects (t := .documentVersions) (decide_eq_true ?_)
      rw [acting.homes row inVersions document member (of_decide_eq_true chose').symm, chose.1.2]
    refine transparent_rows acting.sound
      (fun row _ chose => acting.selects (t := .jobs) chose) fun jobs _ => ?_
    exact (transparent_documentResponse acting member chose.1.2).bind
      fun _ _ _ => transparent_pure
  | updateDocument documentId displayName =>
    show Transparent tx (Tenancy.updateDocument env w documentId displayName)
    rw [Tenancy.updateDocument, loadDocument, bind_assoc]
    refine transparent_load acting.sound (fun row _ chose => ?_) fun document member chose => ?_
    · simp only [Bool.and_eq_true] at chose
      exact acting.selects (t := .documents) chose.1.2
    simp only [Bool.and_eq_true] at chose
    have rest : ∀ tx', Acting w principal.id tx' → (∀ row ∈ tx'.tables .documents,
        decide (row.id = document.id) = true → ofWorkspace w .documents row = true) →
        Transparent tx' (do
          let refreshed ← refresh .documents fun row => row.id = document.id
          let response ← documentResponse refreshed
          return Response.document response) := by
      intro tx' acting here
      rw [refresh, bind_assoc]
      refine transparent_load acting.sound
        (fun row member chose => acting.selects (here row member chose)) fun row member chose => ?_
      exact (transparent_documentResponse acting member
        (of_decide_eq_true (here row member chose))).bind fun _ _ _ => transparent_pure
    have here := here_of_key (t := .documents) (fun row : DocumentRow => row.id)
      acting.constraints.documents.1 member chose.1.2
    unfold rename
    split
    · exact rest tx acting here
    · exact transparent_flush acting (by simp) here (fun row holds => holds)
        (fun row view => by simp [trigger]) rest
  | deleteDocument documentId =>
    show Transparent tx (Tenancy.deleteDocument env w documentId)
    rw [Tenancy.deleteDocument, loadDocument, bind_assoc]
    refine transparent_load acting.sound (fun row _ chose => ?_) fun document member chose => ?_
    · simp only [Bool.and_eq_true] at chose
      exact acting.selects (t := .documents) chose.1.2
    simp only [Bool.and_eq_true] at chose
    refine transparent_flush acting (by simp) ?_ (fun row holds => holds)
      (fun row view => by simp [trigger, Database.activeVersionValid]) fun tx' acting' _ => ?_
    · exact here_of_key (t := .documents) (fun row : DocumentRow => row.id)
        acting.constraints.documents.1 member chose.1.2
    · exact (transparent_insert (t := .jobs) acting' (by simp) (decide_eq_true rfl)
        fun _ => rfl).bind fun _ _ _ => transparent_pure
  | retryDocumentJob jobId =>
    refine transparent_load acting.sound (fun row _ chose => ?_) fun job member chose => ?_
    · rw [Bool.and_eq_true] at chose
      exact acting.selects (t := .jobs) chose.2
    rw [Bool.and_eq_true] at chose
    split
    · exact transparent_throw
    · refine transparent_flush acting (by simp) ?_ (fun row holds => holds) (fun _ _ => rfl)
        fun tx' acting' here => ?_
      · exact here_of_key (t := .jobs) (fun row : JobRow => row.id)
          acting.constraints.jobs.1 member chose.2
      · rw [refresh, bind_assoc]
        exact transparent_load acting'.sound
          (fun row member chose => acting'.selects (here row member chose))
          fun _ _ _ => transparent_pure

end Routes

/-! ## Requests -/

section Requests

variable {env : Environment} {tx : Transaction} {sub : Option UUID} {α : Type}

theorem transparent_currentPrincipal (sound : tx.failed = false) :
    Transparent tx (currentPrincipal sub) := by
  unfold currentPrincipal
  cases sub with
  | none => rfl
  | some id =>
    refine transparent_load sound (fun _ _ _ => rfl) fun user _ _ => ?_
    split
    · exact transparent_setTenantContext.bind fun _ _ _ => transparent_pure
    · exact transparent_throw

theorem transparent_principal {rest : UserRow → Handler α} (sound : tx.failed = false)
    (next : ∀ user, Transparent { tx with settings := tx.settings.setTenantContext user.id none }
      (rest user)) :
    Transparent tx (currentPrincipal sub >>= rest) := by
  refine (transparent_currentPrincipal sound).bind fun user tx' ran => ?_
  rw [run_currentPrincipal sound] at ran
  split at ran
  · cases ran
  · split at ran
    · cases ran
      exact next user
    · cases ran

theorem transparent_listWorkspaces {principal : UserRow} (sound : tx.failed = false) :
    Transparent { tx with settings := tx.settings.setTenantContext principal.id none }
      (listWorkspaces env principal) := by
  have user : ∀ row : MembershipRow, decide (row.userId = principal.id) = true →
      (tx.settings.setTenantContext principal.id none).context.isUser row.userId = true := by
    intro row chose
    simpa [context_setTenantContext, Context.isUser, eq_comm] using chose
  refine transparent_rows (by exact sound) (fun row _ chose => ?_) fun memberships chose => ?_
  · show Context.seesMembership (tx.settings.setTenantContext principal.id none).context row = true
    rw [Context.seesMembership, user row chose, Bool.or_true]
  refine transparent_rows (by exact sound) (fun row _ chose' => ?_) fun _ _ => transparent_pure
  -- a workspace that the user is a member of
  obtain ⟨membership, member, same⟩ := List.any_eq_true.mp chose'
  obtain ⟨listed, own⟩ := chose membership member
  have found : row.id ∈ (tx.settings.setTenantContext principal.id none).context.memberOf
      tx.tables := mem_memberOf.2 ⟨membership, listed, of_decide_eq_true same, user _ own⟩
  show (Context.isCurrent (tx.settings.setTenantContext principal.id none).context row.id ||
    ((tx.settings.setTenantContext principal.id none).context.memberOf
      tx.tables).contains row.id) = true
  rw [List.contains_iff_mem.mpr found, Bool.or_true]

/-- Statements of an identity that has just been set. -/
theorem acting_setTenantContext (w userId : UUID) {settings : Settings} {tables : Tables}
    (worker : settings.context.workerId = none) (constraints : Constraints tables)
    (homes : Homes tables) :
    Acting w userId ⟨tables, settings.setTenantContext userId (some w), false⟩ where
  sound := rfl
  context := by simp only [context_setTenantContext, worker]
  constraints := constraints
  homes := homes

theorem transparent_createWorkspace {principal : UserRow} {name slug : Text} {settings : Settings}
    {tables : Tables} (worker : settings.context.workerId = none)
    (constraints : Constraints tables) (homes : Homes tables) :
    Transparent ⟨tables, settings, false⟩ (createWorkspace env principal name slug) := by
  refine transparent_setTenantContext.bind fun _ tx' ran => ?_
  rw [run_setTenantContext rfl] at ran
  cases ran
  have acting := acting_setTenantContext env.drawnId principal.id worker
    constraints homes
  have isOpen : Schema.Open schema (Transaction.secured
      ⟨tables, settings.setTenantContext principal.id (some env.drawnId), false⟩) tables
      (.insert (Function.update emptyTables .workspaces
        [⟨⟨env.drawnId, slug, principal.id⟩, strip name, env.now, env.now⟩])) := by
    intro t row member
    by_cases same : t = .workspaces
    · subst same
      rw [Function.update_self] at member
      obtain rfl := List.mem_singleton.mp member
      refine ⟨insertable_iff.2 ⟨?_, acting.selects (t := .workspaces) (decide_eq_true rfl)⟩, rfl⟩
      show (Context.isCurrent (settings.setTenantContext principal.id (some env.drawnId)).context
        env.drawnId && Context.isUser _ principal.id) = true
      rw [show (settings.setTenantContext principal.id (some env.drawnId)).context = _ from
        acting.context]
      simp [Context.isCurrent, Context.isUser]
    · rw [Function.update_of_ne same] at member
      cases member
  refine Program.Agrees.bind (.tryCatch ?_ fun error _ _ => ?_) fun _ _ _ => transparent_pure
  · refine (transparent_write isOpen).bind fun _ tx' ran => ?_
    · replace ran := (run_write rfl).symm.trans ran
      cases executed : schema.execute (Transaction.secured
          ⟨tables, settings.setTenantContext principal.id (some env.drawnId), false⟩) tables
          (.insert (Function.update emptyTables .workspaces
            [⟨⟨env.drawnId, slug, principal.id⟩, strip name, env.now, env.now⟩])) with
      | error reason => simp only [executed] at ran; cases ran
      | ok tables' =>
        simp only [executed] at ran
        cases ran
        have acting' := acting_setTenantContext env.drawnId principal.id worker
          (accepts_iff.1 (Schema.accepts_of_execute executed))
          (homes_write (w := .insert _) trivial homes constraints (by exact rfl) executed)
        exact (transparent_insert (t := .workspaceMemberships) acting' (by simp)
          (decide_eq_true rfl) fun _ => rfl).bind fun _ _ _ => transparent_pure
  · split <;> rfl

theorem transparent_request {s : Server} (sound : Sound s) (homes : Homes s.tables)
    (connection : ConnectionId) (request : Request) :
    Transparent (.start s.tables (s.sessions connection)) (request.handle env sub) := by
  have worker : (s.sessions connection).context.workerId = none := by
    rw [sound.nobody connection]
    rfl
  cases request with
  | listWorkspaces => exact transparent_principal rfl fun _ => transparent_listWorkspaces rfl
  | createWorkspace name slug =>
    exact transparent_principal rfl fun _ =>
      transparent_createWorkspace worker sound.inScope.constraints homes
  | ofWorkspace w route =>
    refine transparent_principal rfl fun user => ?_
    refine Program.Agrees.bind ?_ fun membership tx' ran => ?_
    · refine transparent_setTenantContext.bind fun _ tx' ran => ?_
      rw [run_setTenantContext rfl] at ran
      cases ran
      have acting := acting_setTenantContext w user.id
        (show ((s.sessions connection).setTenantContext user.id none).context.workerId = none
          from worker) sound.inScope.constraints homes
      refine transparent_load rfl (fun row _ chose => ?_) fun membership _ _ => ?_
      · rw [Bool.and_eq_true] at chose
        exact acting.selects (t := .workspaceMemberships) chose.1
      · split <;> rfl
    · rw [run_workspaceAccess rfl] at ran
      obtain rfl := congrArg Prod.snd ran
      exact transparent_handle
        (acting_setTenantContext w user.id worker sound.inScope.constraints homes) route

end Requests

/-! ## The server without policies -/

namespace Server

def answeredUnsecured (s : Server) (received : Received) :
    Except ApiError Response × Transaction :=
  (received.request.handle received.env received.sub).run Transaction.executeUnsecured
    (.start s.tables (s.sessions received.connection))

def serveUnsecured (s : Server) (received : Received) : Option Server :=
  let ended := received.event.program.run Transaction.executeUnsecured
    (.start s.tables (s.sessions received.connection))
  some {
    tables := Transaction.outcome s.tables ended
    sessions := Function.update s.sessions received.connection
      ((s.sessions received.connection).ended ended.2.settings) }

end Server

section Policies

variable {s s' : Server} {received : Received}

theorem answered_eq (sound : Sound s) (homes : Homes s.tables) (received : Received) :
    s.answered received = s.answeredUnsecured received :=
  transparent_request sound homes received.connection received.request

theorem serve_eq (sound : Sound s) (homes : Homes s.tables) (received : Received) :
    s.serve received = s.serveUnsecured received := by
  have same : received.event.program.run Transaction.execute
        (.start s.tables (s.sessions received.connection)) =
      received.event.program.run Transaction.executeUnsecured
        (.start s.tables (s.sessions received.connection)) :=
    (transparent_request sound homes received.connection received.request).bind
      fun _ _ _ => transparent_pure
  show s.next received.event = _
  rw [Server.next, Server.ran]
  show some _ = some _
  rw [show received.event.connection = received.connection from rfl, same]

theorem homes_serve (sound : Sound s) (homes : Homes s.tables)
    (taken : stepOf Server.serve s received s') : Homes s'.tables := by
  refine serve_keeps taken homes ?_
  refine (Program.run_invariant
    (I := fun tx : Transaction => Constraints tx.tables ∧ Homes tx.tables)
    (show Program.Calls InsertsNoVersions _ from ?_) ?_
    ⟨sound.inScope.constraints, homes⟩).2
  · cases received.request with
    | listWorkspaces => 
      exact calls_listWorkspaces.mono fun _ only => insertsNoVersions only (by simp)
    | createWorkspace name slug =>
      refine calls_createWorkspace (fun _ _ => trivial) (fun _ _ _ => trivial) ?_
      rintro t row (rfl | rfl) <;> rfl
    | ofWorkspace w route =>
      refine .bind (calls_currentPrincipal fun command allowed => ?_) fun user => ?_
      · cases command with
        | write w keeps => exact allowed.elim
        | setTenantContext _ _ | setWorkerContext _ | select _ _ => trivial
      refine .bind (.bind (calls_perform trivial) fun _ => ?_) fun membership => ?_
      · refine .bind (calls_scalar trivial) fun found => .bind calls_raiseUnless fun membership => ?_
        split <;> trivial
      · exact (calls_handle _ _ _ _ route).mono fun _ allowed => insertsNoVersions allowed.2
          (by cases route <;> simp [WorkspaceRoute.writes])
  · rintro tx command none ⟨constraints, homes⟩
    have effect := Transaction.effect tx command
    generalize (tx.execute command).2 = tx' at effect ⊢
    cases effect with
    | same | tenant | worker | refused => exact ⟨constraints, homes⟩
    | wrote executed =>
      exact ⟨accepts_iff.1 (Schema.accepts_of_execute executed),
        homes_write _ homes constraints none executed⟩

/-- The owner renames the document, lists the documents and retires the document. -/
def sampleDocumentRequests : List Received :=
  [⟨1, sampleEnvironment, some 1, .ofWorkspace 10 (.updateDocument 11 ['e'])⟩,
    ⟨1, sampleEnvironment, some 1, .ofWorkspace 10 .listDocuments⟩,
    ⟨1, sampleEnvironment, some 1, .ofWorkspace 10 (.deleteDocument 11)⟩]

end Policies

end SupportPilot.Tenancy
