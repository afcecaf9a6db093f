import SupportPilot.Tenancy.Isolation

/-! # What a transaction can learn

A transaction of a user in a workspace is told the same, and leaves the same to be seen, in all
databases that look alike to the user in the workspace, whatever its program makes of the answers
on the way.  Only that a statement is refused can depend on rows that are hidden, as keys and
unique constraints are checked against all rows. -/

namespace SupportPilot.Tenancy

open Lib Policies Deletion

/-- The two databases look the same in the context. -/
def Alike (context : Context) (db db' : Tables) : Prop :=
  (context.policies db).view db = (context.policies db').view db'

/-- The context shows at most what the other shows. -/
structure Context.Within (context limit : Context) : Prop where
  userId : ∀ id, context.userId = some id → limit.userId = some id
  workspaceId : ∀ id, context.workspaceId = some id → limit.workspaceId = some id
  workerId : context.isWorker = true → limit.isWorker = true

/-- A command with which a transaction stays within the limit. -/
def StaysWithin (limit : Context) : Command → Prop
  | .setTenantContext userId workspaceId => limit.userId = some userId ∧
      ∀ id, workspaceId = some id → limit.workspaceId = some id
  | .setWorkerContext _ => limit.isWorker = true
  | .select _ _ => True
  | .write _ _ => True

section Views

variable {context limit : Context} {db db' after : Tables} {t : TableName}

theorem isCurrent_within (within : context.Within limit) {id : UUID}
    (current : context.isCurrent id = true) : limit.isCurrent id = true :=
  decide_eq_true (within.workspaceId id (of_decide_eq_true current))

theorem isUser_within (within : context.Within limit) {id : UUID}
    (user : context.isUser id = true) : limit.isUser id = true :=
  decide_eq_true (within.userId id (of_decide_eq_true user))

theorem seesMembership_within (within : context.Within limit) {row : MembershipRow}
    (sees : context.seesMembership row = true) : limit.seesMembership row = true := by
  simp only [Context.seesMembership, Bool.or_eq_true] at sees ⊢
  exact sees.imp (isCurrent_within within) (isUser_within within)

theorem mem_memberOf {id : UUID} : id ∈ context.memberOf db ↔
    ∃ row ∈ db .workspaceMemberships, row.workspaceId = id ∧ context.isUser row.userId = true := by
  simp only [Context.memberOf, List.mem_map, List.mem_filter, Context.seesMembership,
    Bool.or_eq_true]
  constructor
  · rintro ⟨row, ⟨⟨member, -⟩, user⟩, rfl⟩
    exact ⟨row, member, rfl, user⟩
  · rintro ⟨row, member, rfl, user⟩
    exact ⟨row, ⟨⟨member, .inr user⟩, user⟩, rfl⟩

theorem selects_within (within : context.Within limit) {row : Record t}
    (selects : context.selects db t row = true) : limit.selects db t row = true := by
  cases t with
  | users => rfl
  | workspaces =>
    simp only [Context.selects, Bool.or_eq_true, List.contains_iff_mem] at selects ⊢
    refine selects.imp (isCurrent_within within) fun member => ?_
    obtain ⟨membership, inTable, same, user⟩ := mem_memberOf.1 member
    exact mem_memberOf.2 ⟨membership, inTable, same, isUser_within within user⟩
  | workspaceMemberships => exact seesMembership_within within selects
  | jobs =>
    simp only [Context.selects, Bool.or_eq_true] at selects ⊢
    exact selects.imp (isCurrent_within within) within.workerId
  | documents | documentVersions | documentChunks => exact isCurrent_within within selects

/-- What a context shows is chosen from what a wider one shows. -/
theorem view_within (within : context.Within limit) (db : Tables) (t : TableName) :
    (context.policies db).view db t =
      ((limit.policies db).view db t).filter (context.selects db t) := by
  rw [Policies.view, Policies.view, List.filter_filter]
  refine List.filter_congr fun row _ => ?_
  show context.selects db t row = (context.selects db t row && limit.selects db t row)
  cases selects : context.selects db t row with
  | false => rfl
  | true => rw [selects_within within selects]; rfl

/-- The visible memberships tell of which workspaces the user is a member. -/
theorem memberOf_view (db : Tables) : context.memberOf db =
    (((context.policies db).view db .workspaceMemberships).filter fun row =>
      context.isUser row.userId).map fun row => row.workspaceId := rfl

theorem selects_congr (same : context.memberOf db = context.memberOf db') :
    context.selects db = context.selects db' := by
  funext t row
  cases t with
  | workspaces => simp only [Context.selects, same]
  | users | workspaceMemberships | documents | documentVersions | jobs | documentChunks => rfl

theorem policies_congr (same : context.memberOf db = context.memberOf db') :
    context.policies db = context.policies db' := by
  simp only [Context.policies, selects_congr same]

namespace Alike

theorem memberOf (alike : Alike limit db db') : limit.memberOf db = limit.memberOf db' := by
  rw [memberOf_view, memberOf_view, alike]

theorem mono (alike : Alike limit db db') (within : context.Within limit) :
    Alike context db db' := by
  have memberships : (context.policies db).view db .workspaceMemberships =
      (context.policies db').view db' .workspaceMemberships := by
    rw [view_within within, view_within within, alike]
    rfl
  have same : context.memberOf db = context.memberOf db' := by
    rw [memberOf_view, memberOf_view, memberships]
  funext t
  rw [view_within within, view_within within, alike, selects_congr same]

/-- The rows that are visible in one of them are rows of both. -/
theorem mem_iff (alike : Alike limit db db') {row : Record t}
    (visible : limit.selects db t row = true) : row ∈ db t ↔ row ∈ db' t := by
  have visible' : limit.selects db' t row = true := selects_congr alike.memberOf ▸ visible
  have same : row ∈ (limit.policies db).view db t ↔ row ∈ (limit.policies db').view db' t := by
    rw [alike]
  rw [mem_view, mem_view] at same
  exact ⟨fun member => (same.1 ⟨member, visible⟩).1, fun member => (same.2 ⟨member, visible'⟩).1⟩

theorem any (alike : Alike limit db db') {p : Record t → Bool}
    (visible : ∀ row, p row = true → limit.selects db t row = true) :
    (db t).any p = (db' t).any p := by
  rw [Bool.eq_iff_iff, List.any_eq_true, List.any_eq_true]
  refine exists_congr fun row => and_congr_left fun holds => ?_
  exact alike.mem_iff (visible row holds)

theorem refl (db : Tables) : Alike context db db := rfl

end Alike

/-! ## Deleting -/

variable {chosen : Where Record}

/-- A statement of the context deletes rows of its workspace, which the limit shows. -/
structure Chooses (context : Context) (chosen : Where Record) : Prop where
  workspaces : ∀ row, chosen .workspaces row = true → context.isCurrent row.id = true
  documents : ∀ row, chosen .documents row = true → context.isCurrent row.workspaceId = true
  versions : ∀ row, chosen .documentVersions row = true → context.isCurrent row.workspaceId = true

theorem chooses_deletable (chosen : Where Record) :
    Chooses context ((context.policies db).deletable chosen) where
  workspaces _ holds := (deletable_iff.1 holds).2.2
  documents _ holds := (deletable_iff.1 holds).2.2
  versions _ holds := (deletable_iff.1 holds).2.2

section Cascade

variable (within : context.Within limit) (chooses : Chooses context chosen)
  (alike : Alike limit db db')

include alike in
theorem userGone_alike : userGone db chosen = userGone db' chosen := by
  funext id
  exact alike.any fun _ _ => rfl

include within chooses alike

theorem workspaceGone_alike : workspaceGone db chosen = workspaceGone db' chosen := by
  funext id
  refine alike.any fun row gone => ?_
  rw [Bool.and_eq_true] at gone
  have current := isCurrent_within within (chooses.workspaces row gone.1)
  show (limit.isCurrent row.id || _) = true
  rw [current, Bool.true_or]

omit alike in
theorem isCurrent_of_workspaceGone {id : UUID} (gone : workspaceGone db chosen id = true) :
    limit.isCurrent id = true := by
  obtain ⟨row, -, both⟩ := List.any_eq_true.mp gone
  simp only [Bool.and_eq_true, decide_eq_true_eq] at both
  exact both.2 ▸ isCurrent_within within (chooses.workspaces row both.1)

theorem documentGone_alike : documentGone db chosen = documentGone db' chosen := by
  funext id
  have workspaces := workspaceGone_alike within chooses alike
  rw [documentGone, documentGone]
  simp only [documentGoes, workspaces]
  refine alike.any fun row gone => ?_
  simp only [Bool.and_eq_true, Bool.or_eq_true] at gone
  obtain chose | swept := gone.1
  · exact isCurrent_within within (chooses.documents row chose)
  · rw [← workspaces] at swept
    exact isCurrent_of_workspaceGone within chooses swept

theorem versionGoes_alike : versionGoes db chosen = versionGoes db' chosen := by
  funext row
  rw [versionGoes, versionGoes, workspaceGone_alike within chooses alike,
    documentGone_alike within chooses alike]

/-- A version with a key that the limit shows is gone in both or in none. -/
theorem versionGone_alike (inScope : Scoped db) (inScope' : Scoped db') {version : VersionRow}
    (member : version ∈ db .documentVersions) (here : limit.isCurrent version.workspaceId = true) :
    versionGone db chosen version.id = versionGone db' chosen version.id := by
  have member' : version ∈ db' .documentVersions :=
    (alike.mem_iff (t := .documentVersions) here).mp member
  have goes := congrFun (versionGoes_alike within chooses alike) version
  have gone : ∀ {db : Tables}, Scoped db → version ∈ db .documentVersions →
      versionGone db chosen version.id = versionGoes db chosen version := by
    intro db inScope member
    rw [Bool.eq_iff_iff]
    constructor
    · exact goes_of_gone inScope.constraints.versions.1 member
    · intro going
      exact List.any_eq_true.mpr ⟨version, member, by simpa using going⟩
  rw [gone inScope member, gone inScope' member', goes]

/-- A visible row goes in both or in none, and is kept alike. -/
theorem cascade_row (inScope : Scoped db) (inScope' : Scoped db') {row : Record t}
    (member : row ∈ db t) (visible : limit.selects db t row = true) :
    goes db chosen t row = goes db' chosen t row ∧
      kept db chosen t row = kept db' chosen t row := by
  have users : userGone db chosen = userGone db' chosen := userGone_alike alike
  have workspaces := workspaceGone_alike within chooses alike
  have documents := documentGone_alike within chooses alike
  have versions := versionGoes_alike within chooses alike
  cases t with
  | users => exact ⟨rfl, rfl⟩
  | workspaces => exact ⟨rfl, rfl⟩
  | workspaceMemberships => exact ⟨by rw [goes, goes, workspaces, users], rfl⟩
  | documents =>
    refine ⟨by rw [goes, goes, documentGoes, documentGoes, workspaces], ?_⟩
    show unlinked db chosen row = unlinked db' chosen row
    cases active : row.activeVersionId with
    | none => simp only [unlinked, active, Option.any_none]
    | some id =>
      obtain ⟨version, inVersions, rfl, -, here⟩ := inScope.documents row member id active
      have same := versionGone_alike within chooses alike inScope inScope' inVersions
        (by rw [here]; exact visible)
      simp only [unlinked, active, Option.any_some, same]
  | documentVersions => exact ⟨congrFun versions row, rfl⟩
  | jobs => exact ⟨by rw [goes, goes, workspaces], rfl⟩
  | documentChunks =>
    obtain ⟨version, inVersions, id, -, here, -⟩ := inScope.chunks row member
    have same := versionGone_alike within chooses alike inScope inScope' inVersions
      (by rw [here]; exact visible)
    rw [id] at same
    exact ⟨by rw [goes, goes, workspaces, documents, same], rfl⟩

theorem pick_cascade (inScope : Scoped db) (inScope' : Scoped db') :
    Schema.pick (limit.selects db) (cascade db chosen) =
      Schema.pick (limit.selects db) (cascade db' chosen) := by
  have shown : ∀ (db'' : Tables) (t : TableName) (row : Record t),
      limit.selects db t (kept db'' chosen t row) = limit.selects db t row := by
    intro db'' t row
    cases t with
    | documents => exact congrArg limit.isCurrent (unlinked_workspaceId row)
    | users | workspaces | workspaceMemberships | documentVersions | jobs | documentChunks => rfl
  have split : ∀ (db'' : Tables) (t : TableName),
      (cascade db'' chosen t).filter (limit.selects db t) =
        (((db'' t).filter (limit.selects db t)).filter fun row => !goes db'' chosen t row).map
          (kept db'' chosen t) := by
    intro db'' t
    rw [cascade, List.filter_map, List.filter_filter, List.filter_filter]
    congr 1
    refine List.filter_congr fun row _ => ?_
    rw [Function.comp_apply, shown, Bool.and_comm]
  have view : ∀ t, (db t).filter (limit.selects db t) = (db' t).filter (limit.selects db t) := by
    intro t
    have same : (limit.policies db).view db t = (limit.policies db').view db' t := by rw [alike]
    rw [Policies.view, Policies.view, policies_congr alike.memberOf.symm] at same
    exact same
  funext t
  show (cascade db chosen t).filter _ = (cascade db' chosen t).filter _
  rw [split, split, ← view]
  have rows := fun row (member : row ∈ (db t).filter (limit.selects db t)) =>
    cascade_row within chooses alike inScope inScope' (List.mem_filter.mp member).1
      (List.mem_filter.mp member).2
  rw [List.filter_congr fun row member => by rw [(rows row member).1]]
  refine List.map_congr_left fun row member => ?_
  exact (rows row (List.mem_filter.mp member).1).2

end Cascade

/-! ## One write -/

/-- After a write in the context the limit shows no old row that it did not show before. -/
theorem selects_after {w : Write Record} (within : context.Within limit)
    (executed : schema.execute (context.policies db) db w = .ok after) {row : Record t}
    (visible : limit.selects after t row = true) : limit.selects db t row = true := by
  have memberships : ∀ id, id ∈ limit.memberOf after →
      id ∈ limit.memberOf db ∨ limit.isCurrent id = true := by
    intro id member
    obtain ⟨membership, inTable, same, user⟩ := mem_memberOf.1 member
    cases Schema.execute_eq_ok.1 executed with
    | insert _ allowed _ =>
      subst same
      obtain old | new := List.mem_append.mp inTable
      · exact .inl (mem_memberOf.2 ⟨membership, old, rfl, user⟩)
      · have inserts := (insertable_iff.1 (allowed .workspaceMemberships membership new)).1
        exact .inr (isCurrent_within within inserts)
    | update _ allowed _ =>
      obtain ⟨old, member', became⟩ := List.mem_map.mp inTable
      split at became
      next changed =>
        have writes := (leavable_iff.1 (allowed .workspaceMemberships old member' changed)).1
        rw [became] at writes
        exact .inr (same ▸ isCurrent_within within writes)
      next =>
        subst became
        exact .inl (mem_memberOf.2 ⟨old, member', same, user⟩)
    | delete _ =>
      obtain ⟨old, member', -, rfl⟩ := mem_cascade.1 inTable
      exact .inl (mem_memberOf.2 ⟨old, member', same, user⟩)
  cases t with
  | workspaces =>
    simp only [Context.selects, Bool.or_eq_true, List.contains_iff_mem] at visible ⊢
    obtain current | member := visible
    · exact .inl current
    · exact (memberships _ member).symm
  | users | workspaceMemberships | documents | documentVersions | jobs | documentChunks =>
    exact visible

theorem alike_write {after' : Tables} {w : Write Record} (within : context.Within limit)
    (inScope : Scoped db) (inScope' : Scoped db') (alike : Alike limit db db')
    (executed : schema.execute (context.policies db) db w = .ok after)
    (executed' : schema.execute (context.policies db') db' w = .ok after') :
    Alike limit after after' := by
  have same : context.policies db = context.policies db' :=
    policies_congr (alike.mono within).memberOf
  have view : Schema.pick (limit.selects db) db = Schema.pick (limit.selects db) db' := by
    funext t
    have seen : (limit.policies db).view db t = (limit.policies db').view db' t := by rw [alike]
    rw [policies_congr alike.memberOf.symm] at seen
    exact seen
  -- what the limit showed before shows the same of both
  have picked : Schema.pick (limit.selects db) after = Schema.pick (limit.selects db) after' := by
    refine Schema.execute_alike (fun t row => selects_within within) view (fun chosen => ?_)
      executed (same ▸ executed')
    exact pick_cascade within (chooses_deletable chosen) alike inScope inScope'
  have chosen : ∀ t, (limit.policies after).view after t =
      (Schema.pick (limit.selects db) after t).filter (limit.selects after t) := by
    intro t
    rw [Schema.pick, List.filter_filter, Policies.view]
    refine List.filter_congr fun row _ => ?_
    show limit.selects after t row = (limit.selects after t row && limit.selects db t row)
    cases selects : limit.selects after t row with
    | false => rfl
    | true => rw [selects_after within executed selects]; rfl
  have chosen' : ∀ t, (limit.policies after').view after' t =
      (Schema.pick (limit.selects db) after' t).filter (limit.selects after' t) := by
    intro t
    rw [Schema.pick, List.filter_filter, Policies.view]
    refine List.filter_congr fun row _ => ?_
    show limit.selects after' t row = (limit.selects after' t row && limit.selects db t row)
    cases selects : limit.selects after' t row with
    | false => rfl
    | true =>
      rw [selects_congr alike.memberOf, selects_after within executed' selects]
      rfl
  have memberOf : limit.memberOf after = limit.memberOf after' := by
    rw [memberOf_view, memberOf_view, chosen, chosen', picked]
    rfl
  funext t
  rw [chosen, chosen', picked, selects_congr memberOf]

end Views

/-! ## Programs -/

/-- Two transactions that have not failed, of one identity, over databases that look alike. -/
structure Indistinguishable (limit : Context) (tx tx' : Transaction) : Prop where
  context : tx.settings.context = tx'.settings.context
  within : tx.settings.context.Within limit
  sound : tx.failed = false
  sound' : tx'.failed = false
  inScope : Scoped tx.tables
  inScope' : Scoped tx'.tables
  alike : Alike limit tx.tables tx'.tables

variable {limit : Context} {tx tx' : Transaction} {command : Command}

theorem execute_failed (failed : tx.failed = true) : (tx.execute command).2.failed = true := by
  unfold Transaction.execute Transaction.executeUnder
  rw [if_pos failed]
  exact failed

theorem context_setTenantContext {settings : Settings} {userId : UUID}
    {workspaceId : Option UUID} : (settings.setTenantContext userId workspaceId).context =
      { settings.context with userId := some userId, workspaceId := workspaceId } := rfl

theorem context_setWorkerContext {settings : Settings} {workerId : Text} :
    (settings.setWorkerContext workerId).context =
      { settings.context with
        workerId := (some (workerId.take 128)).filter fun workerId => workerId ≠ [] } := rfl

theorem execute_indistinguishable (stays : StaysWithin limit command)
    (same : Indistinguishable limit tx tx') :
    (tx.execute command).1 = (tx'.execute command).1 ∧
        Indistinguishable limit (tx.execute command).2 (tx'.execute command).2 ∨
      (tx.execute command).2.failed = true ∨ (tx'.execute command).2.failed = true := by
  obtain ⟨tables, settings, failed⟩ := tx
  obtain ⟨tables', settings', failed'⟩ := tx'
  obtain ⟨one, within, rfl, rfl, inScope, inScope', alike⟩ := same
  have seen : Alike settings.context tables tables' := alike.mono within
  simp only at one
  cases command with
  | setTenantContext userId workspaceId =>
    refine .inl ⟨rfl, ?_, ⟨fun id given => ?_, fun id given => stays.2 id given, within.workerId⟩,
      rfl, rfl, inScope, inScope', alike⟩
    · show (settings.setTenantContext _ _).context = (settings'.setTenantContext _ _).context
      rw [context_setTenantContext, context_setTenantContext, one]
    · cases given
      exact stays.1
  | setWorkerContext workerId =>
    refine .inl ⟨rfl, ?_, ⟨within.userId, within.workspaceId, fun _ => stays⟩, rfl, rfl, inScope,
      inScope', alike⟩
    show (settings.setWorkerContext _).context = (settings'.setWorkerContext _).context
    rw [context_setWorkerContext, context_setWorkerContext, one]
  | select t chosen =>
    refine .inl ⟨?_, one, within, rfl, rfl, inScope, inScope', alike⟩
    show Except.ok (((settings.context.policies tables).view tables t).filter chosen) =
      Except.ok (((settings'.context.policies tables').view tables' t).filter chosen)
    rw [← one, seen]
  | write w keeps =>
    have returned : (Transaction.secured ⟨tables, settings, false⟩).returned tables w =
        (Transaction.secured ⟨tables', settings', false⟩).returned tables' w := by
      have policies : settings.context.policies tables = settings.context.policies tables' :=
        policies_congr seen.memberOf
      show (settings.context.policies tables).returned tables w =
        (settings'.context.policies tables').returned tables' w
      rw [← one, ← policies]
      refine Schema.returned_alike ?_
      rw [seen, policies]
    unfold Transaction.execute Transaction.executeUnder
    simp only [Bool.false_eq_true, if_false]
    split
    next after executed =>
      split
      next after' executed' =>
        change schema.execute (settings'.context.policies tables') tables' w = _ at executed'
        rw [← one] at executed'
        refine .inl ⟨congrArg Except.ok returned, one, within, rfl, rfl, ?_, ?_, ?_⟩
        · exact Wrote.inScope inScope ⟨w, keeps, executed⟩
        · exact Wrote.inScope inScope' ⟨w, keeps, executed'⟩
        · exact alike_write within inScope inScope' alike executed executed'
      next => exact .inr (.inr rfl)
    next => exact .inr (.inl rfl)

/-- On databases that look alike within the limit, a program that stays within it ends with the
same result and leaves them looking alike, unless one of them refuses a statement. -/
theorem run_indistinguishable {χ α : Type} {p : Program Command Answer χ α}
    (calls : p.Calls (StaysWithin limit)) (same : Indistinguishable limit tx tx')
    (sound : (p.run Transaction.execute tx).2.failed = false)
    (sound' : (p.run Transaction.execute tx').2.failed = false) :
    (p.run Transaction.execute tx).1 = (p.run Transaction.execute tx').1 ∧
      Indistinguishable limit (p.run Transaction.execute tx).2
        (p.run Transaction.execute tx').2 :=
  Program.run_alike (B := fun tx : Transaction => tx.failed = true) calls
    (fun _ _ => execute_failed) (fun _ _ _ => execute_indistinguishable) same
    (by rw [sound]; simp) (by rw [sound']; simp)

theorem nobody_within : Context.nobody.Within limit where
  userId _ given := by cases given
  workspaceId _ given := by cases given
  workerId given := by cases given

/-- Whatever a transaction does within the limit, and whatever it makes of the answers: in two
reachable states whose tables look alike within the limit it ends with the same result and leaves
them looking alike, unless a statement has been refused. -/
theorem learns_only_visible_rows {χ α : Type} {p : Program Command Answer χ α} {s s' : Server}
    (reached : Reachable (stepOf Server.next) Server.init s)
    (reached' : Reachable (stepOf Server.next) Server.init s') (connection : ConnectionId)
    (calls : p.Calls (StaysWithin limit)) (alike : Alike limit s.tables s'.tables)
    (sound : (p.run Transaction.execute
      (.start s.tables (s.sessions connection))).2.failed = false)
    (sound' : (p.run Transaction.execute
      (.start s'.tables (s'.sessions connection))).2.failed = false) :
    (p.run Transaction.execute (.start s.tables (s.sessions connection))).1 =
        (p.run Transaction.execute (.start s'.tables (s'.sessions connection))).1 ∧
      Alike limit
        (p.run Transaction.execute (.start s.tables (s.sessions connection))).2.tables
        (p.run Transaction.execute (.start s'.tables (s'.sessions connection))).2.tables := by
  obtain ⟨inScope, nobody⟩ := sound_of_reachable reached
  obtain ⟨inScope', nobody'⟩ := sound_of_reachable reached'
  have start : Indistinguishable limit (.start s.tables (s.sessions connection))
      (.start s'.tables (s'.sessions connection)) := by
    refine ⟨(nobody connection).trans (nobody' connection).symm, ?_, rfl, rfl, inScope, inScope',
      alike⟩
    rw [Transaction.start, nobody connection]
    exact nobody_within
  obtain ⟨results, same⟩ := run_indistinguishable calls start sound sound'
  exact ⟨results, same.alike⟩

/-- The same user in the same workspace, with and without a workspace of somebody else. -/
theorem learns_only_visible_rows_sample : ∃ s s' : Server,
    (s.tables .workspaces).length = 1 ∧ (s'.tables .workspaces).length = 2 ∧
      Alike ⟨some 1, some 10, none⟩
        ((publishing 1 10 11 12).run Transaction.execute
          (.start s.tables (s.sessions 0))).2.tables
        ((publishing 1 10 11 12).run Transaction.execute
          (.start s'.tables (s'.sessions 0))).2.tables := by
  refine ⟨serverAfter [⟨0, founding 1 10 100⟩, ⟨0, do
      let _ ← perform (.insertInto .users (sampleUser 2))⟩],
    serverAfter [⟨0, founding 1 10 100⟩, ⟨0, founding 2 20 200⟩], rfl, rfl,
    (learns_only_visible_rows (reachable_serverAfter _) (reachable_serverAfter _) 0 ?_ ?_ rfl
      rfl).2⟩
  · refine .bind (calls_perform ⟨rfl, fun _ given => given⟩) fun _ => ?_
    refine .bind (calls_perform trivial) fun _ => ?_
    refine .bind (calls_perform trivial) fun _ => ?_
    refine .bind (calls_perform trivial) fun _ => ?_
    exact .bind (calls_perform trivial) fun _ => Program.calls_pure
  · funext t
    cases t <;> rfl

end SupportPilot.Tenancy
