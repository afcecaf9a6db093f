import Mathlib.Data.List.Induction
import SupportPilot.Lib.Table
import SupportPilot.Security.Sessions

/-! # Session families as chains

What the session table is for: each family is one chain of rows, every row but
the last has been used, is revoked and names the next one.  `TableChange` lists
the changes that keep this, without the requests that make them: a new family, a
rotation of a row that is neither used nor revoked, and revocations. -/

namespace SupportPilot.Security

open Lib Table

/-- A successful rotation. -/
structure Rotation where
  familyId : UUID
  old : UUID
  new : UUID
  deriving DecidableEq

/-- The changes of the committed table, with the log of the rotations. -/
inductive TableChange (rows rows' : List RefreshSession) (log : List Rotation) :
    List Rotation → Prop
  | root {row : RefreshSession} (absent : lookup rows row.id = none)
      (newFamily : ∀ row' ∈ rows, row'.familyId ≠ row.familyId) (issued : row.Issued)
      (reads : ∀ k, lookup rows' k = if k = row.id then some row else lookup rows k) :
      TableChange rows rows' log log
  | rotation {current replacement : RefreshSession} (now : Nat)
      (found : lookup rows current.id = some current) (live : current.Live)
      (absent : lookup rows replacement.id = none) (issued : replacement.Issued)
      (sameFamily : replacement.familyId = current.familyId)
      (sameUser : replacement.userId = current.userId)
      (reads : ∀ k, lookup rows' k = if k = current.id then some (current.rotate now replacement.id)
        else if k = replacement.id then some replacement else lookup rows k) :
      TableChange rows rows' log (⟨current.familyId, current.id, replacement.id⟩ :: log)
  | revocation (reads : ∀ k, lookup rows' k = lookup rows k ∨
      ∃ old now, lookup rows k = some old ∧ lookup rows' k = some (old.revoke now)) :
      TableChange rows rows' log log

variable {rows rows' : List RefreshSession} {log log' : List Rotation} {row : RefreshSession}
  {family user : UUID}

/-- The rows with these identifiers form a chain of the family: all but the last
are used and revoked and name the next one. -/
def Linked (rows : List RefreshSession) (family user : UUID) : List UUID → Prop
  | [] => False
  | [last] => ∃ row, lookup rows last = some row ∧ row.familyId = family ∧ row.userId = user ∧
      row.usedAt = none ∧ row.replacedById = none
  | id :: following :: rest => (∃ row, lookup rows id = some row ∧ row.familyId = family ∧
      row.userId = user ∧ row.usedAt ≠ none ∧ row.revokedAt ≠ none ∧
      row.replacedById = some following) ∧ Linked rows family user (following :: rest)

/-- All rows of the family form one chain. -/
structure Chain (rows : List RefreshSession) (family user : UUID) (ids : List UUID) : Prop where
  linked : Linked rows family user ids
  nodup : ids.Nodup
  complete : ∀ row ∈ rows, row.familyId = family → row.id ∈ ids

def Chained (rows : List RefreshSession) : Prop :=
  ∀ row ∈ rows, ∃ user ids, Chain rows row.familyId user ids

theorem Linked.found {ids : List UUID} (linked : Linked rows family user ids) {id : UUID}
    (member : id ∈ ids) :
    ∃ row, lookup rows id = some row ∧ row.familyId = family ∧ row.userId = user := by
  induction ids using List.twoStepInduction with
  | nil => cases member
  | singleton last =>
    obtain ⟨row, found, sameFamily, sameUser, -⟩ := linked
    rw [List.mem_singleton.mp member]
    exact ⟨row, found, sameFamily, sameUser⟩
  | cons_cons first following rest _ ih =>
    obtain ⟨⟨row, found, sameFamily, sameUser, -⟩, linkedRest⟩ := linked
    rcases List.mem_cons.mp member with rfl | later
    · exact ⟨row, found, sameFamily, sameUser⟩
    · exact ih following linkedRest later

/-- A chain looks only at the used, revoked and replaced marks of its rows. -/
theorem Linked.transfer {ids : List UUID} (linked : Linked rows family user ids)
    (same : ∀ id ∈ ids, lookup rows' id = lookup rows id ∨
      ∃ old now, lookup rows id = some old ∧ lookup rows' id = some (old.revoke now)) :
    Linked rows' family user ids := by
  induction ids using List.twoStepInduction with
  | nil => exact linked
  | singleton last =>
    obtain ⟨row, found, holds⟩ := linked
    rcases same last (List.mem_singleton_self _) with kept | ⟨old, now, before, after⟩
    · exact ⟨row, kept.trans found, holds⟩
    · cases before.symm.trans found
      exact ⟨_, after, holds⟩
  | cons_cons first following rest _ ih =>
    obtain ⟨⟨row, found, sameFamily, sameUser, used, revoked, replaced⟩, linkedRest⟩ := linked
    refine ⟨?_, ih following linkedRest fun id member => same id (.tail _ member)⟩
    rcases same first List.mem_cons_self with kept | ⟨old, now, before, after⟩
    · exact ⟨row, kept.trans found, sameFamily, sameUser, used, revoked, replaced⟩
    · cases before.symm.trans found
      exact ⟨_, after, sameFamily, sameUser, used, by simp [RefreshSession.revoke], replaced⟩

/-- A rotation of a row that is not used adds its replacement at the end. -/
theorem Linked.extend {ids : List UUID} (linked : Linked rows family user ids) (nodup : ids.Nodup)
    {current replacement : RefreshSession} {now : Nat}
    (found : lookup rows current.id = some current) (unused : current.usedAt = none)
    (absent : lookup rows replacement.id = none) (issued : replacement.Issued)
    (sameFamily : replacement.familyId = current.familyId)
    (sameUser : replacement.userId = current.userId) (member : current.id ∈ ids)
    (reads : ∀ k, lookup rows' k = if k = current.id then some (current.rotate now replacement.id)
      else if k = replacement.id then some replacement else lookup rows k) :
    Linked rows' family user (ids ++ [replacement.id]) := by
  have apart : replacement.id ≠ current.id := by
    intro same
    rw [same, found] at absent
    cases absent
  induction ids using List.twoStepInduction with
  | nil => cases member
  | singleton last =>
    rw [List.mem_singleton] at member
    subst member
    obtain ⟨row, known, inFamily, ofUser, -⟩ := linked
    cases known.symm.trans found
    refine ⟨⟨current.rotate now replacement.id, by rw [reads, if_pos rfl], inFamily, ofUser,
      by simp [RefreshSession.rotate], by simp [RefreshSession.rotate], rfl⟩, replacement, ?_,
      sameFamily.trans inFamily, sameUser.trans ofUser, issued.unused, issued.unreplaced⟩
    rw [reads, if_neg apart, if_pos rfl]
  | cons_cons first following rest _ ih =>
    obtain ⟨⟨row, known, inFamily, ofUser, used, revoked, replaced⟩, linkedRest⟩ := linked
    rw [List.nodup_cons] at nodup
    -- the chain was rotated behind `first`, and the current session has not been used
    have differs : first ≠ current.id := by
      rintro rfl
      cases known.symm.trans found
      exact used unused
    have notNew : first ≠ replacement.id := by
      rintro rfl
      rw [absent] at known
      cases known
    refine ⟨⟨row, ?_, inFamily, ofUser, used, revoked, replaced⟩, ?_⟩
    · -- so this row is read as before
      rw [reads, if_neg differs, if_neg notNew, known]
    · have later := (List.mem_cons.mp member).resolve_left (Ne.symm differs)
      exact ih following linkedRest nodup.2 later

theorem Chain.absent_of_lookup {ids : List UUID} (chain : Chain rows family user ids) {id : UUID}
    (absent : lookup rows id = none) : id ∉ ids := by
  intro member
  obtain ⟨row, found, -⟩ := chain.linked.found member
  rw [absent] at found
  cases found

theorem Chained.revocation (keyed' : Keyed rows') (chained : Chained rows)
    (reads : ∀ k, lookup rows' k = lookup rows k ∨
      ∃ old now, lookup rows k = some old ∧ lookup rows' k = some (old.revoke now)) :
    Chained rows' := by
  have before : ∀ row ∈ rows', ∃ old ∈ rows, old.id = row.id ∧ old.familyId = row.familyId := by
    intro row member
    have present := (mem_iff_lookup keyed').mp member
    rcases reads (Row.key row) with kept | ⟨old, now, found, after⟩
    · exact ⟨row, mem_of_lookup (kept.symm.trans present), rfl, rfl⟩
    · cases after.symm.trans present
      exact ⟨old, mem_of_lookup found, rfl, rfl⟩
  intro row member
  obtain ⟨old, isOld, -, sameFamily⟩ := before row member
  obtain ⟨user, ids, chain⟩ := chained old isOld
  rw [sameFamily] at chain
  refine ⟨user, ids, chain.linked.transfer fun id _ => reads id, chain.nodup, ?_⟩
  intro row' member' inFamily
  obtain ⟨old', isOld', sameId, sameFamily'⟩ := before row' member'
  rw [← sameId]
  exact chain.complete old' isOld' (sameFamily'.trans inFamily)

theorem Chained.root (keyed' : Keyed rows') (chained : Chained rows) {new : RefreshSession}
    (absent : lookup rows new.id = none)
    (newFamily : ∀ row' ∈ rows, row'.familyId ≠ new.familyId) (issued : new.Issued)
    (reads : ∀ k, lookup rows' k = if k = new.id then some new else lookup rows k) :
    Chained rows' := by
  -- the new row is the only one
  have origin : ∀ row ∈ rows', row = new ∨ row ∈ rows := by
    intro row member
    have present := (mem_iff_lookup keyed').mp member
    rw [reads] at present
    split at present
    · cases present
      exact .inl rfl
    · exact .inr (mem_of_lookup present)
  intro row member
  rcases origin row member with rfl | old
  · refine ⟨row.userId, [row.id], ⟨row, ?_, rfl, rfl, issued.unused, issued.unreplaced⟩,
      List.nodup_singleton _, fun row' member' inFamily => ?_⟩
    · rw [reads, if_pos rfl]
    · rcases origin row' member' with rfl | old'
      · exact List.mem_singleton_self _
      · exact absurd inFamily (newFamily row' old')
  · obtain ⟨user, ids, chain⟩ := chained row old
    refine ⟨user, ids, chain.linked.transfer fun id inside => .inl ?_, chain.nodup,
      fun row' member' inFamily => ?_⟩
    · rw [reads, if_neg]
      rintro rfl
      exact chain.absent_of_lookup absent inside
    · rcases origin row' member' with rfl | old'
      · exact absurd inFamily.symm (newFamily row old)
      · exact chain.complete row' old' inFamily

theorem Chained.rotation (keyed' : Keyed rows') (chained : Chained rows)
    {current replacement : RefreshSession} {now : Nat}
    (found : lookup rows current.id = some current) (live : current.Live)
    (absent : lookup rows replacement.id = none) (issued : replacement.Issued)
    (sameFamily : replacement.familyId = current.familyId)
    (sameUser : replacement.userId = current.userId)
    (reads : ∀ k, lookup rows' k = if k = current.id then some (current.rotate now replacement.id)
      else if k = replacement.id then some replacement else lookup rows k) :
    Chained rows' := by
  -- the family of the current row gets the replacement at its end, the others stay
  have isCurrent := mem_of_lookup found
  have origin : ∀ row ∈ rows', row = current.rotate now replacement.id ∨ row = replacement ∨
      row ∈ rows := by
    intro row member
    have present := (mem_iff_lookup keyed').mp member
    rw [reads] at present
    split at present
    · cases present
      exact .inl rfl
    · split at present
      · cases present
        exact .inr (.inl rfl)
      · exact .inr (.inr (mem_of_lookup present))
  intro row member
  by_cases inFamily : row.familyId = current.familyId
  · obtain ⟨user, ids, chain⟩ := chained current isCurrent
    have inChain := chain.complete current isCurrent rfl
    rw [inFamily]
    refine ⟨user, ids ++ [replacement.id], chain.linked.extend chain.nodup found live.unused absent
      issued sameFamily sameUser inChain reads, ?_, fun row' member' inFamily' => ?_⟩
    · exact List.nodup_append.mpr ⟨chain.nodup, List.nodup_singleton _, fun id inside id' isNew =>
        fun same => chain.absent_of_lookup absent (by
          rw [List.mem_singleton] at isNew
          rwa [← isNew, ← same])⟩
    · rcases origin row' member' with rfl | rfl | old
      · exact List.mem_append_left _ inChain
      · exact List.mem_append_right _ (List.mem_singleton_self _)
      · exact List.mem_append_left _ (chain.complete row' old inFamily')
  · have old : ∀ row' ∈ rows', row'.familyId = row.familyId → row' ∈ rows := by
      intro row' member' same
      rcases origin row' member' with rfl | rfl | old
      · exact absurd same.symm inFamily
      · exact absurd (same.symm.trans sameFamily) inFamily
      · exact old
    obtain ⟨user, ids, chain⟩ := chained row (old row member rfl)
    refine ⟨user, ids, chain.linked.transfer fun id inside => .inl ?_, chain.nodup,
      fun row' member' same => chain.complete row' (old row' member' same) same⟩
    obtain ⟨row', known, inFamily', -⟩ := chain.linked.found inside
    rw [reads, if_neg, if_neg]
    · rintro rfl
      exact chain.absent_of_lookup absent inside
    · rintro rfl
      cases known.symm.trans found
      exact inFamily inFamily'.symm

/-- Every change keeps the families chained. -/
theorem Chained.change (keyed' : Keyed rows') (chained : Chained rows)
    (change : TableChange rows rows' log log') : Chained rows' := by
  cases change with
  | revocation reads => exact chained.revocation keyed' reads
  | root absent newFamily issued reads => exact chained.root keyed' absent newFamily issued reads
  | rotation now found live absent issued sameFamily sameUser reads =>
    exact chained.rotation keyed' found live absent issued sameFamily sameUser reads

/-! ## The log of the rotations -/

/-- The log has one entry for each used row, which names its replacement. -/
structure Logged (rows : List RefreshSession) (log : List Rotation) : Prop where
  once : (log.map Rotation.old).Nodup
  used : ∀ rotation ∈ log, ∃ row, lookup rows rotation.old = some row ∧ row.usedAt ≠ none
  entry : ∀ row ∈ rows, row.usedAt ≠ none →
    ∃ rotation ∈ log, rotation.old = row.id ∧ rotation.familyId = row.familyId ∧
      row.replacedById = some rotation.new

theorem Logged.change (keyed' : Keyed rows') (logged : Logged rows log)
    (change : TableChange rows rows' log log') : Logged rows' log' := by
  obtain ⟨once, used, entry⟩ := logged
  cases change with
  | @root new absent newFamily issued reads =>
    refine ⟨once, fun rotation member => ?_, fun row member isUsed => ?_⟩
    · obtain ⟨row, found, isUsed⟩ := used rotation member
      refine ⟨row, ?_, isUsed⟩
      rw [reads, if_neg, found]
      intro same
      rw [same, absent] at found
      cases found
    · have present := (mem_iff_lookup keyed').mp member
      rw [reads] at present
      split at present
      · cases present
        exact absurd issued.unused isUsed
      · exact entry row (mem_of_lookup present) isUsed
  | revocation reads =>
    refine ⟨once, fun rotation member => ?_, fun row member isUsed => ?_⟩
    · obtain ⟨row, found, isUsed⟩ := used rotation member
      rcases reads rotation.old with kept | ⟨old, now, before, after⟩
      · exact ⟨row, kept.trans found, isUsed⟩
      · cases before.symm.trans found
        exact ⟨_, after, isUsed⟩
    · have present := (mem_iff_lookup keyed').mp member
      rcases reads (Row.key row) with kept | ⟨old, now, before, after⟩
      · exact entry row (mem_of_lookup (kept.symm.trans present)) isUsed
      · cases after.symm.trans present
        exact entry old (mem_of_lookup before) isUsed
  | @rotation current replacement now found live absent issued sameFamily sameUser reads =>
    refine ⟨?_, ?_, fun row member isUsed => ?_⟩
    -- a used row is not live, so the current row is not in the log yet
    · refine List.nodup_cons.mpr ⟨fun member => ?_, once⟩
      obtain ⟨rotation, logged, same⟩ := List.mem_map.mp member
      obtain ⟨row, found', isUsed⟩ := used rotation logged
      rw [same, found] at found'
      cases found'
      exact isUsed live.unused
    · refine List.forall_mem_cons.mpr ⟨⟨current.rotate now replacement.id, ?_, ?_⟩,
        fun rotation member => ?_⟩
      · rw [reads, if_pos rfl]
      · simp [RefreshSession.rotate]
      · obtain ⟨row, found', isUsed⟩ := used rotation member
        refine ⟨row, ?_, isUsed⟩
        rw [reads, if_neg, if_neg, found']
        · intro same
          rw [same, absent] at found'
          cases found'
        · intro same
          rw [same, found] at found'
          cases found'
          exact isUsed live.unused
    · have present := (mem_iff_lookup keyed').mp member
      rw [reads] at present
      split at present
      · cases present
        exact ⟨_, List.mem_cons_self, rfl, rfl, rfl⟩
      · split at present
        · cases present
          exact absurd issued.unused isUsed
        · obtain ⟨rotation, logged, holds⟩ := entry row (mem_of_lookup present) isUsed
          exact ⟨rotation, .tail _ logged, holds⟩

/-! ## Reading a chain -/

/-- Only the last row of a chain is not used. -/
theorem Linked.last_of_unused {ids : List UUID} (linked : Linked rows family user ids) {id : UUID}
    (member : id ∈ ids) (found : lookup rows id = some row) (unused : row.usedAt = none) :
    ids.getLast? = some id := by
  induction ids using List.twoStepInduction with
  | nil => cases member
  | singleton last => rw [List.mem_singleton.mp member, List.getLast?_singleton]
  | cons_cons first following rest _ ih =>
    obtain ⟨⟨row', known, -, -, used, -⟩, linkedRest⟩ := linked
    rw [List.getLast?_cons_cons]
    rcases List.mem_cons.mp member with rfl | later
    · cases known.symm.trans found
      exact absurd unused used
    · exact ih following linkedRest later

/-- A used row is revoked and names a row of the chain. -/
theorem Linked.following {ids : List UUID} (linked : Linked rows family user ids) {id : UUID}
    (member : id ∈ ids) (found : lookup rows id = some row) (used : row.usedAt ≠ none) :
    row.revokedAt ≠ none ∧ ∃ following ∈ ids, row.replacedById = some following := by
  induction ids using List.twoStepInduction with
  | nil => cases member
  | singleton last =>
    obtain ⟨row', known, -, -, unused, -⟩ := linked
    rw [List.mem_singleton.mp member, known] at found
    cases found
    exact absurd unused used
  | cons_cons first following rest _ ih =>
    obtain ⟨⟨row', known, -, -, -, revoked, replaced⟩, linkedRest⟩ := linked
    rcases List.mem_cons.mp member with rfl | later
    · cases known.symm.trans found
      exact ⟨revoked, following, by simp, replaced⟩
    · obtain ⟨revoked', next, inside, replaced'⟩ := ih following linkedRest later
      exact ⟨revoked', next, .tail _ inside, replaced'⟩

/-- The rows of a chain, each naming the next one. -/
theorem Linked.exists_chain {ids : List UUID} (linked : Linked rows family user ids) :
    ∃ chain : List RefreshSession, chain.map RefreshSession.id = ids ∧
      (∀ row ∈ chain, lookup rows row.id = some row) ∧
      chain.IsChain (fun row next => row.replacedById = some next.id) ∧
      ∀ last ∈ chain.getLast?, last.replacedById = none := by
  induction ids using List.twoStepInduction with
  | nil => cases linked
  | singleton last =>
    obtain ⟨row, found, -, -, -, unreplaced⟩ := linked
    obtain rfl := key_of_lookup found
    exact ⟨[row], rfl, List.forall_mem_singleton.mpr found, .singleton _, by simpa using unreplaced⟩
  | cons_cons first following rest _ ih =>
    obtain ⟨⟨row, found, -, -, -, -, replaced⟩, linkedRest⟩ := linked
    obtain ⟨chain, ids, present, chained, last⟩ := ih following linkedRest
    obtain rfl := key_of_lookup found
    obtain ⟨next, chain, rfl⟩ := List.exists_cons_of_ne_nil
      (show chain ≠ [] by rintro rfl; simp at ids)
    rw [List.map_cons, List.cons.injEq] at ids
    refine ⟨row :: next :: chain, by simp [ids]; rfl, ?_, ?_, by simpa using last⟩
    · exact List.forall_mem_cons.mpr ⟨found, present⟩
    · exact .cons_cons (by rw [replaced, ids.1]) chained

/-- What the chains and the log give for the table. -/
structure LinearChains (rows : List RefreshSession) (log : List Rotation) : Prop where
  oneLive : ∀ row ∈ rows, ∀ row' ∈ rows, row.familyId = row'.familyId →
    row.Live → row'.Live → row = row'
  rotatedOnce : (log.map Rotation.old).Nodup
  sameUser : ∀ row ∈ rows, ∀ row' ∈ rows, row.familyId = row'.familyId → row.userId = row'.userId
  replaced : ∀ row ∈ rows, row.usedAt ≠ none → row.revokedAt ≠ none ∧
    ∃ next ∈ rows, row.replacedById = some next.id ∧ next.familyId = row.familyId ∧
      ⟨row.familyId, row.id, next.id⟩ ∈ log
  linear : ∀ row ∈ rows, ∃ chain : List RefreshSession,
    (∀ row', row' ∈ chain ↔ row' ∈ rows ∧ row'.familyId = row.familyId) ∧ chain.Nodup ∧
      chain.IsChain (fun row next => row.replacedById = some next.id) ∧
      ∀ last ∈ chain.getLast?, last.replacedById = none

theorem linearChains (keyed : Keyed rows) (chained : Chained rows) (logged : Logged rows log) :
    LinearChains rows log := by
  have found : ∀ row ∈ rows, lookup rows row.id = some row := fun row =>
    (mem_iff_lookup keyed).mp
  constructor
  case rotatedOnce => exact logged.once
  case oneLive =>
    intro row member row' member' same live live'
    obtain ⟨user, ids, chain⟩ := chained row member
    -- both rows are the last of the one chain of their family
    have last := chain.linked.last_of_unused (chain.complete row member rfl) (found row member)
      live.unused
    have last' := chain.linked.last_of_unused (chain.complete row' member' same.symm)
      (found row' member') live'.unused
    have sameId : row.id = row'.id := Option.some.inj (last.symm.trans last')
    have := found row member
    rw [sameId, found row' member'] at this
    exact (Option.some.inj this).symm
  case sameUser =>
    intro row member row' member' same
    obtain ⟨user, ids, chain⟩ := chained row member
    obtain ⟨old, known, -, ofUser⟩ := chain.linked.found (chain.complete row member rfl)
    obtain ⟨old', known', -, ofUser'⟩ :=
      chain.linked.found (chain.complete row' member' same.symm)
    cases known.symm.trans (found row member)
    cases known'.symm.trans (found row' member')
    exact ofUser.trans ofUser'.symm
  case replaced =>
    intro row member used
    obtain ⟨user, ids, chain⟩ := chained row member
    obtain ⟨revoked, following, inside, replaced⟩ :=
      chain.linked.following (chain.complete row member rfl) (found row member) used
    obtain ⟨next, known, inFamily, -⟩ := chain.linked.found inside
    obtain rfl := key_of_lookup known
    obtain ⟨⟨family, old, new⟩, isLogged, rfl, rfl, replaced'⟩ := logged.entry row member used
    cases replaced.symm.trans replaced'
    exact ⟨revoked, next, mem_of_lookup known, replaced, inFamily, isLogged⟩
  case linear =>
    intro row member
    obtain ⟨user, ids, chain⟩ := chained row member
    obtain ⟨listed, sameIds, present, links, last⟩ := chain.linked.exists_chain
    refine ⟨listed, fun row' => ⟨fun inside => ?_, fun ⟨isRow, inFamily⟩ => ?_⟩, ?_, links, last⟩
    · have isId : row'.id ∈ ids := sameIds ▸ List.mem_map_of_mem inside
      obtain ⟨known, found', inFamily, -⟩ := chain.linked.found isId
      cases found'.symm.trans (present row' inside)
      exact ⟨mem_of_lookup found', inFamily⟩
    · have isId := chain.complete row' isRow inFamily
      rw [← sameIds] at isId
      obtain ⟨row'', inside, sameId⟩ := List.mem_map.mp isId
      have := present row'' inside
      rw [sameId, found row' isRow] at this
      exact Option.some.inj this ▸ inside
    · exact List.Nodup.of_map _ (sameIds ▸ chain.nodup)

end SupportPilot.Security
