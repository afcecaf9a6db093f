import SupportPilot.Storage.Keys
import SupportPilot.Storage.Sharing

/-! # The object store refines a map from keys to bytes

Calls that follow one another do to the disk what they do to the map (`store_refines`): `write` adds
an object or leaves no trace, `move` gives it its new key, and what is read is what was written. -/

namespace SupportPilot.Storage

open Lib Program Documents

/-! ## Calls that run alone -/

/-- Every command is answered by the disk. -/
def performed : Protocol Disk Command Answer where
  allowed _ _ := True
  after disk command answer disk' := ∃ input, perform input disk command = (answer, disk')

section Calls

variable {store : LocalObjectStore} {κ : Type} {placement : Placement store κ} {disk disk' : Disk}
  {objects : Objects κ}

/-- Who runs alone does what it does among others, and nothing to the keys of others. -/
theorem ends_of_sharing {α : Type} {p : StoreM α} {Q : Except PyError α → Disk → Prop} {keys : Set κ}
    {result : Except PyError α} (keeps : p.Keeps (sharing placement keys) Q disk)
    (holds : Holds placement disk objects) (ends : Ends performed p disk result disk') :
    Q result disk' ∧ ∃ objects', Holds placement disk' objects' ∧
      Agree placement keysᶜ disk disk' := by
  induction ends generalizing objects with
  | done => exact ⟨keeps, objects, holds, .refl⟩
  | raise => exact ⟨keeps, objects, holds, .refl⟩
  | call after _ ih =>
    obtain ⟨allowed, behind⟩ := keeps
    obtain ⟨input, done⟩ := after
    obtain ⟨⟨objects', holds'⟩, others⟩ := allowed input _ .refl ⟨objects, holds⟩
    rw [done] at holds' others
    obtain ⟨finished, objects'', holds'', others'⟩ :=
      ih (behind _ _ ⟨input, _, .refl, ⟨objects, holds⟩, done⟩) holds'
    exact ⟨finished, objects'', holds'', others.trans others'⟩

/-! ### The sweep -/

theorem keeps_performs {command : Command} {Q : Except PyError command.Value → Disk → Prop}
    (performs : ∀ input, ∃ value disk', perform input disk command = (.ok value, disk') ∧
      Q (.ok value) disk') : (call command).Keeps performed Q disk := by
  refine ⟨trivial, fun answer disk' after => ?_⟩
  obtain ⟨input, done⟩ := after
  obtain ⟨value, disk'', done', holds⟩ := performs input
  rw [done', Prod.mk.injEq] at done
  obtain ⟨rfl, rfl⟩ := done
  exact holds

/-- Some of the staged objects are gone. -/
def Fewer (placement : Placement store κ) (objects : Objects κ) (disk' : Disk) : Prop :=
  ∃ objects', (∀ key, objects' key = objects key ∨ placement.Staged key ∧ objects' key = none) ∧
    Holds placement disk' objects'

theorem keeps_deleteStale {olderThan : Nat} (paths : List FilePath)
    (below : ∀ path ∈ paths, store.root ++ ["staging".toList] <+: path) (deleted : Nat)
    (fewer : Fewer placement objects disk) :
    (deleteStale olderThan paths deleted).Keeps performed
      (onResult (fun _ => Fewer placement objects) fun _ _ => False) disk := by
  induction paths generalizing disk deleted with
  | nil => exact fewer
  | cons path paths ih =>
    have later := fun other member => below other (List.mem_cons_of_mem path member)
    rw [deleteStale, keeps_bind]
    refine keeps_performs fun input => ⟨disk.isFile path, disk, rfl, ?_⟩
    rw [onResult_ok]
    split
    · exact ih later deleted fewer
    next file =>
      have file : disk.isFile path = true := by simpa using file
      obtain ⟨n, found⟩ := FileSystem.isFile_iff.1 file
      obtain ⟨objects', gone, holds⟩ := fewer
      have reached := holds.tree.reached path (by simp [found])
      have stored := List.getElem?_eq_getElem (holds.tree.bounded path n found)
      have stat := FileSystem.stat_of_file reached found
      rw [keeps_bind]
      refine keeps_performs fun input =>
        ⟨⟨_, _⟩, disk, by rw [perform, answered, stat, stored]; rfl, ?_⟩
      rw [onResult_ok]
      split
      · rw [keeps_bind, unlinkMissingOk, keeps_tryCatch]
        obtain ⟨disk', unlinked⟩ := FileSystem.unlink_of_file reached found
        refine keeps_performs fun input => ⟨(), disk', by rw [perform, unlinked]; rfl, ih later _ ?_⟩
        refine ⟨fun key => if placement.place key = path then none else objects' key, fun key => ?_,
          holds.unlink_path unlinked fun key => rfl⟩
        dsimp only
        split
        next same =>
          have staged : placement.Staged key := by
            rw [Placement.Staged, same]
            exact below path List.mem_cons_self
          exact .inr ⟨staged, rfl⟩
        next => exact gone key
      · exact ih later deleted ⟨objects', gone, holds⟩

variable [DecidableEq κ]

/-- The call has its effect on the objects. -/
def Effected (placement : Placement store κ) (objects : Objects κ) (call : ObjectCall κ)
    (result : Except PyError call.Result) (disk' : Disk) : Prop :=
  ∃ objects', Effect placement objects call result objects' ∧ Holds placement disk' objects'

theorem effected_deleteStaleStaging (holds : Holds placement disk objects) (olderThan : Nat) :
    (store.deleteStaleStaging olderThan).Keeps performed
      (Effected placement objects (.deleteStaleStaging olderThan)) disk := by
  have none_gone : Fewer placement objects disk := ⟨objects, fun _ => .inl rfl, holds⟩
  have path := @path_of_parts store ["staging".toList] (List.cons_ne_nil _ _) (by simp; decide)
  rw [List.intercalate_singleton] at path
  rw [LocalObjectStore.deleteStaleStaging, path]
  show (call _ >>= fun _ => _ : StoreM _).Keeps _ _ _
  rw [keeps_bind]
  refine keeps_performs fun input => ⟨_, disk, rfl, ?_⟩
  rw [onResult_ok]
  split
  · exact ⟨objects, .swept fun _ => .inl rfl, holds⟩
  · rw [keeps_bind]
    refine keeps_performs fun input => ⟨_, disk, rfl, ?_⟩
    rw [onResult_ok]
    have below : ∀ path ∈ disk.below (store.root ++ ["staging".toList]),
        store.root ++ ["staging".toList] <+: path :=
      fun path member => (FileSystem.mem_below.1 member).2.1
    refine (keeps_deleteStale _ below 0 none_gone).mono fun result disk' ends => ?_
    cases result with
    | ok deleted =>
      obtain ⟨objects', gone, holds'⟩ := ends
      exact ⟨objects', .swept gone, holds'⟩
    | error error => exact ends.elim

/-! ### Every call -/

theorem effected (holds : Holds placement disk objects) {objectCall : ObjectCall κ}
    {result : Except PyError objectCall.Result}
    (ends : Ends performed (objectCall.program placement) disk result disk') :
    ∃ objects', Effect placement objects objectCall result objects' ∧
      Holds placement disk' objects' := by
  have ofKeyed : objectCall.IsKeyed → ∃ objects', Effect placement objects objectCall result objects' ∧
      Holds placement disk' objects' := by
    intro keyed
    obtain ⟨⟨objects', effect, own⟩, objects'', holds', others⟩ :=
      ends_of_sharing (shares_program holds keyed) holds ends
    obtain rfl : objects'' = objects' := by
      funext key
      by_cases isKey : key ∈ objectCall.keys
      · rw [← holds'.object, own key isKey]
      · rw [others.object holds holds' isKey, effect.frame isKey]
    exact ⟨objects'', effect, holds'⟩
  cases objectCall with
  | deleteStaleStaging olderThan => exact (effected_deleteStaleStaging holds olderThan).ends ends
  | _ => exact ofKeyed trivial

end Calls

/-! ## Calls one after the other -/

/-- A call, and how it has ended. -/
structure ObjectEvent (κ : Type) where
  call : ObjectCall κ
  result : Except PyError call.Result

section Refinement

variable {store : LocalObjectStore} {κ : Type} (placement : Placement store κ)

/-- On the disk. -/
def Serves (disk : Disk) (event : ObjectEvent κ) (disk' : Disk) : Prop :=
  Ends performed (event.call.program placement) disk event.result disk'

/-- Calls one after the other, with the same clock. -/
def served (input : Input) : Disk → List (ObjectCall κ) → List (ObjectEvent κ) × Disk
  | disk, [] => ([], disk)
  | disk, call :: calls =>
    let ran := Program.run (perform input) disk (call.program placement)
    let rest := served input ran.2 calls
    (⟨call, ran.1⟩ :: rest.1, rest.2)

theorem run_served (input : Input) (disk : Disk) (calls : List (ObjectCall κ)) :
    Run (Serves placement) disk (served placement input disk calls).1
      (served placement input disk calls).2 := by
  induction calls generalizing disk with
  | nil => exact .nil
  | cons call calls ih => exact .cons (ends_of_run fun _ _ => ⟨input, rfl⟩) (ih _)

variable [DecidableEq κ]

/-- On the map. -/
def Effects (objects : Objects κ) (event : ObjectEvent κ) (objects' : Objects κ) : Prop :=
  Effect placement objects event.call event.result objects'

variable {placement} {disk disk' : Disk} {objects : Objects κ} {events : List (ObjectEvent κ)}

/-- The store refines the map: calls that follow one another have the results that the map gives
them. -/
theorem store_refines (holds : Holds placement disk objects)
    (run : Run (Serves placement) disk events disk') :
    ∃ objects', Run (Effects placement) objects events objects' ∧
      Holds placement disk' objects' := by
  induction run generalizing objects with
  | nil => exact ⟨objects, .nil, holds⟩
  | @cons _ event _ _ _ served _ ih =>
    obtain ⟨objects', effect, holds'⟩ := effected holds served
    obtain ⟨objects'', run, holds''⟩ := ih holds'
    exact ⟨objects'', .cons effect run, holds''⟩

/-! An upload as the store sees it: an object is staged, gets its final key, and is read. -/

def stagedKey : {key : ObjectKey // Sound key} := ⟨.staging 1 2, by decide, by decide⟩

def finalKey : {key : ObjectKey // Sound key} :=
  ⟨.version 1 3 4 ['a'], by decide, by decide, by decide, by decide⟩

def sampleCalls : List (ObjectCall {key : ObjectKey // Sound key}) :=
  [.write stagedKey ⟨[[1], [2]], none⟩, .move stagedKey finalKey, .read 1 4 finalKey]

def sampleServed : List (ObjectEvent {key : ObjectKey // Sound key}) × Disk :=
  served (objectKeys sampleStore) ⟨0, ⟨0, 0⟩, none⟩ sampleDisk sampleCalls

theorem store_refines_sample :
    (sampleServed.2.fileAt ((objectKeys sampleStore).place finalKey)).map Inode.content =
      some [1, 2] ∧
    ∃ objects', Run (Effects (objectKeys sampleStore)) (fun _ => none) sampleServed.1 objects' ∧
      Holds (objectKeys sampleStore) sampleServed.2 objects' := by
  have made : (⟨[], []⟩ : Disk).makeDirectories sampleStore.root = .ok sampleDisk := rfl
  exact ⟨by decide +kernel,
    store_refines (holds_init made (objectKeys_below sampleStore)) (run_served _ _ _ sampleCalls)⟩

end Refinement

end SupportPilot.Storage
