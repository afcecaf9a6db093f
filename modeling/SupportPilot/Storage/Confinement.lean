import SupportPilot.Storage.Interleaving

/-! # Which paths the calls of the object store change

A call changes the paths that its keys name, and what is below them; on the way there it makes
directories.  Every other path stays as it is, whatever runs at the same time (`path_kept`).  No key
names a path outside of the root (`outside_kept`), and the sweep of stale files leaves what is not
staged alone. -/

namespace SupportPilot.Storage

open Lib Program

/-- The paths that a call may create, replace or remove. -/
def StoreCall.paths (store : LocalObjectStore) : StoreCall → List FilePath
  | .write key _ | .delete key => (store.path key).toOption.toList
  | .move sourceKey destinationKey =>
    (store.path sourceKey).toOption.toList ++ (store.path destinationKey).toOption.toList
  | .deleteStaleStaging _ => (store.path "staging".toList).toOption.toList
  | .read _ _ _ | .stat _ => []

/-- The command changes nothing but these paths, and what is below or above them. -/
def Command.Within (paths : List FilePath) : Command → Prop
  | .makeDirectories path => ∃ named ∈ paths, path <+: named
  | .openNew path | .unlink path => ∃ named ∈ paths, named <+: path
  | .replace source destination => source ∈ paths ∧ destination ∈ paths
  | _ => True

/-- A directory lists what is below it. -/
def Listed : (command : Command) → Answer command → Prop
  | .rglob directory, .ok found => ∀ path ∈ found, directory <+: path
  | _, _ => True

def pathProtocol (paths : List FilePath) : Protocol Unit Command Answer where
  allowed _ := Command.Within paths
  after _ command answer _ := Listed command answer

section Programs

variable {store : LocalObjectStore} {paths : List FilePath} {key : Text} {path : FilePath}
  {α : Type} {p : StoreM α}

/-- A call that succeeds or fails is followed by the rest. -/
theorem keeps_call_bind {command : Command} {f : command.Value → StoreM α}
    (within : command.Within paths)
    (rest : ∀ value, Listed command (.ok value) →
      (f value).Keeps (pathProtocol paths) (fun _ _ => True) ()) :
    (call command >>= f).Keeps (pathProtocol paths) (fun _ _ => True) () := by
  refine ⟨within, fun answer phase listed => ?_⟩
  cases answer with
  | ok value => exact rest value listed
  | error error => trivial

theorem keeps_within (calls : p.Calls (Command.Within paths)) :
    p.Keeps (pathProtocol paths) (fun _ _ => True) () :=
  keeps_of_calls calls (fun _ _ within => within) fun _ _ => trivial

theorem mem_toList {x : Except PyError FilePath} (found : x = .ok path) :
    path ∈ x.toOption.toList := by
  rw [found]
  exact List.mem_singleton_self path

theorem within_writeChunks {handle : Nat} {failure : Option PyError} (chunks : List Bytes) :
    (writeChunks handle failure chunks).Calls (Command.Within paths) := by
  induction chunks with
  | nil =>
    cases failure with
    | none => exact calls_call trivial
    | some error => trivial
  | cons chunk chunks ih => exact (calls_call trivial).bind fun _ => ih

theorem within_readChunks {handle readChunkBytes : Nat} (limit : Nat) (yielded : List Bytes) :
    (readChunks handle readChunkBytes limit yielded).Calls (Command.Within paths) := by
  induction limit generalizing yielded with
  | zero => trivial
  | succ limit ih =>
    refine (calls_call trivial).bind fun chunk => ?_
    split
    · trivial
    · exact ih _

theorem within_writeFile {stream : ByteStream} {handle : Nat} (named : path ∈ paths) :
    (LocalObjectStore.writeFile key path stream handle).Calls (Command.Within paths) := by
  have unlinks : (unlinkMissingOk path).Calls (Command.Within paths) :=
    calls_unlinkMissingOk ⟨path, named, List.prefix_rfl⟩
  have undone : ∀ error : PyError, (do
      call (.close handle)
      unlinkMissingOk path
      throw error : StoreM Unit).Calls (Command.Within paths) := fun error =>
    (calls_call trivial).bind fun _ => unlinks.bind fun _ => calls_throw
  exact ((within_writeChunks _).tryCatch undone).bind fun _ =>
    (calls_call trivial).bind fun _ => calls_metadata trivial

theorem within_deleteStale {olderThan : Nat} (found : List FilePath)
    (below : ∀ path ∈ found, ∃ named ∈ paths, named <+: path) (deleted : Nat) :
    (deleteStale olderThan found deleted).Calls (Command.Within paths) := by
  induction found generalizing deleted with
  | nil => trivial
  | cons path found ih =>
    have rest := ih fun other member => below other (List.mem_cons_of_mem _ member)
    rw [deleteStale]
    refine (calls_call trivial).bind fun isFile => ?_
    split
    · exact rest deleted
    · refine (calls_call trivial).bind fun stat => ?_
      split
      · exact (calls_unlinkMissingOk (below path List.mem_cons_self)).bind fun _ => rest _
      · exact rest deleted

theorem within_ofExcept {x : Except PyError FilePath} {f : FilePath → StoreM α}
    (rest : ∀ path, x = .ok path → (f path).Calls (Command.Within paths)) :
    (ofExcept x >>= f).Calls (Command.Within paths) := by
  cases x with
  | ok path => exact rest path rfl
  | error error => trivial

/-- Every call keeps to its paths. -/
theorem keeps_paths (store : LocalObjectStore) (storeCall : StoreCall) :
    (storeCall.program store).Keeps (pathProtocol (storeCall.paths store)) (fun _ _ => True) () := by
  cases storeCall with
  | write key stream =>
    refine keeps_within (within_ofExcept fun path named => ?_)
    have member := mem_toList named
    refine (calls_call ⟨path, member, List.dropLast_prefix path⟩).bind fun _ => ?_
    exact (calls_call ⟨path, member, List.prefix_rfl⟩).bind fun _ => within_writeFile member
  | read readChunkBytes limit key =>
    refine keeps_within (within_ofExcept fun path named => ?_)
    refine (calls_call trivial).bind fun handle => ?_
    refine Calls.bind ((within_readChunks limit []).tryCatch fun error => ?_) fun _ => ?_
    · exact (calls_call trivial).bind fun _ => calls_throw
    · exact (calls_call trivial).bind fun _ => calls_pure
  | stat key => exact keeps_within (within_ofExcept fun path named => calls_metadata trivial)
  | move sourceKey destinationKey =>
    refine keeps_within (within_ofExcept fun source named =>
      within_ofExcept fun destination named' => ?_)
    have first := List.mem_append_left (store.path destinationKey).toOption.toList (mem_toList named)
    have second := List.mem_append_right (store.path sourceKey).toOption.toList (mem_toList named')
    refine (calls_call ⟨destination, second, List.dropLast_prefix destination⟩).bind fun _ => ?_
    exact (calls_call ⟨first, second⟩).bind fun _ => calls_metadata trivial
  | delete key =>
    exact keeps_within (within_ofExcept fun path named =>
      calls_unlinkMissingOk ⟨path, mem_toList named, List.prefix_rfl⟩)
  | deleteStaleStaging olderThan =>
    show (LocalObjectStore.deleteStaleStaging store olderThan).Keeps _ _ _
    rw [LocalObjectStore.deleteStaleStaging]
    cases named : store.path "staging".toList with
    | error error => trivial
    | ok staging =>
      refine keeps_call_bind trivial fun there _ => ?_
      split
      · trivial
      · refine keeps_call_bind trivial fun found below => keeps_within ?_
        exact within_deleteStale found (fun path member =>
          ⟨staging, mem_toList named, below path member⟩) 0

end Programs

/-! ## Frames -/

section Frames

variable {store : LocalObjectStore} {disk : Disk} {s : System}
  {events : List (ThreadEvent StoreCall Input)} {path : FilePath}

/-- The call leaves the path alone, but for making it a directory again. -/
def StoreCall.Spares (store : LocalObjectStore) (disk : Disk) (path : FilePath)
    (storeCall : StoreCall) : Prop :=
  ∀ named ∈ storeCall.paths store, ¬ named <+: path ∧
    (path <+: named → disk.lookup path = some .directory)

theorem perform_spares {disk' : Disk} {storeCall : StoreCall} {command : Command}
    (spares : storeCall.Spares store disk path)
    (within : command.Within (storeCall.paths store)) (input : Input)
    (same : disk'.lookup path = disk.lookup path) :
    (perform input disk' command).2.lookup path = disk.lookup path := by
  have kept : ∀ result : Except FileError Disk,
      (∀ disk'', result = .ok disk'' → disk''.lookup path = disk.lookup path) →
      (changed disk' result).2.lookup path = disk.lookup path := by
    intro result holds
    cases result with
    | ok disk'' => exact holds disk'' rfl
    | error error => exact same
  cases command with
  | makeDirectories made =>
    refine kept _ fun disk'' success => ?_
    obtain ⟨named, member, above⟩ := within
    rw [(FileSystem.makeDirectories_ok success).2]
    split
    next on => exact ((spares named member).2 (on.trans above)).symm
    next => exact same
  | openNew new =>
    obtain ⟨named, member, below⟩ := within
    cases success : disk'.create new input.now with
    | error error =>
      rw [perform, success]
      exact same
    | ok created =>
      have differs : path ≠ new := by
        rintro rfl
        exact (spares named member).1 below
      rw [perform, success]
      show created.2.lookup path = _
      rw [(FileSystem.create_ok success).2.2.2, if_neg differs, same]
  | replace source destination =>
    refine kept _ fun disk'' success => ?_
    obtain ⟨-, -, ⟨-, rfl⟩ | ⟨-, lookup⟩⟩ := FileSystem.rename_ok success
    · exact same
    · rw [lookup, if_neg (spares _ within.2).1, if_neg (spares _ within.1).1, same]
  | unlink gone =>
    refine kept _ fun disk'' success => ?_
    obtain ⟨named, member, below⟩ := within
    have differs : path ≠ gone := by
      rintro rfl
      exact (spares named member).1 below
    rw [(FileSystem.unlink_ok success).2.2, if_neg differs, same]
  | _ => exact same

theorem execute_spares {disk' : Disk} {storeCall : StoreCall} {command : Command}
    (spares : storeCall.Spares store disk path)
    (within : command.Within (storeCall.paths store)) (input : Input)
    (same : disk'.lookup path = disk.lookup path) :
    Listed command (execute input disk' command).1 ∧
      (execute input disk' command).2.lookup path = disk.lookup path := by
  have failed : ∀ error : PyError, Listed command (.error error) := by
    intro error
    cases command <;> trivial
  rw [execute]
  cases input.failure with
  | none =>
    refine ⟨?_, perform_spares spares within input same⟩
    cases command with
    | rglob directory => exact fun path member => (FileSystem.mem_below.1 member).2.1
    | _ => trivial
  | some failure =>
    obtain ⟨error, effect⟩ := failure
    cases effect with
    | true => exact ⟨failed error, perform_spares spares within input same⟩
    | false => exact ⟨failed error, same⟩

theorem lookup_kept (run : Run (stepOf (next store)) ⟨disk, []⟩ events s)
    (spares : ∀ storeCall, .start storeCall ∈ events → storeCall.Spares store disk path) :
    s.store.lookup path = disk.lookup path := by
  obtain ⟨phases, -, same, -⟩ := Threads.keeps_invariant
    (fun storeCall => pathProtocol (storeCall.paths store)) (fun _ _ _ => True)
    (fun disk' phases => disk'.lookup path = disk.lookup path ∧
      ∀ party ∈ phases, party.1.Spares store disk path)
    (fun disk' phases storeCall started kept => by
      refine ⟨(), keeps_paths store storeCall, kept.1, fun party member => ?_⟩
      obtain old | new := List.mem_append.mp member
      · exact kept.2 party old
      · rw [List.mem_singleton.mp new]
        exact spares storeCall started)
    (fun disk' phases i storeCall phase command input kept here within => by
      have own := kept.2 _ (List.mem_of_getElem? here)
      obtain ⟨listed, same⟩ := execute_spares own within input kept.1
      refine ⟨(), listed, same, fun party member => ?_⟩
      obtain rfl | old := mem_of_set member
      · exact own
      · exact kept.2 party old)
    run ⟨[], Threads.inPhases_nil, rfl, fun _ member => absurd member List.not_mem_nil⟩
  exact same

theorem fileAt_kept (bounded : disk.Bounded) (run : Run (stepOf (next store)) ⟨disk, []⟩ events s)
    (same : s.store.lookup path = disk.lookup path) : s.store.fileAt path = disk.fileAt path := by
  obtain ⟨phases, -, owned⟩ := owned_of_run bounded run
  exact FileSystem.fileAt_congr same fun n found => owned.old n (bounded path n found)

/-- A path that none of the calls names, nor a directory above it, keeps its file, whatever runs at
the same time. -/
theorem path_kept (bounded : disk.Bounded) (run : Run (stepOf (next store)) ⟨disk, []⟩ events s)
    (spares : ∀ storeCall, .start storeCall ∈ events → storeCall.Spares store disk path) :
    s.store.lookup path = disk.lookup path ∧ s.store.fileAt path = disk.fileAt path := by
  have same := lookup_kept run spares
  exact ⟨same, fileAt_kept bounded run same⟩

/-! An object next to those of the calls, and a file next to the root. -/

def keptDisk : Disk :=
  ⟨[([['r']], .directory), ([['r'], ['k']], .file 0), ([['x']], .file 1)], [⟨[7], 0⟩, ⟨[8], 0⟩]⟩

theorem bounded_keptDisk : keptDisk.Bounded :=
  FileSystem.bounded_of_entries (by simp [keptDisk])

def keptSystem : System :=
  (exec (next sampleStore) ⟨keptDisk, []⟩ sampleEvents).getD ⟨keptDisk, []⟩

theorem run_keptSystem : Run (stepOf (next sampleStore)) ⟨keptDisk, []⟩ sampleEvents keptSystem := by
  have executed : (exec (next sampleStore) ⟨keptDisk, []⟩ sampleEvents).isSome = true := by
    decide
  obtain ⟨s, ran⟩ := Option.isSome_iff_exists.mp executed
  rw [keptSystem, ran]
  exact .of_exec ran

theorem path_kept_sample : keptSystem.store.lookup [['r'], ['k']] = keptDisk.lookup [['r'], ['k']] ∧
    keptSystem.store.fileAt [['r'], ['k']] = keptDisk.fileAt [['r'], ['k']] := by
  refine path_kept bounded_keptDisk run_keptSystem fun storeCall started => ?_
  simp only [sampleEvents, List.mem_append, List.mem_map, List.mem_cons, List.not_mem_nil, or_false,
    ThreadEvent.start.injEq, reduceCtorEq, and_false, exists_false] at started
  obtain rfl | rfl | rfl | rfl := started <;> unfold StoreCall.Spares <;> decide

/-- `_path` lets no key out of the root. -/
theorem root_of_path {key : Text} {named : FilePath} (found : store.path key = .ok named) :
    store.root <+: named := by
  rw [LocalObjectStore.path] at found
  split at found
  · cases found
  split at found
  · cases found
  dsimp only at found
  split at found
  next inside =>
    cases found
    exact inside
  next => cases found

theorem root_of_paths {storeCall : StoreCall} {named : FilePath}
    (member : named ∈ storeCall.paths store) : store.root <+: named := by
  have one : ∀ key, named ∈ (store.path key).toOption.toList → store.root <+: named := by
    intro key listed
    cases found : store.path key with
    | error error =>
      rw [found] at listed
      cases listed
    | ok path =>
      rw [found] at listed
      exact root_of_path (List.mem_singleton.mp listed ▸ found)
  cases storeCall with
  | write key stream => exact one key member
  | delete key => exact one key member
  | deleteStaleStaging olderThan => exact one _ member
  | move sourceKey destinationKey =>
    exact (List.mem_append.mp member).elim (one sourceKey) (one destinationKey)
  | read | stat => cases member

theorem spares_of_outside
    (directories : ∀ above, above <+: store.root → disk.lookup above = some .directory)
    (outside : ¬ store.root <+: path) (storeCall : StoreCall) :
    storeCall.Spares store disk path := by
  intro named member
  have root := root_of_paths member
  refine ⟨fun above => outside (root.trans above), fun below => ?_⟩
  obtain inside | above := List.prefix_or_prefix_of_prefix root below
  · exact absurd inside outside
  · exact directories path above

/-- No call, whatever keys it is given, changes anything outside of the root. -/
theorem outside_kept (bounded : disk.Bounded)
    (directories : ∀ above, above <+: store.root → disk.lookup above = some .directory)
    (run : Run (stepOf (next store)) ⟨disk, []⟩ events s) (outside : ¬ store.root <+: path) :
    s.store.lookup path = disk.lookup path ∧ s.store.fileAt path = disk.fileAt path := by
  have same := lookup_kept run fun storeCall _ => spares_of_outside directories outside storeCall
  exact ⟨same, fileAt_kept bounded run same⟩

theorem outside_kept_sample : keptSystem.store.lookup [['x']] = keptDisk.lookup [['x']] ∧
    keptSystem.store.fileAt [['x']] = keptDisk.fileAt [['x']] := by
  refine outside_kept bounded_keptDisk (fun above isAbove => ?_) run_keptSystem (by decide)
  obtain rfl | rfl : above = [] ∨ above = [['r']] := by
    simpa [sampleStore, List.prefix_cons_iff] using isAbove
  all_goals decide

end Frames

end SupportPilot.Storage
