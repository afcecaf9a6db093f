import SupportPilot.Lib.Protocol
import SupportPilot.Storage.Store

/-! # Calls of the object store that run at the same time

The steps of any number of calls interleave in any order, under any keys, and any of them may fail.
What is stored nevertheless comes from one call of `write` (`object_of_one_write`), and so does what
is read (`read_of_one_object`): a file is only written by the call that created it. -/

namespace SupportPilot.Storage

open Lib Program

abbrev System := Threads Disk Command Answer PyError StoreCall.Result

def next (store : LocalObjectStore) : System → ThreadEvent StoreCall Input → Option System :=
  Threads.next execute (StoreCall.program store)

/-! ## The protocol of a call -/

inductive Phase where
  | idle
  | writing (handle : Nat) (written : Bytes)
  | reading (handle : Nat) (yielded : Bytes) (ended : Bool)

def ByteStream.content (stream : ByteStream) : Bytes := stream.chunks.flatten

/-- The command neither opens a file nor touches an open one. -/
def Command.Plain : Command → Prop
  | .openNew _ | .write _ _ | .openFile _ | .read _ _ _ => False
  | _ => True

/-- In which phase an answer leaves a call.  A failure may have had its effect. -/
inductive Leads : Phase → (command : Command) → Answer command → Phase → Prop
  | created {path : FilePath} {handle : Nat} :
    Leads .idle (.openNew path) (.ok handle) (.writing handle [])
  | createdUnseen {path : FilePath} {error : PyError} {handle : Nat} :
    Leads .idle (.openNew path) (.error error) (.writing handle [])
  | appended {handle : Nat} {chunk written : Bytes} (answer : Answer (.write handle chunk)) :
    Leads (.writing handle written) (.write handle chunk) answer
      (.writing handle (written ++ chunk))
  | opened {path : FilePath} {handle : Nat} :
    Leads .idle (.openFile path) (.ok handle) (.reading handle [] false)
  | read {handle offset size : Nat} {yielded chunk : Bytes} {ended : Bool} :
    Leads (.reading handle yielded ended) (.read handle offset size) (.ok chunk)
      (.reading handle (yielded ++ chunk) (chunk = [] && 0 < size))
  | plain {phase : Phase} {command : Command} {value : command.Value}
      (plain : command.Plain) : Leads phase command (.ok value) phase
  | failed {phase : Phase} {command : Command} {error : PyError} :
    Leads phase command (.error error) phase

/-- A call of `write` creates one file, and appends a part of its stream to that file alone. -/
def fileProtocol (storeCall : StoreCall) : Protocol Phase Command Answer where
  allowed phase
    | .openNew _ => phase = .idle ∧ ∃ key stream, storeCall = .write key stream
    | .write handle chunk => ∃ key stream written, storeCall = .write key stream ∧
        phase = .writing handle written ∧ written ++ chunk <+: stream.content
    | .openFile _ => phase = .idle
    | .read handle offset _ => ∃ yielded ended, phase = .reading handle yielded ended ∧
        offset = yielded.length
    | _ => True
  after := Leads

/-- How a call ends: `write` has written all of its stream, and `read` yields what it has read. -/
def fileEnds : (storeCall : StoreCall) → Except PyError storeCall.Result → Phase → Prop
  | .write _ stream, .ok _, phase => ∃ handle, phase = .writing handle stream.content
  | .read readChunkBytes _ _, .ok result, phase => ∃ handle ended,
      phase = .reading handle result.1.flatten ended ∧
        (result.2 = true → 0 < readChunkBytes → ended = true)
  | _, _, _ => True

section Keeps

variable {storeCall : StoreCall} {α : Type} {phase : Phase} {p : StoreM α}
  {Q : Except PyError α → Phase → Prop} {ok : Command → Prop}

theorem calls_ofExcept (result : Except PyError α) : (ofExcept result).Calls ok := by
  cases result <;> trivial

theorem calls_call {command : Command} (allowed : ok command) : (call command).Calls ok :=
  ⟨allowed, fun answer => by cases answer <;> trivial⟩

theorem calls_unlinkMissingOk {path : FilePath} (allowed : ok (.unlink path)) :
    (unlinkMissingOk path).Calls ok :=
  (calls_call allowed).tryCatch fun error => by split <;> trivial

theorem calls_metadata {key : Text} {path : FilePath} (allowed : ok (.stat path)) :
    (LocalObjectStore.metadata key path).Calls ok :=
  (calls_call allowed).bind fun _ => calls_pure

/-- What neither creates nor opens a file leaves the phase. -/
theorem keeps_of_plain (calls : p.Calls Command.Plain)
    (holds : ∀ result, Q result phase) : p.Keeps (fileProtocol storeCall) Q phase := by
  induction p with
  | done a => exact holds _
  | raise e => exact holds _
  | call command rest ih =>
    obtain ⟨plain, calls⟩ := calls
    refine ⟨?_, fun answer phase' leads => ?_⟩
    · cases command <;> trivial
    · cases leads with
      | plain => exact ih _ (calls _)
      | failed => exact ih _ (calls _)
      | _ => cases plain

theorem keeps_ofExcept {result : Except PyError α} (holds : Q result phase) :
    (ofExcept result).Keeps (fileProtocol storeCall) Q phase := by
  cases result <;> exact holds

end Keeps

section Programs

variable (store : LocalObjectStore) {key : Text} {stream : ByteStream} {handle : Nat}

theorem keeps_writeChunks (chunks : List Bytes) (written : Bytes)
    (whole : written ++ chunks.flatten = stream.content) :
    (writeChunks handle stream.failure chunks).Keeps (fileProtocol (.write key stream))
      (onResult (fun _ phase => phase = .writing handle stream.content) fun _ _ => True)
      (.writing handle written) := by
  -- what has been written and what is left are the stream
  generalize stream.failure = failure
  induction chunks generalizing written with
  | nil =>
    rw [List.flatten_nil, List.append_nil] at whole
    cases failure with
    | none =>
      refine keeps_of_plain (calls_call trivial) fun result => ?_
      cases result with
      | ok value => exact congrArg _ whole
      | error error => trivial
    | some error => trivial
  | cons chunk chunks ih =>
    rw [List.flatten_cons, ← List.append_assoc] at whole
    rw [writeChunks, keeps_bind]
    refine ⟨⟨key, stream, written, rfl, rfl, ⟨_, whole⟩⟩, fun answer phase' leads => ?_⟩
    cases leads with
    | appended =>
      cases answer with
      | ok value => exact ih _ whole
      | error error => trivial
    | plain opens => cases opens
    | failed => trivial

theorem keeps_writeFile (path : FilePath) :
    (LocalObjectStore.writeFile key path stream handle).Keeps (fileProtocol (.write key stream))
      (fileEnds (.write key stream)) (.writing handle []) := by
  rw [LocalObjectStore.writeFile, keeps_bind, keeps_tryCatch]
  refine (keeps_writeChunks stream.chunks [] rfl).mono fun result phase => ?_
  cases result with
  | error error =>
    intro _
    rw [onResult_error, keeps_bind]
    refine keeps_of_plain (calls_call trivial) fun result => ?_
    cases result with
    | error error => trivial
    | ok value =>
      rw [onResult_ok, keeps_bind]
      refine keeps_of_plain (calls_unlinkMissingOk trivial) fun result => ?_
      cases result <;> trivial
  | ok value =>
    rintro rfl
    have closed : (do
        call (.close handle)
        LocalObjectStore.metadata key path).Calls Command.Plain :=
      Calls.bind (calls_call (by trivial)) fun _ => calls_metadata (by trivial)
    refine keeps_of_plain closed fun result => ?_
    cases result with
    | error error => trivial
    | ok metadata => exact ⟨handle, rfl⟩

theorem keeps_write : (store.write key stream).Keeps (fileProtocol (.write key stream))
    (fileEnds (.write key stream)) .idle := by
  rw [LocalObjectStore.write, keeps_bind]
  refine keeps_ofExcept ?_
  cases store.path key with
  | error error => trivial
  | ok path =>
    rw [onResult_ok, keeps_bind]
    refine keeps_of_plain (calls_call trivial) fun result => ?_
    cases result with
    | error error => trivial
    | ok value =>
      rw [onResult_ok, keeps_bind]
      refine ⟨⟨rfl, key, stream, rfl⟩, fun answer phase' leads => ?_⟩
      cases leads with
      | createdUnseen => trivial
      | failed => trivial
      | plain opens => cases opens
      | created => exact keeps_writeFile path

theorem keeps_readChunks {readChunkBytes : Nat} {first : Nat} (limit : Nat) (yielded : List Bytes)
    (ended : Bool) : (readChunks handle readChunkBytes limit yielded).Keeps
      (fileProtocol (.read readChunkBytes first key))
      (fileEnds (.read readChunkBytes first key)) (.reading handle yielded.flatten ended) := by
  induction limit generalizing yielded ended with
  | zero => exact ⟨handle, ended, rfl, fun done => by cases done⟩
  | succ limit ih =>
    rw [readChunks, keeps_bind]
    refine ⟨⟨_, ended, rfl, rfl⟩, fun answer phase' leads => ?_⟩
    cases leads with
    | failed => trivial
    | plain opens => cases opens
    | @read _ _ _ _ chunk =>
      show (if chunk = [] then _ else _ : StoreM _).Keeps _ _ _
      split
      next last =>
        refine ⟨handle, _, by rw [last, List.append_nil], fun _ positive => ?_⟩
        simp [positive]
      next more =>
        have yields : (yielded ++ [chunk]).flatten = yielded.flatten ++ chunk := by simp
        rw [← yields]
        exact ih _ _

theorem keeps_read {readChunkBytes limit : Nat} : (store.read readChunkBytes limit key).Keeps
    (fileProtocol (.read readChunkBytes limit key)) (fileEnds (.read readChunkBytes limit key))
    .idle := by
  rw [LocalObjectStore.read, keeps_bind]
  refine keeps_ofExcept ?_
  cases store.path key with
  | error error => trivial
  | ok path =>
    rw [onResult_ok, keeps_bind]
    refine ⟨rfl, fun answer phase' leads => ?_⟩
    cases leads with
    | failed => trivial
    | plain opens => cases opens
    | @opened _ handle =>
      rw [keeps_pure, onResult_ok, keeps_bind, keeps_tryCatch]
      refine (keeps_readChunks limit [] false).mono fun result phase ends => ?_
      cases result with
      | error error =>
        rw [onResult_error, keeps_bind]
        refine keeps_of_plain (calls_call trivial) fun result => ?_
        cases result <;> trivial
      | ok result =>
        rw [onResult_ok, onResult_ok, keeps_bind]
        refine keeps_of_plain (calls_call trivial) fun closed => ?_
        cases closed with
        | error error => trivial
        | ok value => exact ends

theorem calls_deleteStale {olderThan : Nat} (paths : List FilePath) (deleted : Nat) :
    (deleteStale olderThan paths deleted).Calls Command.Plain := by
  induction paths generalizing deleted with
  | nil => trivial
  | cons path paths ih =>
    rw [deleteStale]
    refine (calls_call trivial).bind fun isFile => ?_
    split
    · exact ih deleted
    · refine (calls_call trivial).bind fun stat => ?_
      split
      · exact (calls_unlinkMissingOk trivial).bind fun _ => ih _
      · exact ih deleted

/-- Every call keeps to the protocol. -/
theorem keeps_program (storeCall : StoreCall) : (storeCall.program store).Keeps
    (fileProtocol storeCall) (fileEnds storeCall) .idle := by
  cases storeCall with
  | write key stream => exact keeps_write store
  | read readChunkBytes limit key => exact keeps_read store
  | stat key =>
    refine keeps_of_plain ?_ fun _ => trivial
    exact (calls_ofExcept _).bind fun _ => calls_metadata trivial
  | move sourceKey destinationKey =>
    refine keeps_of_plain ?_ fun _ => trivial
    exact (calls_ofExcept _).bind fun _ => (calls_ofExcept _).bind fun _ =>
      (calls_call trivial).bind fun _ => (calls_call trivial).bind fun _ => calls_metadata trivial
  | delete key =>
    refine keeps_of_plain ?_ fun _ => trivial
    exact (calls_ofExcept _).bind fun _ => calls_unlinkMissingOk trivial
  | deleteStaleStaging olderThan =>
    refine keeps_of_plain ?_ fun _ => trivial
    refine (calls_ofExcept _).bind fun _ => (calls_call trivial).bind fun there => ?_
    split
    · trivial
    · exact (calls_call trivial).bind fun paths => calls_deleteStale paths 0

end Programs

/-! ## Who wrote what -/

/-- The files that were there before are as they were, and every other one is in the hand of the
call that writes it. -/
structure Owned (disk₀ disk : Disk) (phases : List (StoreCall × Phase)) : Prop where
  bounded : disk.Bounded
  grown : disk₀.inodes.length ≤ disk.inodes.length
  old : ∀ n < disk₀.inodes.length, disk.inodes[n]? = disk₀.inodes[n]?
  authored : ∀ n file, disk₀.inodes.length ≤ n → disk.inodes[n]? = some file →
    ∃ (i : Nat) (storeCall : StoreCall), phases[i]? = some (storeCall, .writing n file.content)
  writing : ∀ (i n : Nat) storeCall written, phases[i]? = some (storeCall, .writing n written) →
    disk₀.inodes.length ≤ n ∧ (∃ file, disk.inodes[n]? = some file ∧ file.content = written) ∧
      ∃ key stream, storeCall = .write key stream ∧ written <+: stream.content
  exclusive : Exclusive (fun party n => ∃ written, party.2 = .writing n written) phases
  reading : ∀ (i n : Nat) storeCall yielded ended,
    phases[i]? = some (storeCall, .reading n yielded ended) →
      ∃ file, disk.inodes[n]? = some file ∧ yielded <+: file.content ∧
        (n < disk₀.inodes.length → ended = true → yielded = file.content)

section Steps

variable {disk₀ disk disk' : Disk} {phases : List (StoreCall × Phase)} {i : Nat}
  {storeCall : StoreCall} {phase : Phase}

/-- Only inodes count. -/
theorem Owned.congr (owned : Owned disk₀ disk phases) (bounded : disk'.Bounded)
    (inodes : disk'.inodes = disk.inodes) : Owned disk₀ disk' phases := by
  obtain ⟨-, grown, old, authored, writing, exclusive, reading⟩ := owned
  rw [← inodes] at grown old authored writing reading
  exact ⟨bounded, grown, old, authored, writing, exclusive, reading⟩

theorem set_self {α : Type} {l : List α} {a : α} (here : l[i]? = some a) : l.set i a = l := by
  obtain ⟨bound, found⟩ := List.getElem?_eq_some_iff.mp here
  rw [← found, List.set_getElem_self]

/-- A call that goes on to read. -/
theorem Owned.read (owned : Owned disk₀ disk phases) {n : Nat} {yielded : Bytes} {ended : Bool}
    (here : phases[i]? = some (storeCall, phase))
    (reads : ∀ n written, phase ≠ .writing n written)
    (file : ∃ file, disk.inodes[n]? = some file ∧ yielded <+: file.content ∧
      (n < disk₀.inodes.length → ended = true → yielded = file.content)) :
    Owned disk₀ disk (phases.set i (storeCall, .reading n yielded ended)) := by
  refine ⟨owned.bounded, owned.grown, owned.old, fun m file new found => ?_,
    fun j m other written there => ?_, owned.exclusive.set here fun m => ?_,
    fun j m other yielded' ended' there => ?_⟩
  · obtain ⟨j, other, there⟩ := owned.authored m file new found
    refine ⟨j, other, ?_⟩
    have differs : i ≠ j := by
      rintro rfl
      rw [here, Option.some.injEq, Prod.mk.injEq] at there
      exact reads _ _ there.2
    rw [List.getElem?_set_ne differs, there]
  · obtain ⟨-, same⟩ | ⟨-, before⟩ := getElem?_of_set there
    · cases same
    · exact owned.writing j m other written before
  · rintro ⟨written, same⟩
    cases same
  · obtain ⟨-, same⟩ | ⟨-, before⟩ := getElem?_of_set there
    · cases same
      exact file
    · exact owned.reading j m other yielded' ended' before

/-- A call that creates its file, or appends to it. -/
theorem Owned.write (owned : Owned disk₀ disk phases) {n : Nat} {key : Text} {stream : ByteStream}
    (file : Inode UInt8) (here : phases[i]? = some (.write key stream, phase))
    (mine : (∃ written, phase = .writing n written) ∨ phase = .idle ∧ disk.inodes[n]? = none)
    (bounded : disk'.Bounded) (grown : disk.inodes.length ≤ disk'.inodes.length)
    (new : disk₀.inodes.length ≤ n) (others : ∀ m ≠ n, disk'.inodes[m]? = disk.inodes[m]?)
    (stored : disk'.inodes[n]? = some file) (part : file.content <+: stream.content)
    (longer : ∀ before, disk.inodes[n]? = some before → before.content <+: file.content) :
    Owned disk₀ disk' (phases.set i (.write key stream, .writing n file.content)) := by
  obtain ⟨bound, -⟩ := List.getElem?_eq_some_iff.mp here
  have alone : ∀ j party written, j ≠ i → phases[j]? = some party → party.2 ≠ .writing n written := by
    intro j party written differs there same
    obtain ⟨mineToo, rfl⟩ | ⟨-, missing⟩ := mine
    · exact differs (owned.exclusive j i _ _ n there here ⟨written, same⟩ ⟨mineToo, rfl⟩)
    · obtain ⟨-, ⟨before, found, -⟩, -⟩ := owned.writing j n party.1 written (by rw [← same, there])
      rw [missing] at found
      cases found
  refine ⟨bounded, owned.grown.trans grown, fun m low => ?_, fun m other high found => ?_,
    fun j m other written there => ?_, owned.exclusive.set here fun m holds => ?_,
    fun j m other yielded ended there => ?_⟩
  · rw [others m (by omega), owned.old m low]
  · by_cases same : m = n
    · subst same
      rw [stored, Option.some.injEq] at found
      exact ⟨i, _, by rw [List.getElem?_set_self bound, found]⟩
    · rw [others m same] at found
      obtain ⟨j, call, there⟩ := owned.authored m other high found
      refine ⟨j, call, ?_⟩
      have differs : i ≠ j := by
        rintro rfl
        rw [here, Option.some.injEq, Prod.mk.injEq] at there
        obtain ⟨written, rfl⟩ | ⟨rfl, -⟩ := mine
        · cases there.2
          exact same rfl
        · cases there.2
      rw [List.getElem?_set_ne differs, there]
  · obtain ⟨rfl, same⟩ | ⟨differs, before⟩ := getElem?_of_set there
    · cases same
      exact ⟨new, ⟨file, stored, rfl⟩, key, stream, rfl, part⟩
    · have apart : m ≠ n := by
        rintro rfl
        exact alone j _ written differs before rfl
      obtain ⟨high, found, author⟩ := owned.writing j m other written before
      exact ⟨high, others m apart ▸ found, author⟩
  · obtain ⟨written, same⟩ := holds
    cases same
    refine .inr fun j party differs there => ?_
    rintro ⟨written, same⟩
    exact alone j party written differs there same
  · obtain ⟨-, same⟩ | ⟨-, before⟩ := getElem?_of_set there
    · cases same
    · obtain ⟨old, found, read, whole⟩ := owned.reading j m other yielded ended before
      by_cases same : m = n
      · subst same
        exact ⟨file, stored, read.trans (longer old found), fun low => absurd new (by omega)⟩
      · exact ⟨old, others m same ▸ found, read, whole⟩

theorem leads_plain {command : Command} (plain : command.Plain) (answer : Answer command) :
    Leads phase command answer phase := by
  cases answer with
  | ok value => exact .plain plain
  | error error => exact .failed

/-- What a command without open files does to the disk. -/
theorem perform_plain {command : Command} (plain : command.Plain) (input : Input)
    (bounded : disk.Bounded) :
    (perform input disk command).2.Bounded ∧ (perform input disk command).2.inodes = disk.inodes := by
  have kept : ∀ result : Except FileError Disk,
      (∀ disk', result = .ok disk' → disk'.Bounded ∧ disk'.inodes = disk.inodes) →
      (changed disk result).2.Bounded ∧ (changed disk result).2.inodes = disk.inodes := by
    intro result holds
    cases result with
    | ok disk' => exact holds disk' rfl
    | error error => exact ⟨bounded, rfl⟩
  cases command with
  | openNew | write | openFile | read => cases plain
  | makeDirectories path =>
    exact kept _ fun disk' made =>
      ⟨bounded.makeDirectories made, (FileSystem.makeDirectories_ok made).1⟩
  | replace source destination =>
    exact kept _ fun disk' renamed => ⟨bounded.rename renamed, (FileSystem.rename_ok renamed).1⟩
  | unlink path =>
    exact kept _ fun disk' gone => ⟨bounded.unlink gone, (FileSystem.unlink_ok gone).2.1⟩
  | flush | close | stat | pathExists | isFile | rglob => exact ⟨bounded, rfl⟩

/-- The answer may also be that of a failure. -/
theorem owned_performed (owned : Owned disk₀ disk phases) (here : phases[i]? = some (storeCall, phase))
    {command : Command} (allowed : (fileProtocol storeCall).allowed phase command) (input : Input)
    {answer : Answer command}
    (either : answer = (perform input disk command).1 ∨ ∃ error, answer = .error error) :
    ∃ phase', Leads phase command answer phase' ∧
      Owned disk₀ (perform input disk command).2 (phases.set i (storeCall, phase')) := by
  have stays : ∀ {disk' : Disk}, disk'.Bounded → disk'.inodes = disk.inodes →
      Owned disk₀ disk' (phases.set i (storeCall, phase)) := by
    intro disk' bounded inodes
    rw [set_self here]
    exact owned.congr bounded inodes
  by_cases plain : command.Plain
  · obtain ⟨bounded, inodes⟩ := perform_plain plain input owned.bounded
    exact ⟨phase, leads_plain plain answer, stays bounded inodes⟩
  cases command with
  | openNew path =>
    obtain ⟨rfl, key, stream, rfl⟩ := allowed
    cases made : disk.create path input.now with
    | error error =>
      obtain ⟨error', rfl⟩ : ∃ error, answer = .error error := by
        obtain rfl | failed := either
        · exact ⟨osError error, by rw [perform, made]⟩
        · exact failed
      rw [perform, made]
      exact ⟨_, .failed, stays owned.bounded rfl⟩
    | ok created =>
      obtain ⟨handle, disk'⟩ := created
      obtain ⟨-, rfl, inodes, -⟩ := FileSystem.create_ok made
      have leads : Leads .idle (.openNew path) answer (.writing disk.inodes.length []) := by
        obtain rfl | ⟨error, rfl⟩ := either
        · rw [perform, made]
          exact .created
        · exact .createdUnseen
      rw [perform, made]
      refine ⟨_, leads, owned.write ⟨[], input.now⟩ here (.inr ⟨rfl, by simp⟩)
        (owned.bounded.create made) (by simp [inodes]) owned.grown (fun m other => ?_)
        (by simp [inodes]) List.nil_prefix fun before found => absurd found (by simp)⟩
      rw [inodes, List.getElem?_append]
      split
      · rfl
      · rw [List.getElem?_eq_none (by simp; omega), List.getElem?_eq_none (by omega)]
  | write handle chunk =>
    obtain ⟨key, stream, written, rfl, rfl, part⟩ := allowed
    obtain ⟨high, ⟨file, found, rfl⟩, -⟩ := owned.writing i handle _ written here
    refine ⟨_, .appended answer, owned.write ⟨file.content ++ chunk, input.now⟩ here
      (.inl ⟨_, rfl⟩) (owned.bounded.append chunk) ?_ high (fun m other => ?_) ?_ part
      fun before found' => ?_⟩
    · simp [perform, FileSystem.append]
    · simp [perform, FileSystem.append, other.symm]
    · simp [perform, FileSystem.append, found]
    · rw [found, Option.some.injEq] at found'
      exact found' ▸ List.prefix_append _ _
  | openFile path =>
    obtain rfl := allowed
    cases opened : disk.openFile path with
    | error error =>
      obtain ⟨error', rfl⟩ : ∃ error, answer = .error error := by
        obtain rfl | failed := either
        · exact ⟨osError error, by rw [perform, answered, opened]; rfl⟩
        · exact failed
      exact ⟨_, .failed, stays owned.bounded rfl⟩
    | ok handle =>
      obtain rfl | ⟨error, rfl⟩ := either
      · have bound := owned.bounded path handle (FileSystem.openFile_ok opened)
        rw [perform, answered, opened]
        exact ⟨_, .opened, owned.read here (by simp) ⟨_, List.getElem?_eq_getElem bound,
          List.nil_prefix, fun _ ended => by cases ended⟩⟩
      · exact ⟨_, .failed, stays owned.bounded rfl⟩
  | read handle offset size =>
    obtain ⟨yielded, ended, rfl, rfl⟩ := allowed
    obtain rfl | ⟨error, rfl⟩ := either
    · obtain ⟨file, found, ⟨rest, whole⟩, -⟩ := owned.reading i handle _ yielded ended here
      have chunk : disk.readAt handle yielded.length size = rest.take size := by
        rw [FileSystem.readAt, found]
        simp only [← whole, List.drop_left]
      refine ⟨_, .read, owned.read here (by simp) ⟨file, found, ?_, fun _ done => ?_⟩⟩
      · rw [chunk, ← whole]
        exact (List.prefix_append_right_inj _).mpr (List.take_prefix _ _)
      · simp only [chunk, Bool.and_eq_true, decide_eq_true_eq, List.take_eq_nil_iff] at done
        obtain ⟨rfl | rfl, positive⟩ := done
        · exact absurd positive (Nat.lt_irrefl 0)
        · rw [chunk, ← whole, List.take_nil]
    · exact ⟨_, .failed, stays owned.bounded rfl⟩
  | _ => exact absurd trivial plain

theorem owned_executed (owned : Owned disk₀ disk phases) (here : phases[i]? = some (storeCall, phase))
    {command : Command} (allowed : (fileProtocol storeCall).allowed phase command) (input : Input) :
    ∃ phase', Leads phase command (execute input disk command).1 phase' ∧
      Owned disk₀ (execute input disk command).2 (phases.set i (storeCall, phase')) := by
  rw [execute]
  cases input.failure with
  | none => exact owned_performed owned here allowed input (.inl rfl)
  | some failure =>
    obtain ⟨error, effect⟩ := failure
    cases effect with
    | true => exact owned_performed owned here allowed input (.inr ⟨error, rfl⟩)
    | false => exact ⟨phase, .failed, by rw [set_self here]; exact owned⟩

/-- A new call has no file. -/
theorem Owned.concat (owned : Owned disk₀ disk phases) (storeCall : StoreCall) :
    Owned disk₀ disk (phases ++ [(storeCall, .idle)]) := by
  refine ⟨owned.bounded, owned.grown, owned.old, fun n file new found => ?_,
    fun j n other written there => ?_, owned.exclusive.append_idle fun party member => ?_,
    fun j n other yielded ended there => ?_⟩
  · obtain ⟨j, other, there⟩ := owned.authored n file new found
    obtain ⟨bound, -⟩ := List.getElem?_eq_some_iff.mp there
    exact ⟨j, other, by rw [List.getElem?_append_left bound, there]⟩
  · obtain before | ⟨-, same⟩ := getElem?_of_concat there
    · exact owned.writing j n other written before
    · cases same
  · rw [List.mem_singleton.mp member]
    rintro n ⟨written, same⟩
    cases same
  · obtain before | ⟨-, same⟩ := getElem?_of_concat there
    · exact owned.reading j n other yielded ended before
    · cases same

end Steps

/-! ## Runs -/

section Runs

variable {store : LocalObjectStore} {disk : Disk} {s : System}
  {events : List (ThreadEvent StoreCall Input)}

theorem owned_of_run (bounded : disk.Bounded) (run : Run (stepOf (next store)) ⟨disk, []⟩ events s) :
    ∃ phases, Threads.InPhases fileProtocol fileEnds s.threads phases ∧
      Owned disk s.store phases := by
  refine Threads.keeps_invariant fileProtocol fileEnds (Owned disk)
    (fun disk' phases storeCall _ owned => ⟨.idle, keeps_program store storeCall, owned.concat _⟩)
    (fun disk' phases i storeCall phase command input owned here allowed =>
      owned_executed owned here allowed input) run
    ⟨[], Threads.inPhases_nil, bounded, le_rfl, fun _ _ => rfl, fun n file high found => ?_,
      fun _ _ _ _ there => absurd there (by simp), .nil, fun _ _ _ _ _ there =>
        absurd there (by simp)⟩
  rw [List.getElem?_eq_none high] at found
  cases found

/-- The file comes from a call of `write`: it holds a part of its stream, and all of it once the call
has returned. -/
def Written (s : System) (file : Inode UInt8) : Prop :=
  ∃ (i : Nat) (key : Text) (stream : ByteStream) (program : StoreM ObjectMetadata),
    s.threads[i]? = some ⟨.write key stream, program⟩ ∧ file.content <+: stream.content ∧
      ∀ metadata, program = pure metadata → file.content = stream.content

theorem written_of_new {phases : List (StoreCall × Phase)}
    (threads : Threads.InPhases fileProtocol fileEnds s.threads phases)
    (owned : Owned disk s.store phases) {n : Nat} {file : Inode UInt8}
    (new : disk.inodes.length ≤ n) (found : s.store.inodes[n]? = some file) : Written s file := by
  obtain ⟨i, storeCall, here⟩ := owned.authored n file new found
  obtain ⟨-, -, key, stream, rfl, part⟩ := owned.writing i n storeCall _ here
  obtain ⟨⟨call, program⟩, there, inPhase⟩ := threads.thread here
  obtain rfl : .write key stream = call := inPhase.call
  refine ⟨i, key, stream, program, there, part, ?_⟩
  rintro metadata rfl
  obtain ⟨handle, same⟩ := inPhase.keeps
  exact (Phase.writing.inj same).2

/-- Whatever calls run at the same time, in whatever order their steps are executed, and whichever
of them fail: a file is one that was there before, or comes from one call of `write`. -/
theorem object_of_one_write (bounded : disk.Bounded)
    (run : Run (stepOf (next store)) ⟨disk, []⟩ events s) {path : FilePath} {file : Inode UInt8}
    (here : s.store.fileAt path = some file) : file ∈ disk.inodes ∨ Written s file := by
  obtain ⟨phases, threads, owned⟩ := owned_of_run bounded run
  rw [FileSystem.fileAt] at here
  split at here
  next n _ =>
    by_cases low : n < disk.inodes.length
    · rw [owned.old n low] at here
      exact .inl (List.mem_of_getElem? here)
    · exact .inr (written_of_new threads owned (Nat.le_of_not_lt low) here)
  next => cases here

/-! Two calls of `write` that overlap, a rename of the first object, and a call of `read` that has
opened it before. -/

def sampleStore : LocalObjectStore := ⟨[['r']], by decide⟩

def sampleDisk : Disk := ⟨[([['r']], .directory)], []⟩

def sampleEvents : List (ThreadEvent StoreCall Input) :=
  let step (i : Nat) : ThreadEvent StoreCall Input := .step i ⟨i, ⟨0, 0⟩, none⟩
  [.start (.write ['a'] ⟨[[1], [2]], none⟩), .start (.write ['b'] ⟨[[3], [4]], none⟩),
    .start (.read 1 3 ['a']), .start (.move ['a'] ['c'])] ++
  [0, 0, 1, 1, 0, 1, 2, 0, 1, 0, 0, 0, 2, 3, 3, 3, 1, 1, 1, 2, 2, 2].map step

theorem bounded_sampleDisk : sampleDisk.Bounded :=
  FileSystem.bounded_of_entries (by simp [sampleDisk])

def sampleSystem : System :=
  (exec (next sampleStore) ⟨sampleDisk, []⟩ sampleEvents).getD ⟨sampleDisk, []⟩

theorem run_sampleSystem : Run (stepOf (next sampleStore)) ⟨sampleDisk, []⟩ sampleEvents
    sampleSystem := by
  have executed : (exec (next sampleStore) ⟨sampleDisk, []⟩ sampleEvents).isSome = true := by
    decide
  obtain ⟨s, ran⟩ := Option.isSome_iff_exists.mp executed
  rw [sampleSystem, ran]
  exact .of_exec ran

theorem object_of_one_write_sample : ∃ file : Inode UInt8, file.content = [1, 2] ∧
    (file ∈ sampleDisk.inodes ∨ Written sampleSystem file) := by
  have here : sampleSystem.store.fileAt [['r'], ['c']] = some ⟨[1, 2], 0⟩ := by decide
  exact ⟨_, rfl, object_of_one_write bounded_sampleDisk run_sampleSystem here⟩

/-- So what a call of `read` yields is all of a file that was there before, as far as it has been
read, or a part of one that comes from one call of `write`. -/
theorem read_of_one_object (bounded : disk.Bounded)
    (run : Run (stepOf (next store)) ⟨disk, []⟩ events s) {i readChunkBytes limit : Nat} {key : Text}
    {chunks : List Bytes} {ended : Bool}
    (here : s.threads[i]? = some ⟨.read readChunkBytes limit key, pure (chunks, ended)⟩) :
    (∃ file ∈ disk.inodes, chunks.flatten <+: file.content ∧
        (ended = true → 0 < readChunkBytes → chunks.flatten = file.content)) ∨
      ∃ file, Written s file ∧ chunks.flatten <+: file.content := by
  obtain ⟨phases, threads, owned⟩ := owned_of_run bounded run
  obtain ⟨⟨storeCall, phase⟩, there, inPhase⟩ := threads.inPhase i _ here
  obtain ⟨n, last, rfl, whole⟩ := inPhase.keeps
  obtain ⟨file, found, part, complete⟩ := owned.reading i n storeCall _ last there
  by_cases low : n < disk.inodes.length
  · rw [owned.old n low] at found
    exact .inl ⟨file, List.mem_of_getElem? found, part, fun done positive =>
      complete low (whole done positive)⟩
  · exact .inr ⟨file, written_of_new threads owned (Nat.le_of_not_lt low) found, part⟩

theorem read_of_one_object_sample :
    (∃ file ∈ sampleDisk.inodes, [1, 2] <+: file.content ∧
      (true = true → 0 < 1 → [1, 2] = file.content)) ∨
      ∃ file, Written sampleSystem file ∧ [1, 2] <+: file.content := by
  have here : sampleSystem.threads[2]? = some ⟨.read 1 3 ['a'], pure ([[1], [2]], true)⟩ := rfl
  exact read_of_one_object bounded_sampleDisk run_sampleSystem here

end Runs

end SupportPilot.Storage
