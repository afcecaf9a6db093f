import SupportPilot.Documents.Stages
import SupportPilot.Storage.Effects
import SupportPilot.Storage.Keys
import SupportPilot.Worker.Main

/-! # What uploads and the worker make of the object store

Uploads and jobs work on a map of objects.  Where nothing else fails, an upload does to this map what
the calls of the store do that it stands for: `write` with the chunks that the upload lets pass,
`move` to the final key, and `delete`.  The worker checks what `stat` and `read` return. -/

namespace SupportPilot.Storage

open Lib Documents

/-- The chunks that an upload passes on to the store, behind so many bytes. -/
def uploadStream (maxUploadBytes : Nat) : Nat → List Bytes → ByteStream
  | _, [] => ⟨[], none⟩
  | byteSize, chunk :: reads =>
    if chunk = [] then ⟨[], none⟩
    else if maxUploadBytes < byteSize + chunk.length then
      ⟨[], some (.uploadTooLarge s!"upload exceeds the {maxUploadBytes}-byte limit")⟩
    else
      ⟨chunk :: (uploadStream maxUploadBytes (byteSize + chunk.length) reads).chunks,
        (uploadStream maxUploadBytes (byteSize + chunk.length) reads).failure⟩

/-- The objects of the keys that name a path. -/
def soundObjects (objects : ObjectKey → Option Bytes) : Objects {key : ObjectKey // Sound key} :=
  fun key => objects key.1

theorem soundObjects_update (objects : ObjectKey → Option Bytes)
    (key : {key : ObjectKey // Sound key}) (content : Option Bytes) :
    soundObjects (Function.update objects key.1 content) =
      Function.update (soundObjects objects) key content := by
  funext other
  simp only [soundObjects, Function.update_apply, Subtype.ext_iff]

section Stages

variable {service : UploadService} {call : UploadCall} {session : Session}

/-- The loop appends the stream, also the part in front of an exception. -/
theorem ends_uploadStream {key : ObjectKey} (reads : List Bytes) (chunkNumber : Nat)
    (received : Received) {written : Bytes} (stored : session.objects key = some written) :
    Lib.Ends (Documents.writeChunks none service key chunkNumber reads received) session
      (fun received' session' =>
        (uploadStream service.settings.maxUploadBytes received.byteSize reads).failure = none ∧
        received'.byteSize = received.byteSize +
          (uploadStream service.settings.maxUploadBytes received.byteSize reads).content.length ∧
        session' = { session with objects := Function.update session.objects key (some (written ++
          (uploadStream service.settings.maxUploadBytes received.byteSize reads).content)) })
      (fun error session' =>
        (uploadStream service.settings.maxUploadBytes received.byteSize reads).failure = some error ∧
        ∃ content, session' = { session with
          objects := Function.update session.objects key content }) := by
  have unchanged : session = { session with
      objects := Function.update session.objects key (some written) } := by
    rw [← stored, Function.update_eq_self]
  induction reads generalizing chunkNumber received written session with
  | nil =>
    rw [Documents.writeChunks, ends_bind, ends_attempt]
    refine ⟨fun _ => ?_, fun error fails => by cases fails⟩
    exact ⟨rfl, rfl, by simpa [uploadStream, ByteStream.content] using unchanged⟩
  | cons chunk reads ih =>
    rw [Documents.writeChunks, ends_bind, ends_attempt]
    refine ⟨fun _ => ?_, fun error fails => by cases fails⟩
    by_cases last : chunk = []
    · subst last
      simp only [if_true, ends_pure, uploadStream, ByteStream.content, List.flatten_nil,
        List.append_nil, List.length_nil, Nat.add_zero, true_and]
      exact unchanged
    · simp only [last, if_false, uploadStream]
      by_cases tooLong : service.settings.maxUploadBytes < received.byteSize + chunk.length
      · simp only [tooLong, if_true]
        exact ⟨rfl, some written, unchanged⟩
      · simp only [tooLong, if_false, ends_bind, ends_attempt, ends_modify]
        refine ⟨fun _ => ?_, fun error fails => by cases fails⟩
        rw [stored, Option.map_some]
        refine (ih (chunkNumber + 1) _ (Function.update_self ..) (by simp)).mono ?_ ?_
        · rintro received' session' ⟨whole, size, rfl⟩
          refine ⟨whole, ?_, ?_⟩
          · rw [size]
            simp only [ByteStream.content, List.flatten_cons, List.length_append]
            omega
          · simp [ByteStream.content]
        · rintro error session' ⟨raised, content, rfl⟩
          exact ⟨raised, content, by simp⟩

variable (store : LocalObjectStore) (key : {key : ObjectKey // Sound key})

/-- What is left of a failed upload is removed by a call of `delete`. -/
theorem upload_deletes : Lib.Ends (deleteObject key.1 : UploadM Unit) session
    (fun _ session' => Effect (objectKeys store) (soundObjects session.objects) (.delete key)
      (.ok ()) (soundObjects session'.objects)) (fun _ _ => False) := by
  rw [ends_deleteObject, soundObjects_update]
  exact .deleted

/-- The staged object is written by a call of `write`. -/
theorem upload_writes : Lib.Ends (writeObject none service call key.1) session
    (fun received session' => ∀ modified, Effect (objectKeys store) (soundObjects session.objects)
      (.write key (uploadStream service.settings.maxUploadBytes 0 call.reads))
      (.ok ⟨keyText key.1, received.byteSize, modified⟩) (soundObjects session'.objects))
    (fun error session' => Effect (objectKeys store) (soundObjects session.objects)
      (.write key (uploadStream service.settings.maxUploadBytes 0 call.reads))
      (.error error) (soundObjects session'.objects)) := by
  simp only [writeObject, ends_bind, ends_attempt, ends_get]
  refine ⟨fun _ => ?_, fun error fails => by cases fails⟩
  cases here : session.objects key.1 with
  | some content => exact .occupied here
  | none =>
    simp only [Option.isSome_none, Bool.false_eq_true, if_false, ends_bind, ends_pure,
      ends_putObject, ends_tryCatch, ends_attempt, ends_deleteObject, ends_throw]
    refine (ends_uploadStream call.reads 0 ⟨0, [], []⟩ (Function.update_self ..)).mono ?_ ?_
    · rintro received session' ⟨whole, size, rfl⟩
      refine ⟨fun _ => ⟨fun _ modified => ?_, fun error fails => by cases fails⟩,
        fun error fails => by cases fails⟩
      rw [size, Nat.zero_add, List.nil_append, Function.update_idem, soundObjects_update]
      have missing : soundObjects session.objects key = none := here
      exact .written missing whole modified
    · rintro error session' ⟨raised, content, rfl⟩
      have same : Function.update session.objects key.1 none = session.objects := by
        rw [← here, Function.update_eq_self]
      rw [Function.update_idem, Function.update_idem, same]
      exact .broken here raised

variable [UnicodeTables]

/-- It gets its final key by a call of `move`. -/
theorem upload_moves {target : Target} (staged : Sound call.stagingKey)
    (final : Sound (call.finalKey target.document.id)) :
    Lib.Ends (promote none call target) session
      (fun _ session' => ∃ content, session.objects call.stagingKey = some content ∧ ∀ modified,
        Effect (objectKeys store) (soundObjects session.objects)
          (.move ⟨call.stagingKey, staged⟩ ⟨call.finalKey target.document.id, final⟩)
          (.ok ⟨keyText (call.finalKey target.document.id), content.length, modified⟩)
          (soundObjects session'.objects))
      (fun error session' => Effect (objectKeys store) (soundObjects session.objects)
          (.move ⟨call.stagingKey, staged⟩ ⟨call.finalKey target.document.id, final⟩)
          (.error error) (soundObjects session'.objects)) := by
  simp only [promote, ends_bind, ends_attempt, ends_get]
  refine ⟨fun _ => ?_, fun error fails => by cases fails⟩
  cases here : session.objects call.stagingKey with
  | none => exact .unmoved here
  | some content =>
    simp only [ends_bind, ends_putObject, ends_attempt, ends_modify]
    refine ⟨fun _ => ⟨content, rfl, fun modified => ?_⟩, fun error fails => by cases fails⟩
    have moved := soundObjects_update
      (Function.update session.objects call.stagingKey none) ⟨_, final⟩ (some content)
    have gone := soundObjects_update session.objects ⟨call.stagingKey, staged⟩ none
    rw [gone] at moved
    show Effect _ _ _ _ (soundObjects (Function.update
      (Function.update session.objects call.stagingKey none) _ (some content)))
    rw [moved]
    have present : soundObjects session.objects ⟨call.stagingKey, staged⟩ = some content := here
    exact .moved present modified

end Stages

/-! ## The worker -/

theorem chunksOf_whole {size limit : Nat} {content : Bytes} (positive : 0 < size)
    (enough : content.length < limit) : (chunksOf size limit content).1.flatten = content := by
  induction limit generalizing content with
  | zero => omega
  | succ limit ih =>
    rw [chunksOf]
    split
    next last =>
      rw [List.take_eq_nil_iff] at last
      simp [last.resolve_left positive.ne']
    next more =>
      have nonempty : content ≠ [] := by
        rintro rfl
        exact more List.take_nil
      have length := List.length_pos_of_ne_nil nonempty
      rw [List.flatten_cons, ih (by rw [List.length_drop]; omega), List.take_append_drop]

section Worker

open Worker

variable (store : LocalObjectStore) {objects : ObjectKey → Option Bytes} {located : Located}
  (sound : Sound located.objectKey)

theorem worker_stats (modified : Nat) : ∃ result,
    Effect (objectKeys store) (soundObjects objects) (.stat ⟨located.objectKey, sound⟩) result
      (soundObjects objects) ∧
    statObject objects located = result.bind fun metadata =>
      if metadata.byteSize ≠ located.expectedSize then
        .error (.runtimeError "stored object size no longer matches document metadata")
      else .ok () := by
  rw [statObject]
  cases here : objects located.objectKey with
  | none => exact ⟨_, .noStat here, rfl⟩
  | some content =>
    have present : soundObjects objects ⟨located.objectKey, sound⟩ = some content := here
    exact ⟨_, .stat present modified, rfl⟩

theorem worker_reads [Sha256] (settings : Settings) {readChunkBytes limit : Nat}
    (positive : 0 < readChunkBytes)
    (enough : ∀ content, objects located.objectKey = some content → content.length < limit) :
    ∃ result, Effect (objectKeys store) (soundObjects objects)
        (.read readChunkBytes limit ⟨located.objectKey, sound⟩) result (soundObjects objects) ∧
      readObject settings objects located = result.bind fun chunks =>
        if settings.maxUploadBytes < chunks.1.flatten.length then
          .error (.runtimeError "stored object exceeds the configured upload limit")
        else if chunks.1.flatten.length ≠ located.expectedSize ∨
            Sha256.hexdigest chunks.1.flatten ≠ located.expectedSha256 then
          .error (.runtimeError "stored object digest no longer matches document metadata")
        else .ok chunks.1.flatten := by
  rw [readObject]
  cases here : objects located.objectKey with
  | none => exact ⟨_, .unread here, rfl⟩
  | some content =>
    have present : soundObjects objects ⟨located.objectKey, sound⟩ = some content := here
    refine ⟨_, .read present, ?_⟩
    simp only [Except.bind, chunksOf_whole positive (enough content here)]

end Worker

end SupportPilot.Storage
