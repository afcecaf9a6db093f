import SupportPilot.Storage.Interleaving
import SupportPilot.Storage.Objects

/-! # Calls on a map from keys to bytes

What the rest of the system takes the object store to do.  A call has its effect on the keys that it
names, and the effect depends on nothing else. -/

namespace SupportPilot.Storage

open Lib Documents

inductive ObjectCall (κ : Type) where
  | write (key : κ) (stream : ByteStream)
  | read (readChunkBytes limit : Nat) (key : κ)
  | stat (key : κ)
  | move (sourceKey destinationKey : κ)
  | delete (key : κ)
  | deleteStaleStaging (olderThan : Nat)

abbrev ObjectCall.Result {κ : Type} : ObjectCall κ → Type
  | .write _ _ | .stat _ | .move _ _ => ObjectMetadata
  | .read _ _ _ => List Bytes × Bool
  | .delete _ => Unit
  | .deleteStaleStaging _ => Nat

/-- The pieces of a content that a reader gets. -/
def chunksOf (size : Nat) : Nat → Bytes → List Bytes × Bool
  | 0, _ => ([], false)
  | limit + 1, content =>
    if content.take size = [] then ([], true)
    else (content.take size :: (chunksOf size limit (content.drop size)).1,
      (chunksOf size limit (content.drop size)).2)

/-- The object is below the directory that is swept. -/
def Placement.Staged {store : LocalObjectStore} {κ : Type} (placement : Placement store κ) (key : κ) :
    Prop :=
  store.root ++ ["staging".toList] <+: placement.place key

/-- What a call returns or raises, and which objects are there behind it. -/
inductive Effect {store : LocalObjectStore} {κ : Type} [DecidableEq κ]
    (placement : Placement store κ) (objects : Objects κ) :
    (call : ObjectCall κ) → Except PyError call.Result → Objects κ → Prop
  | written {key : κ} {stream : ByteStream} (missing : objects key = none)
    (whole : stream.failure = none) (modified : Nat) :
    Effect placement objects (.write key stream)
      (.ok ⟨placement.name key, stream.content.length, modified⟩)
      (Function.update objects key (some stream.content))
  | broken {key : κ} {stream : ByteStream} {error : PyError} (missing : objects key = none)
    (raised : stream.failure = some error) :
    Effect placement objects (.write key stream) (.error error) objects
  | occupied {key : κ} {stream : ByteStream} {content : Bytes}
    (present : objects key = some content) :
    Effect placement objects (.write key stream) (.error fileExistsError) objects
  | read {readChunkBytes limit : Nat} {key : κ} {content : Bytes}
    (present : objects key = some content) :
    Effect placement objects (.read readChunkBytes limit key)
      (.ok (chunksOf readChunkBytes limit content)) objects
  | unread {readChunkBytes limit : Nat} {key : κ} (missing : objects key = none) :
    Effect placement objects (.read readChunkBytes limit key) (.error fileNotFoundError) objects
  | stat {key : κ} {content : Bytes} (present : objects key = some content) (modified : Nat) :
    Effect placement objects (.stat key) (.ok ⟨placement.name key, content.length, modified⟩) objects
  | noStat {key : κ} (missing : objects key = none) :
    Effect placement objects (.stat key) (.error fileNotFoundError) objects
  | moved {source destination : κ} {content : Bytes} (present : objects source = some content)
    (modified : Nat) :
    Effect placement objects (.move source destination)
      (.ok ⟨placement.name destination, content.length, modified⟩)
      (Function.update (Function.update objects source none) destination (some content))
  | unmoved {source destination : κ} (missing : objects source = none) :
    Effect placement objects (.move source destination) (.error fileNotFoundError) objects
  | deleted {key : κ} :
    Effect placement objects (.delete key) (.ok ()) (Function.update objects key none)
  | swept {olderThan deleted : Nat} {objects' : Objects κ}
    (gone : ∀ key, objects' key = objects key ∨ placement.Staged key ∧ objects' key = none) :
    Effect placement objects (.deleteStaleStaging olderThan) (.ok deleted) objects'

def ObjectCall.program {store : LocalObjectStore} {κ : Type} (placement : Placement store κ) :
    (call : ObjectCall κ) → StoreM call.Result
  | .write key stream => store.write (placement.name key) stream
  | .read readChunkBytes limit key => store.read readChunkBytes limit (placement.name key)
  | .stat key => store.stat (placement.name key)
  | .move sourceKey destinationKey =>
    store.move (placement.name sourceKey) (placement.name destinationKey)
  | .delete key => store.delete (placement.name key)
  | .deleteStaleStaging olderThan => store.deleteStaleStaging olderThan

section Keys

variable {store : LocalObjectStore} {κ : Type} [DecidableEq κ] {placement : Placement store κ}
  {call : ObjectCall κ} {objects objects' other : Objects κ} {result : Except PyError call.Result}
  {key : κ}

/-- The keys that the call names.  The sweep names none, and may remove any staged object. -/
def ObjectCall.keys : ObjectCall κ → Set κ
  | .write key _ | .read _ _ key | .stat key | .delete key => {key}
  | .move sourceKey destinationKey => {sourceKey, destinationKey}
  | .deleteStaleStaging _ => Set.univ

def ObjectCall.IsKeyed : ObjectCall κ → Prop
  | .deleteStaleStaging _ => False
  | _ => True

theorem Effect.frame (effect : Effect placement objects call result objects')
    (apart : key ∉ call.keys) : objects' key = objects key := by
  cases effect with
  | written => exact Function.update_of_ne apart _ _
  | deleted => exact Function.update_of_ne apart _ _
  | moved =>
    rw [ObjectCall.keys, Set.mem_insert_iff, Set.mem_singleton_iff, not_or] at apart
    rw [Function.update_of_ne apart.2, Function.update_of_ne apart.1]
  | swept => exact absurd (Set.mem_univ key) apart
  | _ => rfl

theorem Effect.only_keys (effect : Effect placement objects call result objects')
    (same : ∀ key ∈ call.keys, other key = objects key) :
    ∃ other', Effect placement other call result other' ∧
      ∀ key ∈ call.keys, other' key = objects' key := by
  cases effect with
  | @written key _ missing whole modified =>
    refine ⟨_, .written ((same key rfl).trans missing) whole modified, ?_⟩
    rintro _ rfl
    rw [Function.update_self, Function.update_self]
  | @broken key _ _ missing raised =>
    exact ⟨_, .broken ((same key rfl).trans missing) raised, same⟩
  | @occupied key _ _ present => exact ⟨_, .occupied ((same key rfl).trans present), same⟩
  | @read _ _ key _ present => exact ⟨_, .read ((same key rfl).trans present), same⟩
  | @unread _ _ key missing => exact ⟨_, .unread ((same key rfl).trans missing), same⟩
  | @stat key _ present modified => exact ⟨_, .stat ((same key rfl).trans present) modified, same⟩
  | @noStat key missing => exact ⟨_, .noStat ((same key rfl).trans missing), same⟩
  | @moved source destination _ present modified =>
    refine ⟨_, .moved ((same source (.inl rfl)).trans present) modified, ?_⟩
    rintro key (rfl | rfl)
    · simp only [Function.update_apply, if_true]
    · rw [Function.update_self, Function.update_self]
  | @unmoved source _ missing => exact ⟨_, .unmoved ((same source (.inl rfl)).trans missing), same⟩
  | deleted =>
    refine ⟨_, .deleted, ?_⟩
    rintro _ rfl
    rw [Function.update_self, Function.update_self]
  | swept gone =>
    obtain rfl : other = objects := funext fun key => same key (Set.mem_univ key)
    exact ⟨_, .swept gone, fun _ _ => rfl⟩

end Keys

end SupportPilot.Storage
