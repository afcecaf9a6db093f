import SupportPilot.Documents.Upload
import SupportPilot.Lib.FileSystem
import SupportPilot.Lib.Threads
import SupportPilot.Storage.Local

/-! # The calls of the local object store

The methods of `packages/storage/local.py` as programs over the calls of `pathlib`, each of which is
one step in a thread or in the event loop.  Bytes are in the file when they are written; the buffer
of a file object is left out. -/

namespace SupportPilot.Storage

open Lib Documents

abbrev FilePath := List Text

abbrev Disk := FileSystem Text UInt8

/-! ## The operating system -/

/-- `st_size` and `st_mtime`. -/
structure StatResult where
  size : Nat
  modified : Nat
  deriving DecidableEq

inductive Command where
  | makeDirectories (path : FilePath)
  | openNew (path : FilePath)
  | write (handle : Nat) (chunk : Bytes)
  | flush (handle : Nat)
  | close (handle : Nat)
  | openFile (path : FilePath)
  | read (handle offset size : Nat)
  | stat (path : FilePath)
  | replace (source destination : FilePath)
  | unlink (path : FilePath)
  | pathExists (path : FilePath)
  | isFile (path : FilePath)
  | rglob (directory : FilePath)

abbrev Command.Value : Command → Type
  | .openNew _ | .openFile _ => Nat
  | .read _ _ _ => Bytes
  | .stat _ => StatResult
  | .pathExists _ | .isFile _ => Bool
  | .rglob _ => List FilePath
  | .makeDirectories _ | .write _ _ | .flush _ | .close _ | .replace _ _ | .unlink _ => Unit

/-- The `OSError` of an error number. -/
def osError : FileError → PyError
  | .notFound => fileNotFoundError
  | .fileExists => fileExistsError
  | .notDirectory => .other 20
  | .isDirectory => .other 21
  | .invalid => .other 22
  | .notEmpty => .other 39

/-- A clock reading, what `stat` says of a directory, and whether the call fails, with or without
having had its effect. -/
structure Input where
  now : Nat
  directory : StatResult
  failure : Option (PyError × Bool)

abbrev Answer (command : Command) := Except PyError command.Value

def answered {α : Type} (disk : Disk) (result : Except FileError α) : Except PyError α × Disk :=
  (result.mapError osError, disk)

/-- A call that changes the paths. -/
def changed (disk : Disk) (result : Except FileError Disk) : Except PyError Unit × Disk :=
  match result with
  | .ok disk' => (.ok (), disk')
  | .error error => (.error (osError error), disk)

def perform (input : Input) (disk : Disk) : (command : Command) → Answer command × Disk
  | .makeDirectories path => changed disk (disk.makeDirectories path)
  | .openNew path =>
    match disk.create path input.now with
    | .ok (handle, disk') => (.ok handle, disk')
    | .error error => (.error (osError error), disk)
  | .write handle chunk => (.ok (), disk.append handle chunk input.now)
  | .flush _ | .close _ => (.ok (), disk)
  | .openFile path => answered disk (disk.openFile path)
  | .read handle offset size => (.ok (disk.readAt handle offset size), disk)
  | .stat path => answered disk ((disk.stat path).map fun
      | some file => ⟨file.content.length, file.modified⟩
      | none => input.directory)
  | .replace source destination => changed disk (disk.rename source destination)
  | .unlink path => changed disk (disk.unlink path)
  | .pathExists path => (.ok (disk.lookup path).isSome, disk)
  | .isFile path => (.ok (disk.isFile path), disk)
  | .rglob directory => (.ok (disk.below directory), disk)

/-- A call, which may fail for other reasons. -/
def execute (input : Input) (disk : Disk) (command : Command) : Answer command × Disk :=
  match input.failure with
  | none => perform input disk command
  | some (error, false) => (.error error, disk)
  | some (error, true) => (.error error, (perform input disk command).2)

/-! ## The store -/

abbrev StoreM := Program Command Answer PyError

def call (command : Command) : StoreM command.Value := .call command fun
  | .ok value => pure value
  | .error error => throw error

def ofExcept {α : Type} : Except PyError α → StoreM α
  | .ok a => pure a
  | .error error => throw error

structure ObjectMetadata where
  key : Text
  byteSize : Nat
  modifiedAt : Nat
  deriving DecidableEq

/-- An `AsyncIterable[bytes]`: what it yields, and whether it raises in the end. -/
structure ByteStream where
  chunks : List Bytes
  failure : Option PyError

/-- `path.unlink(missing_ok=True)`. -/
def unlinkMissingOk (path : FilePath) : StoreM Unit :=
  tryCatch (call (.unlink path)) fun error =>
    if error = fileNotFoundError then pure () else throw error

/-- `async for chunk in chunks`, and the `flush` behind it. -/
def writeChunks (handle : Nat) (failure : Option PyError) : List Bytes → StoreM Unit
  | [] =>
    match failure with
    | none => call (.flush handle)
    | some error => throw error
  | chunk :: chunks => do
    call (.write handle chunk)
    writeChunks handle failure chunks

/-- The loop of `read`, behind the chunks that it has yielded.  The consumer of the generator takes
at most so many more; the result says whether the generator has come to its end. -/
def readChunks (handle readChunkBytes : Nat) : Nat → List Bytes → StoreM (List Bytes × Bool)
  | 0, yielded => return (yielded, false)
  | limit + 1, yielded => do
    let chunk : Bytes ← call (.read handle yielded.flatten.length readChunkBytes)
    if chunk = [] then
      return (yielded, true)
    readChunks handle readChunkBytes limit (yielded ++ [chunk])

/-- The loop of `delete_stale_staging`. -/
def deleteStale (olderThan : Nat) : List FilePath → Nat → StoreM Nat
  | [], deleted => return deleted
  | path :: paths, deleted => do
    if !(← call (.isFile path)) then
      deleteStale olderThan paths deleted
    else
      let stat ← call (.stat path)
      if stat.modified < olderThan then
        unlinkMissingOk path
        deleteStale olderThan paths (deleted + 1)
      else
        deleteStale olderThan paths deleted

namespace LocalObjectStore

variable (store : LocalObjectStore)

/-- `_metadata`. -/
def metadata (key : Text) (path : FilePath) : StoreM ObjectMetadata := do
  let stat ← call (.stat path)
  return ⟨key, stat.size, stat.modified⟩

/-- The part of `write` behind the opening of the file. -/
def writeFile (key : Text) (path : FilePath) (stream : ByteStream) (handle : Nat) :
    StoreM ObjectMetadata := do
  tryCatch (writeChunks handle stream.failure stream.chunks) fun error => do
    call (.close handle)
    unlinkMissingOk path
    throw error
  call (.close handle)
  metadata key path

def write (key : Text) (stream : ByteStream) : StoreM ObjectMetadata := do
  let path ← ofExcept (store.path key)
  call (.makeDirectories path.dropLast)
  let handle ← call (.openNew path)
  writeFile key path stream handle

def read (readChunkBytes limit : Nat) (key : Text) : StoreM (List Bytes × Bool) := do
  let path ← ofExcept (store.path key)
  let handle ← call (.openFile path)
  let result ← tryCatch (readChunks handle readChunkBytes limit []) fun error => do
    call (.close handle)
    throw error
  call (.close handle)
  return result

def stat (key : Text) : StoreM ObjectMetadata := do
  let path ← ofExcept (store.path key)
  metadata key path

def move (sourceKey destinationKey : Text) : StoreM ObjectMetadata := do
  let source ← ofExcept (store.path sourceKey)
  let destination ← ofExcept (store.path destinationKey)
  call (.makeDirectories destination.dropLast)
  call (.replace source destination)
  metadata destinationKey destination

def delete (key : Text) : StoreM Unit := do
  let path ← ofExcept (store.path key)
  unlinkMissingOk path

def deleteStaleStaging (olderThan : Nat) : StoreM Nat := do
  let staging ← ofExcept (store.path "staging".toList)
  if !(← call (.pathExists staging)) then
    return 0
  let paths ← call (.rglob staging)
  deleteStale olderThan paths 0

end LocalObjectStore

/-! ## Calls -/

/-- A call of a method, with its arguments. -/
inductive StoreCall where
  | write (key : Text) (stream : ByteStream)
  | read (readChunkBytes limit : Nat) (key : Text)
  | stat (key : Text)
  | move (sourceKey destinationKey : Text)
  | delete (key : Text)
  | deleteStaleStaging (olderThan : Nat)

abbrev StoreCall.Result : StoreCall → Type
  | .write _ _ | .stat _ | .move _ _ => ObjectMetadata
  | .read _ _ _ => List Bytes × Bool
  | .delete _ => Unit
  | .deleteStaleStaging _ => Nat

def StoreCall.program (store : LocalObjectStore) : (call : StoreCall) → StoreM call.Result
  | .write key stream => store.write key stream
  | .read readChunkBytes limit key => store.read readChunkBytes limit key
  | .stat key => store.stat key
  | .move sourceKey destinationKey => store.move sourceKey destinationKey
  | .delete key => store.delete key
  | .deleteStaleStaging olderThan => store.deleteStaleStaging olderThan

end SupportPilot.Storage
