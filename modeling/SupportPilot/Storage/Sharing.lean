import SupportPilot.Storage.Effects
import SupportPilot.Storage.Interleaving

/-! # Calls that share a disk

A call owns the keys it names.  Others may change the disk between any two of its commands, as long
as they leave the objects of its keys alone and remove no directory (`Agree`); it does the same for
them.  Then it still has the effect that it has on a map from keys to bytes (`shares_program`). -/

namespace SupportPilot.Storage

open Lib Program Documents

section Agree

variable {store : LocalObjectStore} {κ : Type} (placement : Placement store κ)

/-- The objects of these keys are the same, and no directory is gone. -/
structure Agree (keys : Set κ) (disk disk' : Disk) : Prop where
  lookup : ∀ key ∈ keys, disk'.lookup (placement.place key) = disk.lookup (placement.place key)
  fileAt : ∀ key ∈ keys, disk'.fileAt (placement.place key) = disk.fileAt (placement.place key)
  directories : ∀ path, disk.lookup path = some .directory → disk'.lookup path = some .directory

variable {placement} {keys keys' : Set κ} {disk disk' disk'' : Disk} {objects objects' : Objects κ}
  {key : κ} {n now : Nat}

theorem Agree.refl : Agree placement keys disk disk := ⟨fun _ _ => rfl, fun _ _ => rfl, fun _ => id⟩

theorem Agree.trans (first : Agree placement keys disk disk')
    (second : Agree placement keys disk' disk'') : Agree placement keys disk disk'' :=
  ⟨fun key own => (second.lookup key own).trans (first.lookup key own),
    fun key own => (second.fileAt key own).trans (first.fileAt key own),
    fun path directory => second.directories path (first.directories path directory)⟩

theorem Agree.mono (agree : Agree placement keys disk disk') (fewer : keys' ⊆ keys) :
    Agree placement keys' disk disk' :=
  ⟨fun key own => agree.lookup key (fewer own), fun key own => agree.fileAt key (fewer own),
    agree.directories⟩

theorem Agree.object (agree : Agree placement keys disk disk') (holds : Holds placement disk objects)
    (holds' : Holds placement disk' objects') (own : key ∈ keys) : objects' key = objects key := by
  rw [← holds'.object, ← holds.object, agree.fileAt key own]

theorem Agree.reached (agree : Agree placement keys disk disk')
    (reached : disk.Reached (placement.place key)) : disk'.Reached (placement.place key) :=
  fun above within differs => agree.directories above (reached above within differs)

/-- Only inodes of other files have changed. -/
theorem agree_of_inodes
    (lookup : ∀ key ∈ keys, disk'.lookup (placement.place key) = disk.lookup (placement.place key))
    (inodes : ∀ key ∈ keys, ∀ n, disk.lookup (placement.place key) = some (.file n) →
      disk'.inodes[n]? = disk.inodes[n]?)
    (directories : ∀ path, disk.lookup path = some .directory →
      disk'.lookup path = some .directory) : Agree placement keys disk disk' :=
  ⟨lookup, fun key own => FileSystem.fileAt_congr (lookup key own) (inodes key own), directories⟩

theorem agree_makeDirectories (holds : Holds placement disk objects)
    (made : disk.makeDirectories (placement.place key).dropLast = .ok disk') :
    Agree placement keys disk disk' := by
  obtain ⟨inodes, lookup⟩ := FileSystem.makeDirectories_ok made
  refine agree_of_inodes (fun other _ => ?_) (fun other _ n _ => by rw [inodes])
    fun path directory => ?_
  · rw [lookup, if_neg]
    intro within
    obtain ⟨within, differs⟩ := holds.prefix_dropLast.mp within
    exact differs (congrArg placement.place (placement.apart _ _ within))
  · rw [lookup]
    split
    · rfl
    · exact directory

theorem agree_create (holds : Holds placement disk objects)
    (made : disk.create (placement.place key) now = .ok (n, disk')) :
    Agree placement {key}ᶜ disk disk' := by
  obtain ⟨missing, -, inodes, lookup⟩ := FileSystem.create_ok made
  refine agree_of_inodes (fun other apart => ?_) (fun other _ n found => ?_)
    fun path directory => ?_
  · rw [lookup, if_neg (apart ∘ (place_eq_iff placement).mp)]
  · rw [inodes, List.getElem?_append_left (holds.tree.bounded _ n found)]
  · rw [lookup, if_neg, directory]
    rintro rfl
    rw [missing] at directory
    cases directory

theorem agree_append (holds : Holds placement disk objects)
    (file : disk.lookup (placement.place key) = some (.file n)) (chunk : Bytes) (now : Nat) :
    Agree placement {key}ᶜ disk (disk.append n chunk now) := by
  refine ⟨fun _ _ => rfl, fun other apart => FileSystem.fileAt_append fun found => apart ?_, fun _ => id⟩
  exact (place_eq_iff placement).mp (holds.tree.unlinked _ _ n found file)

theorem agree_unlink (gone : disk.unlink (placement.place key) = .ok disk') :
    Agree placement {key}ᶜ disk disk' := by
  obtain ⟨⟨n, file⟩, inodes, lookup⟩ := FileSystem.unlink_ok gone
  refine agree_of_inodes (fun other apart => ?_) (fun other _ n _ => by rw [inodes])
    fun path directory => ?_
  · rw [lookup, if_neg (apart ∘ (place_eq_iff placement).mp)]
  · rw [lookup, if_neg, directory]
    rintro rfl
    rw [file] at directory
    cases directory

theorem agree_rename (holds : Holds placement disk objects) {source destination : κ}
    (renamed : disk.rename (placement.place source) (placement.place destination) = .ok disk') :
    Agree placement {source, destination}ᶜ disk disk' := by
  obtain ⟨inodes, -, ⟨-, rfl⟩ | ⟨-, lookup⟩⟩ := FileSystem.rename_ok renamed
  · exact .refl
  -- what is at the place of a key is no directory, and nothing is below it
  have outside : ∀ (key : κ) path, disk.lookup path = some .directory →
      ¬ placement.place key <+: path := by
    intro key path directory within
    by_cases same : placement.place key = path
    · exact holds.noDirectory key (same ▸ directory)
    · exact holds.noDirectory key (holds.tree.reached path (by simp [directory]) _ within same)
  refine agree_of_inodes (fun other apart => ?_) (fun other _ n _ => by rw [inodes])
    fun path directory => ?_
  · have aside : ∀ key ∈ ({source, destination} : Set κ),
        ¬ placement.place key <+: placement.place other := fun key own within =>
      apart (placement.apart _ _ within ▸ own)
    rw [lookup, if_neg (aside destination (by simp)), if_neg (aside source (by simp))]
  · rw [lookup, if_neg (outside destination path directory), if_neg (outside source path directory),
      directory]

end Agree

/-! ## Programs that share -/

section Sharing

variable {store : LocalObjectStore} {κ : Type} (placement : Placement store κ)

/-- The disk holds some objects. -/
def Orderly (disk : Disk) : Prop := ∃ objects, Holds placement disk objects

/-- The owner of these keys has last seen the disk of its phase. -/
def sharing (keys : Set κ) : Protocol Disk Command Answer where
  allowed disk command := ∀ input disk', Agree placement keys disk disk' → Orderly placement disk' →
    Orderly placement (perform input disk' command).2 ∧
      Agree placement keysᶜ disk' (perform input disk' command).2
  after disk command answer disk'' := ∃ input disk', Agree placement keys disk disk' ∧
    Orderly placement disk' ∧ perform input disk' command = (answer, disk'')

variable {placement} {keys : Set κ} {disk : Disk} {objects : Objects κ} {key : κ} {content : Bytes}
  {n : Nat}

/-- One command, on whatever the others have left. -/
theorem shares_call {command : Command} {Q : Except PyError command.Value → Disk → Prop}
    (step : ∀ input disk' objects', Agree placement keys disk disk' →
      Holds placement disk' objects' → ∃ result disk'', perform input disk' command = (result, disk'') ∧
        Orderly placement disk'' ∧ Agree placement keysᶜ disk' disk'' ∧ Q result disk'') :
    (call command).Keeps (sharing placement keys) Q disk := by
  refine ⟨fun input disk' agree orderly => ?_, fun answer disk'' after => ?_⟩
  · obtain ⟨objects', holds⟩ := orderly
    obtain ⟨result, disk'', done, orderly, others, -⟩ := step input disk' objects' agree holds
    rw [done]
    exact ⟨orderly, others⟩
  · obtain ⟨input, disk', agree, ⟨objects', holds⟩, done⟩ := after
    obtain ⟨result, disk'', done', -, -, ends⟩ := step input disk' objects' agree holds
    rw [done', Prod.mk.injEq] at done
    obtain ⟨rfl, rfl⟩ := done
    cases result <;> exact ends

/-- A command that leaves the disk as it is. -/
theorem shares_reads {command : Command} {Q : Except PyError command.Value → Disk → Prop}
    (reads : ∀ input disk', (perform input disk' command).2 = disk')
    (step : ∀ input disk' objects', Agree placement keys disk disk' →
      Holds placement disk' objects' → Q (perform input disk' command).1 disk') :
    (call command).Keeps (sharing placement keys) Q disk :=
  shares_call fun input disk' objects' agree holds => ⟨(perform input disk' command).1, disk',
    Prod.ext rfl (reads input disk'), ⟨objects', holds⟩, .refl, step input disk' objects' agree holds⟩

/-- The directories of the key are there afterwards, whatever the others do. -/
theorem shares_makeDirectories (holds : Holds placement disk objects) (key : κ)
    {Q : Except PyError Unit → Disk → Prop}
    (post : ∀ disk' objects', Holds placement disk' objects' →
      (∀ other ∈ keys, objects' other = objects other) → disk'.Reached (placement.place key) →
      Q (.ok ()) disk') :
    (call (.makeDirectories (placement.place key).dropLast)).Keeps (sharing placement keys) Q disk := by
  refine shares_call fun input disk₁ objects₁ agree₁ holds₁ => ?_
  obtain ⟨disk₂, made, holds₂, reached⟩ := holds₁.makeDirectories key
  refine ⟨.ok (), disk₂, by rw [perform, made]; rfl, ⟨_, holds₂⟩,
    agree_makeDirectories holds₁ made, ?_⟩
  exact post disk₂ objects₁ holds₂ (fun other own => agree₁.object holds holds₁ own) reached

theorem shares_metadata (holds : Holds placement disk objects) (own : key ∈ keys)
    (here : objects key = some content) {name : Text}
    {Q : Except PyError ObjectMetadata → Disk → Prop}
    (post : ∀ modified disk' objects', Agree placement keys disk disk' →
      Holds placement disk' objects' → Q (.ok ⟨name, content.length, modified⟩) disk') :
    (LocalObjectStore.metadata name (placement.place key)).Keeps (sharing placement keys) Q disk := by
  rw [LocalObjectStore.metadata, keeps_bind]
  refine shares_reads (fun _ _ => rfl) fun input disk' objects' agree holds' => ?_
  have here' := (agree.object holds holds' own).trans here
  obtain ⟨n, modified, found, stored⟩ := holds'.present here'
  rw [perform, answered, FileSystem.stat_of_file (holds'.reached here') found, stored]
  exact post modified disk' objects' agree holds'

theorem shares_readChunks {readChunkBytes : Nat} (limit : Nat) (yielded : List Bytes) (rest : Bytes)
    (holds : Holds placement disk objects) (own : key ∈ keys)
    (here : objects key = some (yielded.flatten ++ rest))
    (file : disk.lookup (placement.place key) = some (.file n))
    {Q : Except PyError (List Bytes × Bool) → Disk → Prop}
    (post : ∀ disk' objects', Agree placement keys disk disk' → Holds placement disk' objects' →
      Q (.ok (yielded ++ (chunksOf readChunkBytes limit rest).1,
        (chunksOf readChunkBytes limit rest).2)) disk') :
    (readChunks n readChunkBytes limit yielded).Keeps (sharing placement keys) Q disk := by
  induction limit generalizing disk objects yielded rest with
  | zero =>
    have ends := post disk objects .refl holds
    rw [chunksOf, List.append_nil] at ends
    exact ends
  | succ limit ih =>
    rw [readChunks, keeps_bind]
    refine shares_reads (fun _ _ => rfl) fun input disk' objects' agree holds' => ?_
    have here' := (agree.object holds holds' own).trans here
    have file' := (agree.lookup key own).trans file
    obtain ⟨n', modified, found, stored⟩ := holds'.present here'
    rw [file', Option.some.injEq, Entry.file.injEq] at found
    subst found
    have chunk : disk'.readAt n yielded.flatten.length readChunkBytes = rest.take readChunkBytes := by
      rw [FileSystem.readAt, stored]
      simp only [List.drop_left]
    rw [perform, chunk]
    show (if rest.take readChunkBytes = [] then _ else _ : StoreM _).Keeps _ _ _
    rw [chunksOf] at post
    split
    next last =>
      rw [if_pos last, List.append_nil] at post
      exact post disk' objects' agree holds'
    next more =>
      rw [if_neg more] at post
      refine ih (yielded ++ [rest.take readChunkBytes]) (rest.drop readChunkBytes) holds' ?_ file'
        fun disk'' objects'' agree' holds'' => ?_
      · rw [here']
        simp
      · have ends := post disk'' objects'' (agree.trans agree') holds''
        rw [List.append_cons] at ends
        exact ends

variable [DecidableEq κ]

theorem shares_unlinkMissingOk {Q : Except PyError Unit → Disk → Prop}
    (post : ∀ disk' objects', Holds placement disk' objects' → objects' key = none →
      Q (.ok ()) disk') :
    (unlinkMissingOk (placement.place key)).Keeps (sharing placement {key}) Q disk := by
  rw [unlinkMissingOk, keeps_tryCatch]
  refine shares_call fun input disk' objects' agree holds => ?_
  cases here : objects' key with
  | none =>
    have failed := FileSystem.unlink_of_missing (holds.clear key) (holds.missing here)
    refine ⟨.error fileNotFoundError, disk', by rw [perform, failed]; rfl, ⟨_, holds⟩, .refl, ?_⟩
    rw [onResult_error, if_pos rfl, keeps_pure]
    exact post disk' objects' holds here
  | some content =>
    obtain ⟨disk'', gone, holds'⟩ := holds.unlink here
    exact ⟨.ok (), disk'', by rw [perform, gone]; rfl, ⟨_, holds'⟩, agree_unlink gone,
      post disk'' _ holds' (Function.update_self _ _ _)⟩

theorem shares_writeChunks {failure : Option PyError} (holds : Holds placement disk objects)
    {written : Bytes} (here : objects key = some written)
    (file : disk.lookup (placement.place key) = some (.file n)) (chunks : List Bytes)
    {Q : Except PyError Unit → Disk → Prop}
    (post : ∀ disk' objects', Holds placement disk' objects' →
      objects' key = some (written ++ chunks.flatten) →
      Q (match failure with | none => .ok () | some error => .error error) disk') :
    (writeChunks n failure chunks).Keeps (sharing placement {key}) Q disk := by
  induction chunks generalizing disk objects written with
  | nil =>
    rw [List.flatten_nil, List.append_nil] at post
    cases failure with
    | none =>
      exact shares_reads (fun _ _ => rfl) fun input disk' objects' agree holds' =>
        post disk' objects' holds' ((agree.object holds holds' rfl).trans here)
    | some error => exact post disk objects holds here
  | cons chunk chunks ih =>
    rw [writeChunks, keeps_bind]
    refine shares_call fun input disk' objects' agree holds' => ?_
    have here' := (agree.object holds holds' rfl).trans here
    have file' := (agree.lookup key rfl).trans file
    have appended := holds'.append here' file' chunk input.now
    refine ⟨.ok (), disk'.append n chunk input.now, rfl, ⟨_, appended⟩,
      agree_append holds' file' chunk input.now, ?_⟩
    refine ih appended (Function.update_self _ _ _) file' fun disk'' objects'' holds'' whole =>
      post disk'' objects'' holds'' ?_
    rw [whole, List.flatten_cons, List.append_assoc]

theorem shares_writeFile (holds : Holds placement disk objects) (here : objects key = some [])
    (file : disk.lookup (placement.place key) = some (.file n)) (stream : ByteStream)
    {Q : Except PyError ObjectMetadata → Disk → Prop}
    (whole : stream.failure = none → ∀ modified disk' objects', Holds placement disk' objects' →
      objects' key = some stream.content →
      Q (.ok ⟨placement.name key, stream.content.length, modified⟩) disk')
    (undone : ∀ error, stream.failure = some error → ∀ disk' objects', Holds placement disk' objects' →
      objects' key = none → Q (.error error) disk') :
    (LocalObjectStore.writeFile (placement.name key) (placement.place key) stream n).Keeps
      (sharing placement {key}) Q disk := by
  rw [LocalObjectStore.writeFile, keeps_bind, keeps_tryCatch]
  refine shares_writeChunks holds here file stream.chunks fun disk₁ objects₁ holds₁ written => ?_
  rw [List.nil_append] at written
  cases failed : stream.failure with
  | none =>
    rw [onResult_ok, onResult_ok, keeps_bind]
    refine shares_reads (fun _ _ => rfl) fun input disk₂ objects₂ agree₂ holds₂ => ?_
    have written₂ := (agree₂.object holds₁ holds₂ (Set.mem_singleton key)).trans written
    refine shares_metadata holds₂ (Set.mem_singleton key) written₂
      fun modified disk₃ objects₃ agree₃ holds₃ => ?_
    exact whole failed modified disk₃ objects₃ holds₃
      ((agree₃.object holds₂ holds₃ (Set.mem_singleton key)).trans written₂)
  | some error =>
    rw [onResult_error, keeps_bind]
    refine shares_reads (fun _ _ => rfl) fun input disk₂ objects₂ agree₂ holds₂ => ?_
    show (unlinkMissingOk _ >>= fun _ => _ : StoreM _).Keeps _ _ _
    rw [keeps_bind]
    exact shares_unlinkMissingOk fun disk₃ objects₃ holds₃ gone =>
      undone error failed disk₃ objects₃ holds₃ gone

/-! ### One lemma for each call -/

/-- The call has its effect, as far as its own keys go. -/
def EffectOn (placement : Placement store κ) (objects : Objects κ) (call : ObjectCall κ)
    (result : Except PyError call.Result) (disk' : Disk) : Prop :=
  ∃ objects', Effect placement objects call result objects' ∧
    ∀ key ∈ call.keys, (disk'.fileAt (placement.place key)).map Inode.content = objects' key

theorem effectOn_of_holds {disk' : Disk} {objects' objects'' : Objects κ} {call : ObjectCall κ}
    {result : Except PyError call.Result} (holds : Holds placement disk' objects'')
    (effect : Effect placement objects call result objects')
    (same : ∀ key ∈ call.keys, objects'' key = objects' key) :
    EffectOn placement objects call result disk' :=
  ⟨objects', effect, fun key own => (holds.object key).trans (same key own)⟩

theorem shares_write (holds : Holds placement disk objects) (key : κ) (stream : ByteStream) :
    (store.write (placement.name key) stream).Keeps (sharing placement {key})
      (EffectOn placement objects (.write key stream)) disk := by
  rw [LocalObjectStore.write, placement.path]
  show (call _ >>= fun _ => _ : StoreM _).Keeps _ _ _
  rw [keeps_bind]
  refine shares_makeDirectories holds key fun disk₁ objects₁ holds₁ same₁ reached => ?_
  rw [onResult_ok, keeps_bind]
  refine shares_call fun input disk₂ objects₂ agree₂ holds₂ => ?_
  have same₂ := (agree₂.object holds₁ holds₂ rfl).trans (same₁ key rfl)
  have reached₂ := agree₂.reached reached
  cases here : objects key with
  | some content =>
    obtain ⟨n, -, found, -⟩ := holds₂.present (same₂.trans here)
    refine ⟨.error fileExistsError, disk₂, ?_, ⟨_, holds₂⟩, .refl, ?_⟩
    · rw [perform, FileSystem.create_of_present reached₂ (by simp [found])]
      rfl
    refine effectOn_of_holds holds₂ (.occupied here) ?_
    rintro _ rfl
    exact same₂
  | none =>
    obtain ⟨n, disk₃, created, file, holds₃⟩ :=
      holds₂.create (same₂.trans here) reached₂ input.now
    refine ⟨.ok n, disk₃, by rw [perform, created], ⟨_, holds₃⟩, agree_create holds₂ created, ?_⟩
    rw [onResult_ok]
    refine shares_writeFile holds₃ (Function.update_self _ _ _) file stream
      (fun complete modified disk₄ objects₄ holds₄ written => ?_)
      (fun error raised disk₄ objects₄ holds₄ undone => ?_)
    · refine effectOn_of_holds holds₄ (.written here complete modified) ?_
      rintro _ rfl
      rw [written, Function.update_self]
    · refine effectOn_of_holds holds₄ (.broken here raised) ?_
      rintro _ rfl
      rw [undone, here]

theorem shares_read (holds : Holds placement disk objects) (readChunkBytes limit : Nat) (key : κ) :
    (store.read readChunkBytes limit (placement.name key)).Keeps (sharing placement {key})
      (EffectOn placement objects (.read readChunkBytes limit key)) disk := by
  rw [LocalObjectStore.read, placement.path]
  show (call _ >>= fun _ => _ : StoreM _).Keeps _ _ _
  rw [keeps_bind]
  refine shares_reads (fun _ _ => rfl) fun input disk₁ objects₁ agree₁ holds₁ => ?_
  have same₁ := agree₁.object holds holds₁ (Set.mem_singleton key)
  cases here : objects key with
  | none =>
    have absent := same₁.trans here
    rw [perform, answered, FileSystem.openFile_of_missing (holds₁.clear key) (holds₁.missing absent)]
    refine effectOn_of_holds holds₁ (.unread here) ?_
    rintro _ rfl
    exact same₁
  | some content =>
    have present := same₁.trans here
    obtain ⟨n, modified, found, -⟩ := holds₁.present present
    rw [perform, answered, FileSystem.openFile_of_file (holds₁.reached present) found]
    show (tryCatch _ _ >>= fun _ => _ : StoreM _).Keeps _ _ _
    rw [keeps_bind, keeps_tryCatch]
    refine shares_readChunks limit [] content holds₁ (Set.mem_singleton key) present found
      fun disk₂ objects₂ agree₂ holds₂ => ?_
    rw [onResult_ok, onResult_ok, keeps_bind]
    refine shares_reads (fun _ _ => rfl) fun input disk₃ objects₃ agree₃ holds₃ => ?_
    refine effectOn_of_holds holds₃ (.read here) ?_
    rintro _ rfl
    exact ((agree₂.trans agree₃).object holds₁ holds₃ rfl).trans same₁

theorem shares_stat (holds : Holds placement disk objects) (key : κ) :
    (store.stat (placement.name key)).Keeps (sharing placement {key})
      (EffectOn placement objects (.stat key)) disk := by
  rw [LocalObjectStore.stat, placement.path]
  show (LocalObjectStore.metadata _ _).Keeps _ _ _
  cases here : objects key with
  | none =>
    rw [LocalObjectStore.metadata, keeps_bind]
    refine shares_reads (fun _ _ => rfl) fun input disk₁ objects₁ agree₁ holds₁ => ?_
    have same₁ := agree₁.object holds holds₁ (Set.mem_singleton key)
    rw [perform, answered, FileSystem.stat_of_missing (holds₁.clear key)
      (holds₁.missing (same₁.trans here))]
    refine effectOn_of_holds holds₁ (.noStat here) ?_
    rintro _ rfl
    exact same₁
  | some content =>
    refine shares_metadata holds (Set.mem_singleton key) here
      fun modified disk₁ objects₁ agree₁ holds₁ => ?_
    refine effectOn_of_holds holds₁ (.stat here modified) ?_
    rintro _ rfl
    exact agree₁.object holds holds₁ rfl

theorem shares_move (holds : Holds placement disk objects) (source destination : κ) :
    (store.move (placement.name source) (placement.name destination)).Keeps
      (sharing placement {source, destination})
      (EffectOn placement objects (.move source destination)) disk := by
  rw [LocalObjectStore.move, placement.path, placement.path]
  show (call _ >>= fun _ => _ : StoreM _).Keeps _ _ _
  rw [keeps_bind]
  refine shares_makeDirectories holds destination fun disk₂ objects₂ holds₂ same₂ reached => ?_
  rw [onResult_ok, keeps_bind]
  refine shares_call fun input disk₃ objects₃ agree₃ holds₃ => ?_
  have same₃ : ∀ key ∈ ({source, destination} : Set κ), objects₃ key = objects key := fun key own =>
    (agree₃.object holds₂ holds₃ own).trans (same₂ key own)
  have first : source ∈ ({source, destination} : Set κ) := .inl rfl
  cases here : objects source with
  | none =>
    have absent := (same₃ source first).trans here
    have failed := FileSystem.rename_of_missing (holds₃.clear source) (holds₃.missing absent)
      (agree₃.reached reached)
    exact ⟨.error fileNotFoundError, disk₃, by rw [perform, failed]; rfl, ⟨_, holds₃⟩, .refl,
      effectOn_of_holds holds₃ (.unmoved here) same₃⟩
  | some content =>
    have present := (same₃ source first).trans here
    obtain ⟨disk₄, renamed, holds₄⟩ := holds₃.rename present (agree₃.reached reached)
    refine ⟨.ok (), disk₄, by rw [perform, renamed]; rfl, ⟨_, holds₄⟩, agree_rename holds₃ renamed, ?_⟩
    refine shares_metadata holds₄ (.inr rfl) (Function.update_self _ _ _)
      fun modified disk₅ objects₅ agree₅ holds₅ => ?_
    refine effectOn_of_holds holds₅ (.moved here modified) fun key own => ?_
    rw [agree₅.object holds₄ holds₅ own]
    obtain rfl | rfl := own
    · simp only [Function.update_apply, if_true]
    · rw [Function.update_self, Function.update_self]

theorem shares_delete (key : κ) : (store.delete (placement.name key)).Keeps
    (sharing placement {key}) (EffectOn placement objects (.delete key)) disk := by
  rw [LocalObjectStore.delete, placement.path]
  refine shares_unlinkMissingOk fun disk' objects' holds gone => ?_
  refine effectOn_of_holds holds .deleted ?_
  rintro _ rfl
  rw [gone, Function.update_self]

/-- Every call of keys has its effect, whatever others do to other keys meanwhile. -/
theorem shares_program (holds : Holds placement disk objects) {objectCall : ObjectCall κ}
    (keyed : objectCall.IsKeyed) : (objectCall.program placement).Keeps
      (sharing placement objectCall.keys) (EffectOn placement objects objectCall) disk := by
  cases objectCall with
  | write key stream => exact shares_write holds key stream
  | read readChunkBytes limit key => exact shares_read holds readChunkBytes limit key
  | stat key => exact shares_stat holds key
  | move source destination => exact shares_move holds source destination
  | delete key => exact shares_delete key
  | deleteStaleStaging => cases keyed

end Sharing

end SupportPilot.Storage
