import SupportPilot.Lib.FileTree
import SupportPilot.Storage.Store

/-! # Objects on a disk

A disk holds the objects of a map from keys to bytes (`Holds`), for keys whose paths are apart
(`Placement`).  Every command that a call issues changes the map as one expects. -/

namespace SupportPilot.Storage

open Lib

/-- Keys, and where their objects are. -/
structure Placement (store : LocalObjectStore) (κ : Type) where
  name : κ → Text
  place : κ → FilePath
  path : ∀ key, store.path (name key) = .ok (place key)
  apart : ∀ key key', place key <+: place key' → key = key'

abbrev Objects (κ : Type) := κ → Option Bytes

section Holds

variable {store : LocalObjectStore} {κ : Type} (placement : Placement store κ)

/-- The disk has these objects.  What else is on it does not stand in their way. -/
structure Holds (disk : Disk) (objects : Objects κ) : Prop where
  tree : disk.Tree
  clear : ∀ key above, above <+: placement.place key → above ≠ placement.place key →
    disk.isFile above = false
  noDirectory : ∀ key, disk.lookup (placement.place key) ≠ some .directory
  object : ∀ key, (disk.fileAt (placement.place key)).map Inode.content = objects key

variable {placement} {disk disk' : Disk} {objects objects' : Objects κ} {key : κ} {content : Bytes}
  {path : FilePath} {n : Nat}

theorem Placement.ne_of_above (placement : Placement store κ) {above : FilePath}
    (within : above <+: placement.place key) (differs : above ≠ placement.place key) (key' : κ) :
    above ≠ placement.place key' := by
  rintro rfl
  exact differs (congrArg placement.place (placement.apart _ _ within))

theorem place_eq_iff (placement : Placement store κ) {key other : κ} :
    placement.place other = placement.place key ↔ other = key :=
  ⟨fun same => placement.apart _ _ (same ▸ List.prefix_rfl), fun same => same ▸ rfl⟩

theorem Holds.missing (holds : Holds placement disk objects) (absent : objects key = none) :
    disk.lookup (placement.place key) = none := by
  cases there : disk.lookup (placement.place key) with
  | none => rfl
  | some entry =>
    cases entry with
    | directory => exact absurd there (holds.noDirectory key)
    | file n =>
      have object := holds.object key
      have bound := holds.tree.bounded _ n there
      rw [absent, FileSystem.fileAt_of_file there, List.getElem?_eq_getElem bound] at object
      cases object

theorem Holds.present (holds : Holds placement disk objects) (here : objects key = some content) :
    ∃ n modified, disk.lookup (placement.place key) = some (.file n) ∧
      disk.inodes[n]? = some ⟨content, modified⟩ := by
  have object := holds.object key
  rw [here] at object
  cases there : disk.lookup (placement.place key) with
  | none =>
    rw [FileSystem.fileAt_of_missing there] at object
    cases object
  | some entry =>
    cases entry with
    | directory => exact absurd there (holds.noDirectory key)
    | file n =>
      rw [FileSystem.fileAt_of_file there, Option.map_eq_some_iff] at object
      obtain ⟨file, found, rfl⟩ := object
      exact ⟨n, file.modified, rfl, found⟩

theorem Holds.reached (holds : Holds placement disk objects) (here : objects key = some content) :
    disk.Reached (placement.place key) := by
  obtain ⟨n, -, found, -⟩ := holds.present here
  exact holds.tree.reached _ (by simp [found])

/-- New files are at the places of keys only. -/
theorem Holds.change (holds : Holds placement disk objects) (tree : disk'.Tree)
    (files : ∀ path, (∀ key, path ≠ placement.place key) → disk'.isFile path = true →
      disk.isFile path = true)
    (object : ∀ key, disk'.lookup (placement.place key) ≠ some .directory ∧
      (disk'.fileAt (placement.place key)).map Inode.content = objects' key) :
    Holds placement disk' objects' := by
  refine ⟨tree, fun key above within differs => ?_, fun key => (object key).1,
    fun key => (object key).2⟩
  have plain := holds.clear key above within differs
  rw [← Bool.not_eq_true] at plain ⊢
  exact fun file => plain (files above (placement.ne_of_above within differs) file)

theorem Holds.place_ne_nil (holds : Holds placement disk objects) (key : κ) :
    placement.place key ≠ [] := by
  intro root
  exact holds.noDirectory key (root ▸ FileSystem.lookup_root)

theorem Holds.prefix_dropLast (holds : Holds placement disk objects) {above : FilePath} :
    above <+: (placement.place key).dropLast ↔
      above <+: placement.place key ∧ above ≠ placement.place key := by
  have whole := List.dropLast_append_getLast (holds.place_ne_nil key)
  have longer : (placement.place key).dropLast ≠ placement.place key := by
    intro same
    have lengths := congrArg List.length same
    have := List.length_pos_of_ne_nil (holds.place_ne_nil key)
    rw [List.length_dropLast] at lengths
    omega
  constructor
  · intro within
    refine ⟨within.trans (List.dropLast_prefix _), ?_⟩
    rintro rfl
    exact longer ((List.dropLast_prefix _).eq_of_length_le within.length_le)
  · rintro ⟨within, differs⟩
    rw [← whole, List.prefix_concat_iff, whole] at within
    exact within.resolve_left differs

/-! ### What the commands do to the objects -/

theorem Holds.makeDirectories (holds : Holds placement disk objects) (key : κ) :
    ∃ disk', disk.makeDirectories (placement.place key).dropLast = .ok disk' ∧
      Holds placement disk' objects ∧ disk'.Reached (placement.place key) := by
  have clear : ∀ above, above <+: (placement.place key).dropLast → disk.isFile above = false := by
    intro above within
    obtain ⟨within, differs⟩ := holds.prefix_dropLast.mp within
    exact holds.clear key above within differs
  obtain ⟨disk', made⟩ := FileSystem.makeDirectories_of_clear clear
  obtain ⟨inodes, lookup⟩ := FileSystem.makeDirectories_ok made
  refine ⟨disk', made, holds.change (holds.tree.makeDirectories made) ?_ ?_, ?_⟩
  · exact fun path _ file => FileSystem.isFile_of_makeDirectories made file
  · intro other
    have outside : ¬ placement.place other <+: (placement.place key).dropLast := by
      intro within
      obtain ⟨within, differs⟩ := holds.prefix_dropLast.mp within
      exact differs (congrArg placement.place (placement.apart _ _ within))
    have same : disk'.lookup (placement.place other) = disk.lookup (placement.place other) := by
      rw [lookup, if_neg outside]
    rw [FileSystem.fileAt, same, inodes]
    exact ⟨holds.noDirectory other, holds.object other⟩
  · intro above within differs
    rw [lookup, if_pos (holds.prefix_dropLast.mpr ⟨within, differs⟩)]

theorem Holds.unlink_path (holds : Holds placement disk objects)
    (gone : disk.unlink path = .ok disk')
    (object : ∀ key, objects' key = if placement.place key = path then none else objects key) :
    Holds placement disk' objects' := by
  obtain ⟨-, inodes, lookup⟩ := FileSystem.unlink_ok gone
  refine holds.change (holds.tree.unlink gone) ?_ ?_
  · exact fun other _ file => FileSystem.isFile_of_unlink gone file
  · intro key
    rw [FileSystem.fileAt, lookup, inodes, object]
    split
    · exact ⟨by simp, rfl⟩
    · exact ⟨holds.noDirectory key, holds.object key⟩

/-- A store that has just been created has no objects. -/
theorem holds_init (made : (⟨[], []⟩ : Disk).makeDirectories store.root = .ok disk)
    (below : ∀ key, ¬ placement.place key <+: store.root) :
    Holds placement disk fun _ => none := by
  obtain ⟨-, lookup⟩ := FileSystem.makeDirectories_ok made
  have absent : ∀ key, disk.lookup (placement.place key) = none := by
    intro key
    have there : placement.place key ≠ [] := fun root => below key (root ▸ List.nil_prefix)
    rw [lookup, if_neg (below key), FileSystem.lookup_of_ne there]
    rfl
  refine ⟨FileSystem.tree_empty.makeDirectories made, fun key above within differs => ?_,
    fun key => ?_, fun key => ?_⟩
  · rw [← Bool.not_eq_true]
    intro file
    obtain ⟨n, found⟩ := FileSystem.isFile_iff.1 (FileSystem.isFile_of_makeDirectories made file)
    exact FileSystem.lookup_empty_ne_file above n found
  · simp [absent]
  · rw [FileSystem.fileAt_of_missing (absent key)]
    rfl

variable [DecidableEq κ]

theorem Holds.create (holds : Holds placement disk objects) (absent : objects key = none)
    (reached : disk.Reached (placement.place key)) (now : Nat) :
    ∃ n disk', disk.create (placement.place key) now = .ok (n, disk') ∧
      disk'.lookup (placement.place key) = some (.file n) ∧
      Holds placement disk' (Function.update objects key (some [])) := by
  obtain ⟨disk', made⟩ := FileSystem.create_of_reached reached (holds.missing absent) now
  obtain ⟨-, -, inodes, lookup⟩ := FileSystem.create_ok made
  have here : disk'.lookup (placement.place key) = some (.file disk.inodes.length) := by
    rw [lookup, if_pos rfl]
  refine ⟨_, disk', made, here, holds.change (holds.tree.create made) ?_ ?_⟩
  · intro path apart file
    rw [FileSystem.isFile_iff] at file ⊢
    obtain ⟨n, found⟩ := file
    rw [lookup, if_neg (apart key)] at found
    exact ⟨n, found⟩
  · intro other
    by_cases same : other = key
    · subst same
      rw [here, FileSystem.fileAt_of_file here, inodes]
      simp
    · have apart : placement.place other ≠ placement.place key := fun places =>
        same (placement.apart _ _ (places ▸ List.prefix_rfl))
      have kept : disk'.lookup (placement.place other) = disk.lookup (placement.place other) := by
        rw [lookup, if_neg apart]
      rw [Function.update_of_ne same, kept, ← holds.object other]
      refine ⟨holds.noDirectory other, congrArg _ (FileSystem.fileAt_congr kept fun n found => ?_)⟩
      rw [inodes, List.getElem?_append_left (holds.tree.bounded _ n found)]

theorem Holds.append (holds : Holds placement disk objects) (here : objects key = some content)
    (file : disk.lookup (placement.place key) = some (.file n)) (chunk : Bytes) (now : Nat) :
    Holds placement (disk.append n chunk now)
      (Function.update objects key (some (content ++ chunk))) := by
  refine holds.change (holds.tree.append chunk) (fun path _ file => file) fun other => ?_
  refine ⟨holds.noDirectory other, ?_⟩
  by_cases same : other = key
  · subst same
    obtain ⟨n', modified, found, stored⟩ := holds.present here
    rw [file] at found
    cases found
    have file' : (disk.append n chunk now).lookup (placement.place other) = some (.file n) := file
    rw [FileSystem.fileAt_of_file file']
    simp [FileSystem.append, stored]
  · have apart : disk.lookup (placement.place other) ≠ some (.file n) := fun found =>
      same ((place_eq_iff placement).mp (holds.tree.unlinked _ _ n found file))
    rw [Function.update_of_ne same, ← holds.object other, FileSystem.fileAt_append apart]

theorem Holds.unlink (holds : Holds placement disk objects) (here : objects key = some content) :
    ∃ disk', disk.unlink (placement.place key) = .ok disk' ∧
      Holds placement disk' (Function.update objects key none) := by
  obtain ⟨n, -, found, -⟩ := holds.present here
  obtain ⟨disk', gone⟩ := FileSystem.unlink_of_file (holds.reached here) found
  refine ⟨disk', gone, holds.unlink_path gone fun other => ?_⟩
  simp only [place_eq_iff, Function.update_apply]

theorem Holds.rename (holds : Holds placement disk objects) {source destination : κ}
    (here : objects source = some content) (reached : disk.Reached (placement.place destination)) :
    ∃ disk', disk.rename (placement.place source) (placement.place destination) = .ok disk' ∧
      Holds placement disk'
        (Function.update (Function.update objects source none) destination (some content)) := by
  obtain ⟨n, modified, found, stored⟩ := holds.present here
  obtain ⟨disk', renamed⟩ := holds.tree.rename_of_file found reached (holds.noDirectory destination)
  refine ⟨disk', renamed, ?_⟩
  obtain ⟨inodes, -, ⟨same, rfl⟩ | ⟨outside, lookup⟩⟩ := FileSystem.rename_ok renamed
  · obtain rfl := (place_eq_iff placement).mp same
    have self : Function.update objects source (some content) = objects := by
      rw [← here, Function.update_eq_self]
    rw [Function.update_idem, self]
    exact holds
  refine holds.change (holds.tree.rename renamed) ?_ ?_
  · intro path apart file
    rw [FileSystem.isFile_iff] at file ⊢
    obtain ⟨n', there⟩ := file
    rw [lookup] at there
    split at there
    next within =>
      -- nothing is below the file that moves
      obtain ⟨rest, rfl⟩ := within
      rw [List.drop_left] at there
      have directory := holds.tree.reached _ (by simp [there]) (placement.place source)
        (List.prefix_append _ rest)
      by_cases more : rest = []
      · exact absurd (by rw [more, List.append_nil]) (apart destination)
      · rw [directory (by simpa using Ne.symm more)] at found
        cases found
    next =>
      split at there
      · cases there
      · exact ⟨n', there⟩
  · intro other
    have inside : ∀ key : κ, placement.place key <+: placement.place other ↔ other = key :=
      fun key => ⟨fun within => (placement.apart _ _ within).symm, fun same => same ▸ List.prefix_rfl⟩
    have moved : disk'.lookup (placement.place other) =
        if other = destination then some (.file n)
        else if other = source then none else disk.lookup (placement.place other) := by
      rw [lookup]
      simp only [inside]
      split
      next same => rw [same, List.drop_length, List.append_nil, found]
      next => rfl
    rw [FileSystem.fileAt, moved, inodes, Function.update_apply, Function.update_apply]
    split
    · exact ⟨by simp, by simp [stored]⟩
    · split
      · exact ⟨by simp, rfl⟩
      · exact ⟨holds.noDirectory other, holds.object other⟩

end Holds

end SupportPilot.Storage
