import Mathlib.Data.List.Find
import Mathlib.Data.List.Infix
import SupportPilot.Lib.Fallible

/-! # A file system

Paths lead to directories and to files.  What is in a file belongs to its inode, so that an open
file stays the same file when its path moves or goes.  There are no links.  Every operation is one
call of the operating system, but for `makeDirectories`, which is `mkdir -p`. -/

namespace SupportPilot.Lib

inductive Entry where
  | directory
  | file (inode : Nat)
  deriving DecidableEq

structure Inode (β : Type) where
  content : List β
  modified : Nat
  deriving DecidableEq

structure FileSystem (ν β : Type) where
  entries : List (List ν × Entry)
  inodes : List (Inode β)

inductive FileError where
  | notFound | fileExists | notDirectory | isDirectory | notEmpty | invalid
  deriving DecidableEq

namespace FileSystem

variable {ν β : Type} [DecidableEq ν]

/-! ## Operations -/

section Operations

variable (fs : FileSystem ν β)

/-- What a path leads to; the empty one is the root of the file system. -/
def lookup (path : List ν) : Option Entry :=
  if path = [] then some .directory
  else (fs.entries.find? fun entry => entry.1 = path).map Prod.snd

def fileAt (path : List ν) : Option (Inode β) :=
  match fs.lookup path with
  | some (.file inode) => fs.inodes[inode]?
  | _ => none

def isFile (path : List ν) : Bool :=
  match fs.lookup path with
  | some (.file _) => true
  | _ => false

/-- Go through the directories above a path. -/
def reach (path : List ν) : Except FileError Unit :=
  match path.inits.find? fun above => above ≠ path ∧ fs.lookup above ≠ some .directory with
  | none => .ok ()
  | some above => .error (if fs.lookup above = none then .notFound else .notDirectory)

def makeDirectories (path : List ν) : Except FileError (FileSystem ν β) :=
  match path.inits.find? fun above => fs.isFile above with
  | some above => .error (if above = path then .fileExists else .notDirectory)
  | none => .ok { fs with
      entries := fs.entries ++ (path.inits.filter fun above => fs.lookup above = none).map
        fun above => (above, .directory) }

/-- Create a file, exclusively. -/
def create (path : List ν) (now : Nat) : Except FileError (Nat × FileSystem ν β) := do
  fs.reach path
  if (fs.lookup path).isSome then
    throw .fileExists
  return (fs.inodes.length, ⟨fs.entries ++ [(path, .file fs.inodes.length)],
    fs.inodes ++ [⟨[], now⟩]⟩)

def append (inode : Nat) (chunk : List β) (now : Nat) : FileSystem ν β :=
  { fs with inodes := fs.inodes.modify inode fun file => ⟨file.content ++ chunk, now⟩ }

/-- At most so many bytes from an offset on. -/
def readAt (inode offset count : Nat) : List β :=
  match fs.inodes[inode]? with
  | some file => (file.content.drop offset).take count
  | none => []

def openFile (path : List ν) : Except FileError Nat := do
  fs.reach path
  match fs.lookup path with
  | none => throw .notFound
  | some .directory => throw .isDirectory
  | some (.file inode) => return inode

/-- The inode of a file; a directory has none here. -/
def stat (path : List ν) : Except FileError (Option (Inode β)) := do
  fs.reach path
  match fs.lookup path with
  | none => throw .notFound
  | some .directory => return none
  | some (.file inode) => return fs.inodes[inode]?

def unlink (path : List ν) : Except FileError (FileSystem ν β) := do
  fs.reach path
  match fs.lookup path with
  | none => throw .notFound
  | some .directory => throw .isDirectory
  | some (.file _) => return { fs with entries := fs.entries.filter fun entry => entry.1 ≠ path }

/-- The paths inside a directory. -/
def below (directory : List ν) : List (List ν) :=
  (fs.entries.map Prod.fst).filter fun path => directory <+: path ∧ path ≠ directory

/-- The path of what is moved along with a directory. -/
def moved (source target path : List ν) : List ν :=
  if source <+: path then target ++ path.drop source.length else path

def rename (source target : List ν) : Except FileError (FileSystem ν β) := do
  fs.reach source
  fs.reach target
  match fs.lookup source, fs.lookup target with
  | none, _ => throw .notFound
  | some entry, found =>
    if source = target then
      return fs
    if source <+: target then
      throw .invalid
    match entry, found with
    | .file _, some .directory => throw .isDirectory
    | .directory, some (.file _) => throw .notDirectory
    | _, _ =>
      if fs.below target ≠ [] then
        throw .notEmpty
      return { fs with
        entries := (fs.entries.filter fun entry => entry.1 ≠ target).map fun entry =>
          (moved source target entry.1, entry.2) }

end Operations

/-! ## What an operation does to the paths -/

/-- A search for one value. -/
theorem find?_only {α : Type} [DecidableEq α] {x : α} {p : α → Bool} (l : List α)
    (only : ∀ a, p a = true → a = x) :
    l.find? p = if x ∈ l ∧ p x = true then some x else none := by
  split
  next there =>
    cases found : l.find? p with
    | none => exact absurd there.2 (by simpa using List.find?_eq_none.mp found x there.1)
    | some a => rw [only a (List.find?_some found)]
  next missing =>
    rw [List.find?_eq_none]
    intro a member chosen
    obtain rfl := only a chosen
    exact missing ⟨member, chosen⟩

section Lookup

variable {fs fs' : FileSystem ν β} {path source target : List ν} {now inode : Nat}

@[simp] theorem lookup_root : fs.lookup [] = some .directory := rfl

theorem lookup_of_ne (here : path ≠ []) :
    fs.lookup path = (fs.entries.find? fun entry => entry.1 = path).map Prod.snd := if_neg here

theorem lookup_of_mem {entry : List ν × Entry} (member : entry ∈ fs.entries) :
    fs.lookup entry.1 ≠ none := by
  intro missing
  by_cases root : entry.1 = []
  · rw [root] at missing
    cases missing
  · rw [lookup_of_ne root, Option.map_eq_none_iff, List.find?_eq_none] at missing
    exact missing entry member (by simp)

theorem mem_of_lookup {entry : Entry} (here : path ≠ []) (found : fs.lookup path = some entry) :
    (path, entry) ∈ fs.entries := by
  rw [lookup_of_ne here, Option.map_eq_some_iff] at found
  obtain ⟨item, chosen, rfl⟩ := found
  have same : item.1 = path := by simpa using List.find?_some chosen
  exact same ▸ List.mem_of_find?_eq_some chosen

theorem isFile_iff : fs.isFile path = true ↔ ∃ inode, fs.lookup path = some (.file inode) := by
  rw [isFile]
  split <;> simp_all

theorem reach_ok : fs.reach path = .ok () ↔
    ∀ above, above <+: path → above ≠ path → fs.lookup above = some .directory := by
  have whole : (path.inits.find? fun above => above ≠ path ∧
      fs.lookup above ≠ some .directory) = none ↔
      ∀ above, above <+: path → above ≠ path → fs.lookup above = some .directory := by
    simp [List.find?_eq_none]
  rw [reach, ← whole]
  split
  next found => simp only [found]
  next above found => simp only [found, reduceCtorEq]

/-- New entries are found where nothing was. -/
theorem lookup_concat {more : List (List ν × Entry)} {inodes : List (Inode β)} (here : path ≠ []) :
    (FileSystem.mk (fs.entries ++ more) inodes).lookup path =
      (fs.lookup path).or ((more.find? fun entry => entry.1 = path).map Prod.snd) := by
  rw [lookup_of_ne here, lookup_of_ne here, List.find?_append, Option.map_or]

theorem makeDirectories_ok (made : fs.makeDirectories path = .ok fs') :
    fs'.inodes = fs.inodes ∧ ∀ other,
      fs'.lookup other = if other <+: path then some .directory else fs.lookup other := by
  rw [makeDirectories] at made
  split at made
  · cases made
  next noFile =>
    cases made
    refine ⟨rfl, fun other => ?_⟩
    by_cases root : other = []
    · simp [root]
    have added := find?_only (x := other) (p := fun above => fs.lookup above = none ∧ above = other)
      path.inits (by simp)
    have found : (((path.inits.filter fun above => fs.lookup above = none).map
        fun above => (above, Entry.directory)).find? fun entry => entry.1 = other).map Prod.snd =
        if other <+: path ∧ fs.lookup other = none then some .directory else none := by
      rw [List.find?_map, List.find?_filter, Option.map_map]
      simp only [Function.comp_def, decide_eq_true_eq]
      rw [added]
      split <;> simp_all
    rw [lookup_concat root, found]
    by_cases inside : other <+: path
    · -- what is on the way is no file
      have plain : fs.isFile other ≠ true :=
        List.find?_eq_none.mp noFile other ((List.mem_inits _ _).mpr inside)
      rw [Ne, isFile_iff] at plain
      cases there : fs.lookup other with
      | none => simp [inside]
      | some entry =>
        cases entry with
        | directory => simp [inside]
        | file inode => exact absurd ⟨inode, there⟩ plain
    · simp [inside]

theorem create_ok (made : fs.create path now = .ok (inode, fs')) :
    fs.lookup path = none ∧ inode = fs.inodes.length ∧ fs'.inodes = fs.inodes ++ [⟨[], now⟩] ∧
      ∀ other, fs'.lookup other = if other = path then some (.file inode) else fs.lookup other := by
  obtain ⟨-, -, made⟩ := bind_eq_ok.1 made
  split at made
  · cases made
  next free =>
    cases made
    have missing : fs.lookup path = none := by simpa using free
    have here : path ≠ [] := by
      intro root
      rw [root] at missing
      cases missing
    refine ⟨missing, rfl, rfl, fun other => ?_⟩
    by_cases root : other = []
    · simp [root, Ne.symm here]
    · rw [lookup_concat root]
      by_cases same : other = path
      · simp [same, missing]
      · simp [same, Ne.symm same]

theorem unlink_ok (gone : fs.unlink path = .ok fs') :
    (∃ inode, fs.lookup path = some (.file inode)) ∧ fs'.inodes = fs.inodes ∧
      ∀ other, fs'.lookup other = if other = path then none else fs.lookup other := by
  obtain ⟨-, -, gone⟩ := bind_eq_ok.1 gone
  split at gone
  · cases gone
  · cases gone
  next inode found =>
    cases gone
    refine ⟨⟨inode, found⟩, rfl, fun other => ?_⟩
    have here : path ≠ [] := by
      intro root
      rw [root] at found
      cases found
    by_cases root : other = []
    · simp [root, Ne.symm here]
    · rw [lookup_of_ne root, lookup_of_ne root, List.find?_filter]
      split
      next same => simp [same]
      next differs =>
        congr 1
        refine List.find?_congr fun entry _ => ?_
        by_cases same : entry.1 = other <;> simp [same, differs]

theorem mem_below {directory : List ν} : path ∈ fs.below directory ↔
    (∃ entry ∈ fs.entries, entry.1 = path) ∧ directory <+: path ∧ path ≠ directory := by
  simp [below]

/-- The entry that a path of the moved tree comes from. -/
theorem moved_eq {entry other : List ν} (inside : ¬ source <+: target)
    (empty : target <+: entry → entry = target) :
    (entry ≠ target ∧ moved source target entry = other) ↔
      if target <+: other then entry = source ++ other.drop target.length
      else ¬ source <+: other ∧ entry = other := by
  rw [moved]
  split
  next along =>
    obtain ⟨rest, rfl⟩ := along
    have differs : source ++ rest ≠ target := fun same => inside ⟨rest, same⟩
    rw [List.drop_left]
    split
    next within =>
      obtain ⟨rest', rfl⟩ := within
      simp [differs]
    next without =>
      have apart : target ++ rest ≠ other := fun same => without ⟨rest, same⟩
      have aside : ¬ source <+: other → source ++ rest ≠ other := fun outside same =>
        outside ⟨rest, same⟩
      simpa [apart] using aside
  next beside =>
    split
    next within =>
      constructor
      · rintro ⟨differs, rfl⟩
        exact absurd (empty within) differs
      · rintro rfl
        exact absurd (List.prefix_append _ _) beside
    next without =>
      constructor
      · rintro ⟨-, rfl⟩
        exact ⟨beside, rfl⟩
      · rintro ⟨-, rfl⟩
        exact ⟨fun same => without (same ▸ List.prefix_rfl), rfl⟩

theorem lookup_moved (inside : ¬ source <+: target) (present : fs.lookup source ≠ none)
    (empty : fs.below target = []) (other : List ν) :
    (FileSystem.mk ((fs.entries.filter fun entry => entry.1 ≠ target).map fun entry =>
      (moved source target entry.1, entry.2)) fs.inodes).lookup other =
        if target <+: other then fs.lookup (source ++ other.drop target.length)
        else if source <+: other then none else fs.lookup other := by
  have there : source ≠ [] := by
    rintro rfl
    exact inside List.nil_prefix
  have nothing : ∀ entry ∈ fs.entries, target <+: entry.1 → entry.1 = target := by
    intro entry member within
    by_contra differs
    have listed : entry.1 ∈ fs.below target := mem_below.2 ⟨⟨entry, member, rfl⟩, within, differs⟩
    rw [empty] at listed
    cases listed
  have here : target ≠ [] := by
    rintro rfl
    obtain ⟨entry, found⟩ := Option.ne_none_iff_exists'.mp present
    exact there (nothing _ (mem_of_lookup there found) List.nil_prefix)
  by_cases root : other = []
  · subst root
    simp [there, here]
  have searched : ∀ p : List ν × Entry → Bool, (∀ entry, p entry = true ↔
      if target <+: other then entry.1 = source ++ other.drop target.length
      else ¬ source <+: other ∧ entry.1 = other) →
      (FileSystem.mk ((fs.entries.filter fun entry => entry.1 ≠ target).map fun entry =>
        (moved source target entry.1, entry.2)) fs.inodes).lookup other =
        (fs.entries.find? p).map Prod.snd := by
    intro p means
    rw [lookup_of_ne root, List.find?_map, List.find?_filter, Option.map_map]
    congr 1
    refine List.find?_congr fun entry member => ?_
    rw [Bool.eq_iff_iff, means, ← moved_eq inside (nothing entry member)]
    simp
  split
  next within =>
    have moves : source ++ other.drop target.length ≠ [] := by simp [there]
    exact (searched _ fun entry => by rw [if_pos within, decide_eq_true_eq]).trans
      (lookup_of_ne moves).symm
  next without =>
  split
  next along =>
    exact (searched (fun _ => false) fun entry => by simp [without, along]).trans (by simp)
  next beside =>
    exact (searched _ fun entry => by simp [without, beside]).trans (lookup_of_ne root).symm

/-- Everything inside of what is renamed moves along. -/
theorem rename_ok (renamed : fs.rename source target = .ok fs') :
    fs'.inodes = fs.inodes ∧ fs.lookup source ≠ none ∧ (source = target ∧ fs' = fs ∨
      ¬ source <+: target ∧ ∀ other, fs'.lookup other =
        if target <+: other then fs.lookup (source ++ other.drop target.length)
        else if source <+: other then none else fs.lookup other) := by
  obtain ⟨-, -, renamed⟩ := bind_eq_ok.1 renamed
  obtain ⟨-, -, renamed⟩ := bind_eq_ok.1 renamed
  split at renamed
  · cases renamed
  next entry there =>
    have present : fs.lookup source ≠ none := by simp [there]
    by_cases same : source = target
    · rw [if_pos same] at renamed
      cases renamed
      exact ⟨rfl, present, .inl ⟨same, rfl⟩⟩
    by_cases inside : source <+: target
    · simp only [if_neg same, if_pos inside] at renamed
      cases renamed
    simp only [if_neg same, if_neg inside] at renamed
    obtain ⟨empty, rfl⟩ : fs.below target = [] ∧ { fs with
        entries := (fs.entries.filter fun entry => entry.1 ≠ target).map fun entry =>
          (moved source target entry.1, entry.2) } = fs' := by
      split at renamed
      · cases renamed
      · cases renamed
      · split at renamed
        · cases renamed
        next empty => exact ⟨not_not.mp empty, Except.ok.inj renamed⟩
    refine ⟨rfl, present, .inr ⟨inside, lookup_moved inside (by simp [there]) empty⟩⟩

/-! ### Files that were there -/

theorem isFile_of_makeDirectories (made : fs.makeDirectories target = .ok fs')
    (file : fs'.isFile path = true) : fs.isFile path = true := by
  rw [isFile_iff] at file ⊢
  obtain ⟨inode, found⟩ := file
  rw [(makeDirectories_ok made).2] at found
  split at found
  · cases found
  · exact ⟨inode, found⟩

theorem isFile_of_unlink (gone : fs.unlink target = .ok fs') (file : fs'.isFile path = true) :
    fs.isFile path = true := by
  rw [isFile_iff] at file ⊢
  obtain ⟨inode, found⟩ := file
  rw [(unlink_ok gone).2.2] at found
  split at found
  · cases found
  · exact ⟨inode, found⟩

/-! ### Inodes -/

theorem fileAt_of_file (found : fs.lookup path = some (.file inode)) :
    fs.fileAt path = fs.inodes[inode]? := by
  rw [fileAt, found]

theorem fileAt_of_missing (missing : fs.lookup path = none) : fs.fileAt path = none := by
  rw [fileAt, missing]

/-- A path leads to the same file if its entry and the inode of this entry are the same. -/
theorem fileAt_congr (same : fs'.lookup path = fs.lookup path)
    (inodes : ∀ inode, fs.lookup path = some (.file inode) →
      fs'.inodes[inode]? = fs.inodes[inode]?) : fs'.fileAt path = fs.fileAt path := by
  rw [fileAt, fileAt, same]
  split
  next inode found => exact inodes inode found
  next => rfl

theorem fileAt_append {chunk : List β} (apart : fs.lookup path ≠ some (.file inode)) :
    (fs.append inode chunk now).fileAt path = fs.fileAt path := by
  refine fileAt_congr rfl fun other found => ?_
  have differs : inode ≠ other := by
    rintro rfl
    exact apart found
  simp [append, differs]

/-- Every file has an inode. -/
def Bounded (fs : FileSystem ν β) : Prop :=
  ∀ path inode, fs.lookup path = some (.file inode) → inode < fs.inodes.length

theorem bounded_of_entries (inside : ∀ entry ∈ fs.entries, ∀ inode, entry.2 = .file inode →
    inode < fs.inodes.length) : fs.Bounded := by
  intro path inode found
  rw [lookup] at found
  split at found
  · cases found
  · obtain ⟨entry, chosen, leads⟩ := Option.map_eq_some_iff.mp found
    exact inside entry (List.mem_of_find?_eq_some chosen) inode leads

theorem Bounded.makeDirectories (bounded : fs.Bounded)
    (made : fs.makeDirectories path = .ok fs') : fs'.Bounded := by
  obtain ⟨inodes, lookup⟩ := makeDirectories_ok made
  intro other inode found
  rw [lookup] at found
  rw [inodes]
  split at found
  · cases found
  · exact bounded other inode found

theorem Bounded.create (bounded : fs.Bounded) (made : fs.create path now = .ok (inode, fs')) :
    fs'.Bounded := by
  obtain ⟨-, rfl, inodes, lookup⟩ := create_ok made
  intro other inode found
  rw [lookup] at found
  rw [inodes, List.length_append, List.length_singleton]
  split at found
  · cases found
    omega
  · have := bounded other inode found
    omega

theorem Bounded.append (bounded : fs.Bounded) (chunk : List β) :
    (fs.append inode chunk now).Bounded := by
  intro other inode' found
  have here := bounded other inode' found
  simpa [FileSystem.append] using here

theorem Bounded.unlink (bounded : fs.Bounded) (gone : fs.unlink path = .ok fs') :
    fs'.Bounded := by
  obtain ⟨-, inodes, lookup⟩ := unlink_ok gone
  intro other inode found
  rw [lookup] at found
  rw [inodes]
  split at found
  · cases found
  · exact bounded other inode found

theorem Bounded.rename (bounded : fs.Bounded) (renamed : fs.rename source target = .ok fs') :
    fs'.Bounded := by
  obtain ⟨inodes, -, ⟨-, rfl⟩ | ⟨-, lookup⟩⟩ := rename_ok renamed
  · exact bounded
  · intro other inode found
    rw [lookup] at found
    rw [inodes]
    split at found
    · exact bounded _ inode found
    · split at found
      · cases found
      · exact bounded other inode found

theorem openFile_ok (opened : fs.openFile path = .ok inode) :
    fs.lookup path = some (.file inode) := by
  obtain ⟨-, -, opened⟩ := bind_eq_ok.1 opened
  split at opened
  · cases opened
  · cases opened
  next found =>
    cases opened
    exact found

end Lookup

end FileSystem

end SupportPilot.Lib
