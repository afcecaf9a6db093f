import SupportPilot.Lib.FileSystem

/-! # File systems that are trees

In a tree what is above an entry is a directory, and no two paths lead to one file.  Every operation
keeps this.  In a tree an operation fails for one of the reasons that its caller can see on the way
to its path. -/

namespace SupportPilot.Lib.FileSystem

variable {ν β : Type} [DecidableEq ν] {fs fs' : FileSystem ν β} {path source target : List ν}
  {now inode : Nat}

/-- Every directory on the way to the path is there. -/
def Reached (fs : FileSystem ν β) (path : List ν) : Prop :=
  ∀ above, above <+: path → above ≠ path → fs.lookup above = some .directory

structure Tree (fs : FileSystem ν β) : Prop where
  bounded : fs.Bounded
  reached : ∀ path, fs.lookup path ≠ none → fs.Reached path
  unlinked : ∀ path path' inode, fs.lookup path = some (.file inode) →
    fs.lookup path' = some (.file inode) → path = path'

theorem lookup_empty_ne_file (path : List ν) (inode : Nat) :
    (⟨[], []⟩ : FileSystem ν β).lookup path ≠ some (.file inode) := by
  intro found
  by_cases here : path = []
  · rw [here, lookup_root] at found
    cases found
  · rw [lookup_of_ne here] at found
    cases found

theorem tree_empty : (⟨[], []⟩ : FileSystem ν β).Tree := by
  refine ⟨fun path inode found => absurd found (lookup_empty_ne_file path inode),
    fun path present above within differs => ?_,
    fun path path' inode found => absurd found (lookup_empty_ne_file path inode)⟩
  by_cases here : path = []
  · subst here
    exact absurd (List.prefix_nil.mp within) differs
  · rw [lookup_of_ne here] at present
    exact absurd rfl present

/-! ## Where an operation succeeds -/

theorem reach_of_clear (clear : ∀ above, above <+: path → above ≠ path → fs.isFile above = false) :
    fs.reach path = .ok () ∨ fs.reach path = .error .notFound := by
  rw [reach]
  split
  · exact .inl rfl
  next above found =>
    have chosen := List.find?_some found
    have within := List.mem_of_find?_eq_some found
    rw [List.mem_inits] at within
    simp only [decide_eq_true_eq] at chosen
    have plain := clear above within chosen.1
    rw [isFile] at plain
    split at plain
    · cases plain
    next noFile =>
      refine .inr ?_
      cases there : fs.lookup above with
      | none => rfl
      | some entry =>
        cases entry with
        | directory => exact absurd there chosen.2
        | file inode => exact absurd there (noFile inode)

theorem makeDirectories_of_clear (clear : ∀ above, above <+: path → fs.isFile above = false) :
    ∃ fs', fs.makeDirectories path = .ok fs' := by
  have none : (path.inits.find? fun above => fs.isFile above) = none := by
    rw [List.find?_eq_none]
    intro above within
    rw [List.mem_inits] at within
    simp [clear above within]
  rw [makeDirectories, none]
  exact ⟨_, rfl⟩

theorem create_of_reached (reached : fs.Reached path) (missing : fs.lookup path = none)
    (now : Nat) : ∃ fs', fs.create path now = .ok (fs.inodes.length, fs') := by
  rw [create, reach_ok.2 reached, missing]
  exact ⟨_, rfl⟩

theorem create_of_present (reached : fs.Reached path) (present : fs.lookup path ≠ none) :
    fs.create path now = .error .fileExists := by
  obtain ⟨entry, found⟩ := Option.ne_none_iff_exists'.mp present
  rw [create, reach_ok.2 reached, found]
  rfl

theorem unlink_of_file (reached : fs.Reached path) (found : fs.lookup path = some (.file inode)) :
    ∃ fs', fs.unlink path = .ok fs' := by
  rw [unlink, reach_ok.2 reached, found]
  exact ⟨_, rfl⟩

theorem openFile_of_file (reached : fs.Reached path)
    (found : fs.lookup path = some (.file inode)) : fs.openFile path = .ok inode := by
  rw [openFile, reach_ok.2 reached, found]
  rfl

theorem stat_of_file (reached : fs.Reached path) (found : fs.lookup path = some (.file inode)) :
    fs.stat path = .ok fs.inodes[inode]? := by
  rw [stat, reach_ok.2 reached, found]
  rfl

section Missing

variable (clear : ∀ above, above <+: path → above ≠ path → fs.isFile above = false)
  (missing : fs.lookup path = none)
include clear missing

theorem unlink_of_missing : fs.unlink path = .error .notFound := by
  rw [unlink]
  obtain reached | failed := reach_of_clear clear
  · rw [reached, missing]
    rfl
  · rw [failed]
    rfl

theorem openFile_of_missing : fs.openFile path = .error .notFound := by
  rw [openFile]
  obtain reached | failed := reach_of_clear clear
  · rw [reached, missing]
    rfl
  · rw [failed]
    rfl

theorem stat_of_missing : fs.stat path = .error .notFound := by
  rw [stat]
  obtain reached | failed := reach_of_clear clear
  · rw [reached, missing]
    rfl
  · rw [failed]
    rfl

theorem rename_of_missing (reached : fs.Reached target) :
    fs.rename path target = .error .notFound := by
  rw [rename, reach_ok.2 reached]
  obtain reached | failed := reach_of_clear clear
  · rw [reached, missing]
    rfl
  · rw [failed]
    rfl

end Missing

theorem Tree.below_file (tree : fs.Tree) (noDirectory : fs.lookup path ≠ some .directory) :
    fs.below path = [] := by
  rw [List.eq_nil_iff_forall_not_mem]
  intro other listed
  obtain ⟨⟨entry, member, rfl⟩, within, differs⟩ := mem_below.1 listed
  exact noDirectory (tree.reached _ (lookup_of_mem member) path within differs.symm)

theorem Tree.rename_of_file (tree : fs.Tree) (found : fs.lookup source = some (.file inode))
    (reached : fs.Reached target) (noDirectory : fs.lookup target ≠ some .directory) :
    ∃ fs', fs.rename source target = .ok fs' := by
  have leads : fs.reach source = .ok () := reach_ok.2 (tree.reached source (by simp [found]))
  have empty := tree.below_file noDirectory
  rw [rename, leads, reach_ok.2 reached, found]
  show ∃ fs', (if source = target then _ else _ : Except _ _) = .ok fs'
  split
  · exact ⟨_, rfl⟩
  next differs =>
    have outside : ¬ source <+: target := by
      intro within
      have directory := reached source within differs
      rw [found] at directory
      cases directory
    rw [if_neg outside]
    cases there : fs.lookup target with
    | none => exact ⟨_, by simp [empty]; rfl⟩
    | some entry =>
      cases entry with
      | directory => exact absurd there noDirectory
      | file other => exact ⟨_, by simp [empty]; rfl⟩

/-! ## Operations keep the tree -/

theorem Tree.makeDirectories (tree : fs.Tree) (made : fs.makeDirectories path = .ok fs') :
    fs'.Tree := by
  obtain ⟨-, lookup⟩ := makeDirectories_ok made
  refine ⟨tree.bounded.makeDirectories made, ?_, ?_⟩
  · intro other present above within differs
    rw [lookup] at present ⊢
    split
    next => rfl
    next outside =>
      rw [if_neg fun inside => outside (within.trans inside)] at present
      exact tree.reached other present above within differs
  · intro other other' inode found found'
    rw [lookup] at found found'
    split at found
    · cases found
    split at found'
    · cases found'
    exact tree.unlinked other other' inode found found'

theorem Tree.create (tree : fs.Tree) (made : fs.create path now = .ok (inode, fs')) : fs'.Tree := by
  obtain ⟨⟨⟩, reached, -⟩ := bind_eq_ok.1 made
  obtain ⟨missing, rfl, -, lookup⟩ := create_ok made
  have absent : ∀ other, fs.lookup other ≠ some (.file fs.inodes.length) := fun other found =>
    Nat.lt_irrefl _ (tree.bounded other _ found)
  refine ⟨tree.bounded.create made, ?_, ?_⟩
  · intro other present above within differs
    rw [lookup] at present
    have old : fs.lookup above = some .directory := by
      split at present
      next same => exact reach_ok.1 reached above (same ▸ within) (same ▸ differs)
      next => exact tree.reached other present above within differs
    have apart : above ≠ path := by
      rintro rfl
      rw [missing] at old
      cases old
    rw [lookup, if_neg apart, old]
  · intro other other' inode found found'
    rw [lookup] at found found'
    split at found
    next same =>
      cases found
      split at found'
      next same' => rw [same, same']
      next => exact absurd found' (absent other')
    next =>
      split at found'
      next =>
        cases found'
        exact absurd found (absent other)
      next => exact tree.unlinked other other' inode found found'

theorem Tree.append (tree : fs.Tree) (chunk : List β) : (fs.append inode chunk now).Tree :=
  ⟨tree.bounded.append chunk, tree.reached, tree.unlinked⟩

theorem Tree.unlink (tree : fs.Tree) (gone : fs.unlink path = .ok fs') : fs'.Tree := by
  obtain ⟨⟨inode, file⟩, -, lookup⟩ := unlink_ok gone
  refine ⟨tree.bounded.unlink gone, ?_, ?_⟩
  · intro other present above within differs
    rw [lookup] at present
    split at present
    · exact absurd rfl present
    have old := tree.reached other present above within differs
    have apart : above ≠ path := by
      rintro rfl
      rw [file] at old
      cases old
    rw [lookup, if_neg apart, old]
  · intro other other' inode found found'
    rw [lookup] at found found'
    split at found
    · cases found
    split at found'
    · cases found'
    exact tree.unlinked other other' inode found found'

theorem Tree.rename (tree : fs.Tree) (renamed : fs.rename source target = .ok fs') : fs'.Tree := by
  obtain ⟨⟨⟩, -, rest⟩ := bind_eq_ok.1 renamed
  obtain ⟨⟨⟩, reached, -⟩ := bind_eq_ok.1 rest
  obtain ⟨-, -, ⟨-, rfl⟩ | ⟨outside, lookup⟩⟩ := rename_ok renamed
  · exact tree
  refine ⟨tree.bounded.rename renamed, ?_, ?_⟩
  · intro other present above within differs
    rw [lookup] at present ⊢
    split at present
    next inside =>
      split
      next inside' =>
        -- above and below moved together
        obtain ⟨more, rfl⟩ := inside'
        obtain ⟨rest, rfl⟩ := within
        rw [List.append_assoc, List.drop_left] at present
        rw [List.drop_left]
        refine tree.reached _ present _ ⟨rest, List.append_assoc _ _ _⟩ fun same => differs ?_
        simpa using same
      next outside' =>
        have before : above <+: target :=
          (List.prefix_or_prefix_of_prefix inside within).resolve_left outside'
        have apart : above ≠ target := fun same => outside' (same ▸ List.prefix_rfl)
        rw [if_neg fun along => outside (along.trans before)]
        exact reach_ok.1 reached above before apart
    next aside =>
      split at present
      · exact absurd rfl present
      next beside =>
        rw [if_neg fun inside => aside (inside.trans within),
          if_neg fun along => beside (along.trans within)]
        exact tree.reached other present above within differs
  · intro other other' inode found found'
    rw [lookup] at found found'
    split at found
    next inside =>
      split at found'
      next inside' =>
        have same := tree.unlinked _ _ inode found found'
        obtain ⟨rest, rfl⟩ := inside
        obtain ⟨rest', rfl⟩ := inside'
        simpa using same
      next =>
        split at found'
        · cases found'
        next beside => exact absurd ⟨_, tree.unlinked _ _ inode found found'⟩ beside
    next =>
      split at found
      · cases found
      next beside =>
        split at found'
        next => exact absurd ⟨_, tree.unlinked _ _ inode found' found⟩ beside
        next =>
          split at found'
          · cases found'
          · exact tree.unlinked _ _ inode found found'

end SupportPilot.Lib.FileSystem
