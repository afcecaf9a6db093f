import SupportPilot.Storage.Objects

/-! # The keys of uploads

No two keys that `upload_document_version` builds name the same path, and none names a path above
the path of another one (`objectKeys`). -/

namespace SupportPilot.Storage

open Lib

/-! ## Texts of identifiers -/

theorem digitChar_inj : ∀ a < 16, ∀ b < 16, Nat.digitChar a = Nat.digitChar b → a = b := by decide

theorem eq_of_digits {a b : Nat} (n : Nat) (same : ∀ i < n, a / 16 ^ i % 16 = b / 16 ^ i % 16)
    (small : a < 16 ^ n) (small' : b < 16 ^ n) : a = b := by
  induction n generalizing a b with
  | zero => omega
  | succ n ih =>
    have last := same 0 (Nat.succ_pos n)
    have rest : a / 16 = b / 16 := by
      refine ih (fun i bound => ?_) ?_ ?_
      · rw [Nat.div_div_eq_div_mul, Nat.div_div_eq_div_mul, ← pow_succ']
        exact same (i + 1) (Nat.succ_lt_succ bound)
      · rw [pow_succ] at small
        omega
      · rw [pow_succ] at small'
        omega
    simp only [pow_zero, Nat.div_one] at last
    omega

theorem uuidHex_inj {a b : UUID} (small : a < 2 ^ 128) (small' : b < 2 ^ 128)
    (same : uuidHex a = uuidHex b) : a = b := by
  rw [uuidHex, uuidHex, List.map_inj_left] at same
  refine eq_of_digits 32 (fun i bound => ?_) small small'
  have digit := same (31 - i) (List.mem_range.mpr (by omega))
  have place : 31 - (31 - i) = i := by omega
  rw [place] at digit
  exact digitChar_inj _ (Nat.mod_lt _ (by decide)) _ (Nat.mod_lt _ (by decide)) digit

theorem dash_not_mem_uuidHex (id : UUID) : '-' ∉ uuidHex id := by
  have digits : ∀ d < 16, Nat.digitChar d ≠ '-' := by decide
  intro member
  obtain ⟨i, -, same⟩ := List.mem_map.mp member
  exact digits _ (Nat.mod_lt _ (by decide)) same

/-- Without its dashes, the text of an identifier is its hexadecimal number. -/
theorem filter_uuidText (id : UUID) : (uuidText id).filter (· ≠ '-') = uuidHex id := by
  have kept : ∀ part : Text, part ⊆ uuidHex id → part.filter (· ≠ '-') = part := by
    intro part inside
    rw [List.filter_eq_self]
    intro c member
    have differs : c ≠ '-' := by
      rintro rfl
      exact dash_not_mem_uuidHex id (inside member)
    simpa using differs
  have slices : ∀ start stop, slice start stop (uuidHex id) ⊆ uuidHex id := fun start stop =>
    ((List.drop_sublist _ _).trans (List.take_sublist _ _)).subset
  have text : uuidText id = slice 0 8 (uuidHex id) ++ '-' :: (slice 8 12 (uuidHex id) ++
      '-' :: (slice 12 16 (uuidHex id) ++ '-' :: (slice 16 20 (uuidHex id) ++
        '-' :: (uuidHex id).drop 20))) := by
    simp [uuidText, List.intercalate]
  rw [text]
  simp only [List.filter_append, List.filter_cons, kept _ (slices _ _),
    kept _ (List.drop_sublist 20 _).subset, ne_eq, not_true_eq_false, decide_false,
    Bool.false_eq_true, if_false]
  simp only [← List.append_assoc]
  rw [slice_append_slice (by decide) (by decide), slice_append_slice (by decide) (by decide),
    slice_append_slice (by decide) (by decide), slice_zero, List.take_append_drop]

theorem uuidText_inj {a b : UUID} (small : a < 2 ^ 128) (small' : b < 2 ^ 128)
    (same : uuidText a = uuidText b) : a = b := by
  refine uuidHex_inj small small' ?_
  rw [← filter_uuidText a, ← filter_uuidText b, same]

/-! ## Keys -/

/-- Its identifiers have 128 bits, and its file name names a file. -/
def Sound : ObjectKey → Prop
  | .staging workspaceId id => workspaceId < 2 ^ 128 ∧ id < 2 ^ 128
  | .version workspaceId documentId versionId filename => workspaceId < 2 ^ 128 ∧
      documentId < 2 ^ 128 ∧ versionId < 2 ^ 128 ∧ SafePart filename

variable {key key' : ObjectKey}

theorem safePart_of_sound (sound : Sound key) : ∀ part ∈ keyParts key, SafePart part := by
  intro part isPart
  cases key with
  | staging workspaceId id =>
    simp only [keyParts, List.mem_cons, List.not_mem_nil, or_false] at isPart
    obtain rfl | rfl | rfl := isPart
    · decide
    · exact safePart_uuidText workspaceId
    · exact safePart_uuidText id
  | version workspaceId documentId versionId filename =>
    simp only [keyParts, List.mem_cons, List.not_mem_nil, or_false] at isPart
    obtain rfl | rfl | rfl | rfl | rfl | rfl | rfl := isPart
    · decide
    · exact safePart_uuidText workspaceId
    · decide
    · exact safePart_uuidText documentId
    · decide
    · exact safePart_uuidText versionId
    · exact sound.2.2.2

theorem keyParts_inj (sound : Sound key) (sound' : Sound key') (same : keyParts key = keyParts key') :
    key = key' := by
  cases key with
  | staging workspaceId id =>
    cases key' with
    | staging workspaceId' id' =>
      simp only [keyParts, List.cons.injEq, and_true, true_and] at same
      rw [uuidText_inj sound.1 sound'.1 same.1, uuidText_inj sound.2 sound'.2 same.2]
    | version => simp [keyParts] at same
  | version workspaceId documentId versionId filename =>
    cases key' with
    | staging => simp [keyParts] at same
    | version workspaceId' documentId' versionId' filename' =>
      simp only [keyParts, List.cons.injEq, and_true, true_and] at same
      rw [uuidText_inj sound.1 sound'.1 same.1, uuidText_inj sound.2.1 sound'.2.1 same.2.1,
        uuidText_inj sound.2.2.1 sound'.2.2.1 same.2.2.1, same.2.2.2]

/-- The keys of staged uploads and those of versions start with different parts. -/
theorem keyParts_length_le (within : keyParts key <+: keyParts key') :
    (keyParts key').length ≤ (keyParts key).length := by
  cases key with
  | staging => cases key' <;> simp_all [keyParts, List.cons_prefix_cons]
  | version => cases key' <;> simp_all [keyParts, List.cons_prefix_cons]

def objectKeys (store : LocalObjectStore) : Placement store {key : ObjectKey // Sound key} where
  name key := keyText key.1
  place key := store.root ++ keyParts key.1
  path key := path_of_parts store (by cases key.1 <;> simp [keyParts]) (safePart_of_sound key.2)
  apart key key' within := by
    rw [List.prefix_append_right_inj] at within
    have same := within.eq_of_length_le (keyParts_length_le within)
    exact Subtype.ext (keyParts_inj key.2 key'.2 same)

theorem objectKeys_below (store : LocalObjectStore) (key : {key : ObjectKey // Sound key}) :
    ¬ (objectKeys store).place key <+: store.root := by
  intro within
  have length := within.length_le
  have parts : 0 < (keyParts key.1).length := by cases key.1 <;> simp [keyParts]
  rw [objectKeys, List.length_append] at length
  omega

end SupportPilot.Storage
