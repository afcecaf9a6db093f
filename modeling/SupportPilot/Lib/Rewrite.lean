import SupportPilot.Lib.Related
import SupportPilot.Lib.Table

/-! # Tables rewritten in place

`List.Forall₂ same rows rows'` says that a statement has rewritten the rows of a
table one by one, each as `same` allows.  Whatever `same` keeps of a row is kept
of the table: its keys, its lookups and the columns that do not change. -/

namespace SupportPilot.Lib

variable {ρ : Type*} {same : ρ → ρ → Prop} {rows rows' rows'' : List ρ}

theorem rewritten_refl (reflexive : ∀ row, same row row) (rows : List ρ) :
    List.Forall₂ same rows rows :=
  List.forall₂_same.mpr fun row _ => reflexive row

theorem rewritten_map {f : ρ → ρ} (keeps : ∀ row ∈ rows, same row (f row)) :
    List.Forall₂ same rows (rows.map f) :=
  List.forall₂_map_right_iff.mpr (List.forall₂_same.mpr keeps)

theorem rewritten_trans (transitive : ∀ a b c, same a b → same b c → same a c)
    (first : List.Forall₂ same rows rows') (second : List.Forall₂ same rows' rows'') :
    List.Forall₂ same rows rows'' := by
  induction first generalizing rows'' with
  | nil =>
    cases second
    exact .nil
  | cons head _ ih =>
    cases second with
    | cons head' tail' => exact .cons (transitive _ _ _ head head') (ih tail')

theorem mem_of_rewritten (rewritten : List.Forall₂ same rows rows') {row : ρ}
    (member : row ∈ rows) : ∃ row' ∈ rows', same row row' :=
  exists_of_mem_forall₂ (List.Forall₂.flip (R := flip same) rewritten) member

/-- Rows selected by columns that do not change. -/
theorem rewritten_filter {p : ρ → Bool} (keeps : ∀ row row', same row row' → p row' = p row)
    (rewritten : List.Forall₂ same rows rows') :
    List.Forall₂ same (rows.filter p) (rows'.filter p) := by
  induction rewritten with
  | nil => exact .nil
  | @cons row row' _ _ head _ ih =>
    have kept := keeps row row' head
    cases selected : p row with
    | true => simpa [kept, selected] using ⟨head, ih⟩
    | false => simpa [kept, selected] using ih

namespace Table

variable {κ : Type*} [DecidableEq κ] [Row ρ κ]
  (keys : ∀ row row', same row row' → (Row.key row' : κ) = Row.key row)

include keys

omit [DecidableEq κ] in
theorem keyed_of_rewritten (rewritten : List.Forall₂ same rows rows') (keyed : Keyed rows) :
    Keyed rows' := by
  rw [Keyed, map_eq_of_forall₂ keys rewritten]
  exact keyed

/-- A lookup finds the rewritten row. -/
theorem lookup_of_rewritten (rewritten : List.Forall₂ same rows rows') {k : κ} {row : ρ}
    (found : lookup rows k = some row) :
    ∃ row', lookup rows' k = some row' ∧ same row row' := by
  induction rewritten with
  | nil => cases found
  | @cons head head' _ _ related _ ih =>
    simp only [lookup, List.find?_cons, keys _ _ related] at found ⊢
    by_cases here : (Row.key head : κ) = k
    · simp only [here, decide_true, Option.some.injEq] at found ⊢
      exact ⟨head', rfl, found ▸ related⟩
    · simp only [here, decide_false] at found ⊢
      exact ih found

theorem lookup_none_of_rewritten (rewritten : List.Forall₂ same rows rows') {k : κ} :
    lookup rows' k = none ↔ lookup rows k = none := by
  have columns := map_eq_of_forall₂ keys rewritten
  have present : ∀ rows : List ρ, lookup rows k = none ↔ k ∉ rows.map Row.key := by
    intro rows
    rw [lookup_eq_none, List.mem_map]
    exact ⟨fun absent ⟨row, member, same⟩ => absent row member same,
      fun absent row member same => absent ⟨row, member, same⟩⟩
  rw [present, present, columns]

end Table

end SupportPilot.Lib
