/-
  HostTables.Proofs.Path.Filename — which file names are refused, and what the others lead to.

  A name is refused for the first of three faults that it has (`checkFilename_eq_error_iff`). Only a
  whole segment `..` is a reference to the parent (`parent_mem_components_iff`); a name that merely
  contains dots has none. Without one every segment of a name leads down (`segments_of_no_parent`), so
  a name that is accepted leads from any directory down by its own `names` (`components_join_of_check`).
-/
import HostTables.Path.Filename
import HostTables.Proofs.Path.Join

namespace HostTables

/-! ## Faults -/

theorem checkFilename_eq_ok_iff {name : Text} :
    checkFilename name = .ok () ↔
      name ≠ [] ∧ name.head? ≠ some '/' ∧ Component.parent ∉ Path.components ⟨name⟩ := by
  unfold checkFilename
  by_cases he : name = []
  · simp [he]
  · by_cases ha : name.head? = some '/'
    · simp [he, ha, Path.isAbsolute]
    · by_cases hp : Component.parent ∈ Path.components ⟨name⟩
      · simp [he, ha, hp, Path.isAbsolute]
      · simp [he, ha, hp, Path.isAbsolute]

/-- The name has the fault and none that comes before it. -/
def FilenameError.FirstOf (name : Text) : FilenameError → Prop
  | .empty => name = []
  | .absolute refused => refused = name ∧ name.head? = some '/'
  | .parentReference refused => refused = name ∧ name.head? ≠ some '/' ∧ ['.', '.'] ∈ name.splitOn '/'
  | .outsideRoot .. => False

instance (name : Text) : (cause : FilenameError) → Decidable (cause.FirstOf name)
  | .empty => inferInstanceAs (Decidable (name = []))
  | .absolute _ => inferInstanceAs (Decidable (_ ∧ _))
  | .parentReference _ => inferInstanceAs (Decidable (_ ∧ _))
  | .outsideRoot .. => inferInstanceAs (Decidable False)

theorem Component.ofSegment?_eq_parent_iff {segment : Text} :
    ofSegment? segment = some .parent ↔ segment = ['.', '.'] := by
  constructor
  · intro h
    unfold ofSegment? at h
    split at h
    · cases h
    · split at h
      · assumption
      · cases h
  · intro h
    rw [h]
    rfl

theorem parent_mem_components_iff {t : Text} :
    Component.parent ∈ Path.components ⟨t⟩ ↔ ['.', '.'] ∈ t.splitOn '/' := by
  have hsegments : Component.parent ∈ Path.segments t ↔ ['.', '.'] ∈ t.splitOn '/' := by
    simp [Path.segments, List.mem_filterMap, Component.ofSegment?_eq_parent_iff]
  rw [← hsegments]
  by_cases ha : t.head? = some '/'
  · rw [Path.components_of_absolute (by simp [Path.isAbsolute, ha])]
    simp
  · rcases Path.components_of_relative ha with h | h
    · rw [h]
    · rw [h]
      simp

theorem checkFilename_eq_error_iff {name : Text} {cause : FilenameError} :
    checkFilename name = .error cause ↔ cause.FirstOf name := by
  constructor
  · intro h
    unfold checkFilename at h
    split at h
    · cases h
      assumption
    split at h
    · rename_i ha
      cases h
      exact ⟨rfl, by simpa [Path.isAbsolute] using ha⟩
    split at h
    · rename_i ha hp
      cases h
      exact ⟨rfl, by simpa [Path.isAbsolute] using ha, parent_mem_components_iff.mp hp⟩
    · cases h
  · intro h
    unfold checkFilename
    cases cause with
    | empty =>
      have hempty : name = [] := h
      rw [if_pos hempty]
    | absolute refused =>
      obtain ⟨rfl, ha⟩ := h
      have hne : refused ≠ [] := by
        intro hempty
        rw [hempty] at ha
        cases ha
      rw [if_neg hne, if_pos (by simp [Path.isAbsolute, ha])]
    | parentReference refused =>
      obtain ⟨rfl, ha, hp⟩ := h
      have hne : refused ≠ [] := by
        intro hempty
        rw [hempty] at hp
        exact absurd hp (by decide)
      rw [if_neg hne, if_neg (by simp [Path.isAbsolute, ha]), if_pos (parent_mem_components_iff.mpr hp)]
    | outsideRoot path root => exact h.elim

/-! ## Accepted names -/

namespace Path

/-- The segments that are names: neither empty nor `.`. -/
def names (t : Text) : List Text := (t.splitOn '/').filter fun segment => segment ≠ [] ∧ segment ≠ ['.']

theorem segments_of_no_parent {t : Text} (h : ['.', '.'] ∉ t.splitOn '/') : segments t = (names t).map .normal := by
  unfold segments names
  generalize t.splitOn '/' = all at h
  induction all with
  | nil => rfl
  | cons segment rest ih =>
    simp only [List.mem_cons, not_or] at h
    have hparent : segment ≠ ['.', '.'] := Ne.symm h.1
    by_cases hskip : segment = [] ∨ segment = ['.']
    · have hnone : Component.ofSegment? segment = none := if_pos hskip
      have hdrop : ¬ (segment ≠ [] ∧ segment ≠ ['.']) := fun hkeep => hskip.elim hkeep.1 hkeep.2
      rw [List.filterMap_cons_none hnone, List.filter_cons_of_neg (by simpa using hdrop), ih h.2]
    · have hsome : Component.ofSegment? segment = some (.normal segment) := by simp [Component.ofSegment?, hskip, hparent]
      have hkeep : segment ≠ [] ∧ segment ≠ ['.'] := not_or.mp hskip
      rw [List.filterMap_cons_some hsome, List.filter_cons_of_pos (by simpa using hkeep), ih h.2, List.map_cons]

/-- An accepted name leads down by its names, from wherever the base is. -/
theorem components_join_of_check {root : Path} {name : Text} (hroot : root.text ≠ []) (hc : checkFilename name = .ok ()) :
    (root.join name).components = root.components ++ (names name).map .normal := by
  obtain ⟨-, hrelative, hparent⟩ := checkFilename_eq_ok_iff.mp hc
  rw [parent_mem_components_iff] at hparent
  rw [components_join hroot hrelative, segments_of_no_parent hparent]

end Path

end HostTables
