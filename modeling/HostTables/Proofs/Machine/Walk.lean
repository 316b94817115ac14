/-
  HostTables.Proofs.Machine.Walk — a walk through a file tree, step by step.

  Steps can be taken in two parts: what leads through `a ++ b` leads through `a` first, with
  some links left for `b` (`walk_append`), and a second part without links can be added to any
  walk (`walk_append_of_arrived`). Only a directory has steps going out of it
  (`directory_of_walk`). Hence a path is found whenever something behind it is
  (`canonical_of_join`). Reading gives the file at the location that the path leads to
  (`readText_eq_ok_iff`), which is the one that `canonical` finds (`canonical_of_locate`).
-/
import HostTables.Machine.FileTree
import HostTables.Proofs.Outcome
import HostTables.Proofs.Path.Join
import HostTables.Proofs.Text.Fields
import HostTables.Proofs.Text.Utf8

namespace HostTables.FileTree

variable {tree : FileTree}

/-! ## Two parts of a walk -/

/-- The first part decides: it arrives and the second part goes on, or it ends as it would alone,
    a link with the second part still to come. -/
theorem advance_append (tree : FileTree) (a b : List Text) : ∀ here : Location,
    tree.advance here (a ++ b) = match tree.advance here a with
      | .arrived middle => tree.advance middle b
      | .stopped fault => .stopped fault
      | .atLink directory target rest => .atLink directory target (rest ++ b) := by
  induction a with
  | nil => intro here; rfl
  | cons name rest ih =>
    intro here
    simp only [List.cons_append, advance]
    split
    · rfl
    · split
      · exact ih here
      · split
        · exact ih here.dropLast
        · split
          · rfl
          · split
            · rfl
            · rfl
            · exact ih (here ++ [name])

/-- All that a successful walk can do first: arrive, or follow a link and go on with one link less. -/
theorem walk_eq_ok_iff {links : Nat} {here location : Location} {steps : List Text} :
    tree.walk links here steps = .ok location ↔
      tree.advance here steps = .arrived location ∨
      ∃ left directory target rest, links = left + 1 ∧ tree.advance here steps = .atLink directory target rest ∧
        tree.walk left (startOf target directory) (stepsOf target ++ rest) = .ok location := by
  rw [walk.eq_def tree links here steps]
  cases tree.advance here steps with
  | arrived l => simp
  | stopped fault => simp
  | atLink directory target rest =>
    cases links with
    | zero => simp
    | succ links =>
      constructor
      · intro h; exact Or.inr ⟨links, directory, target, rest, rfl, rfl, h⟩
      · rintro (h | ⟨left, d, t, r, hl, ha, hw⟩)
        · cases h
        · cases hl; cases ha; exact hw

theorem walk_append {b : List Text} {location : Location} {links : Nat} : ∀ {a : List Text} {here : Location},
    tree.walk links here (a ++ b) = .ok location →
      ∃ middle left, tree.walk links here a = .ok middle ∧ tree.walk left middle b = .ok location := by
  induction links using Nat.strongRecOn with
  | ind links ih =>
    intro a here h
    have hab := advance_append tree a b here
    cases ha : tree.advance here a with
    | arrived middle =>
      rw [ha] at hab
      refine ⟨middle, links, walk_eq_ok_iff.mpr (Or.inl ha), ?_⟩
      rw [walk_eq_ok_iff] at h ⊢
      rwa [hab] at h
    | stopped fault =>
      rw [ha] at hab
      rw [walk_eq_ok_iff, hab] at h
      simp at h
    | atLink directory target rest =>
      rw [ha] at hab
      rcases walk_eq_ok_iff.mp h with h | ⟨left, d, t, r, hlinks, hd, hw⟩
      · rw [hab] at h; cases h
      · rw [hab] at hd
        cases hd
        rw [← List.append_assoc] at hw
        obtain ⟨middle, left', hm, hl⟩ := ih left (by omega) hw
        exact ⟨middle, left', walk_eq_ok_iff.mpr (Or.inr ⟨left, _, _, rest, hlinks, ha, hm⟩), hl⟩

/-- Steps that need no link can be added to any walk. -/
theorem walk_append_of_arrived {b : List Text} {middle location : Location}
    (hb : tree.advance middle b = .arrived location) {links : Nat} : ∀ {a : List Text} {here : Location},
    tree.walk links here a = .ok middle → tree.walk links here (a ++ b) = .ok location := by
  induction links using Nat.strongRecOn with
  | ind links ih =>
    intro a here h
    have hab := advance_append tree a b here
    rcases walk_eq_ok_iff.mp h with ha | ⟨left, directory, target, rest, hlinks, ha, hw⟩
    · rw [ha] at hab
      exact walk_eq_ok_iff.mpr (Or.inl (hab.trans hb))
    · rw [ha] at hab
      refine walk_eq_ok_iff.mpr (Or.inr ⟨left, directory, target, rest ++ b, hlinks, hab, ?_⟩)
      rw [← List.append_assoc]
      exact ih left (by omega) hw

theorem directory_of_walk {links : Nat} {here location : Location} {steps : List Text} (hne : steps ≠ [])
    (h : tree.walk links here steps = .ok location) : tree.entry? here = some .directory := by
  obtain ⟨name, rest, rfl⟩ := List.exists_cons_of_ne_nil hne
  by_cases e : tree.entry? here = some .directory
  · exact e
  · have hs : tree.advance here (name :: rest) = .stopped .notDirectory := by simp [advance, e]
    rw [walk_eq_ok_iff, hs] at h
    simp at h

/-! ## Paths -/

/-- The steps of a joined path are those of the base, which may take `.` last, and of the name. -/
theorem stepsOf_join {p : Path} {name : Text} (hp : p.text ≠ []) (hne : name ≠ []) (hrel : name.head? ≠ some '/') :
    ∃ front, stepsOf (p.join name).text = front ++ stepsOf name ∧
      (stepsOf p.text = front ∨ stepsOf p.text = front ++ [['.']]) := by
  obtain ⟨base, hj, hb⟩ := Path.join_of_relative hp hrel
  refine ⟨Text.fields '/' base, ?_, ?_⟩
  · have hl : (base ++ '/' :: name).getLast? = name.getLast? := by
      obtain ⟨init, last, rfl⟩ := (List.eq_nil_or_concat name).resolve_left hne
      simp [List.getLast?_append, List.getLast?_cons]
    simp only [stepsOf, hj, Text.fields_append_cons, hl, List.append_assoc]
  · rcases hb with hb | hb
    · by_cases hs : base.getLast? = some '/'
      · right; simp [stepsOf, hb, hs]
      · left; simp [stepsOf, hb, hs]
    · right
      simp [stepsOf, hb, Text.fields_append_cons, Text.fields_nil]

theorem stepsOf_ne_nil {name : Text} (hne : name ≠ []) (hrel : name.head? ≠ some '/') : stepsOf name ≠ [] := by
  obtain ⟨c, rest, rfl⟩ := List.exists_cons_of_ne_nil hne
  have hc : c ≠ '/' := by simpa using hrel
  simp [stepsOf, Text.fields_cons_ne_nil rest hc]

theorem startOf_join {p : Path} {name : Text} (hp : p.text ≠ []) (hrel : name.head? ≠ some '/')
    (relativeTo : Location) : startOf (p.join name).text relativeTo = startOf p.text relativeTo := by
  unfold startOf
  rw [Path.head?_join hp hrel]

/-- Whatever is found behind a path, the path itself is found. -/
theorem canonical_of_join {p : Path} {name : Text} {location : Location} (hp : p.text ≠ []) (hne : name ≠ [])
    (hrel : name.head? ≠ some '/') (h : tree.canonical (p.join name) = .ok location) :
    ∃ base, tree.canonical p = .ok base := by
  obtain ⟨base, hj, hb⟩ := Path.join_of_relative hp hrel
  have hnul : '\x00' ∉ (p.join name).text := by
    intro hm
    simp [canonical, hm] at h
  have hnulp : '\x00' ∉ p.text := by
    rw [hj] at hnul
    rcases hb with hb | hb
    · rw [hb]; intro hm; exact hnul (by simp [hm])
    · rw [hb]; intro hm; exact hnul (by simpa using Or.inl hm)
  have hjne : (p.join name).text ≠ [] := by rw [hj]; simp
  obtain ⟨front, hsteps, hfront⟩ := stepsOf_join hp hne hrel
  simp only [canonical, hnul, hjne, if_false, startOf_join hp hrel, hsteps] at h
  obtain ⟨middle, left, hmiddle, hrest⟩ := walk_append h
  simp only [canonical, hnulp, hp, if_false]
  rcases hfront with hf | hf
  · exact ⟨middle, by rw [hf]; exact hmiddle⟩
  · have hdir := directory_of_walk (stepsOf_ne_nil hne hrel) hrest
    have hdot : tree.advance middle [['.']] = .arrived middle := by simp [advance, hdir]
    exact ⟨middle, by rw [hf]; exact walk_append_of_arrived hdot hmiddle⟩

/-! ## Reading -/

theorem canonical_of_locate {path : Path} {location : Location} (h : tree.locate path = .ok location) :
    tree.canonical path = .ok location := by
  unfold locate at h
  split at h
  · cases h
  · exact h

/-- What is read is the file at the location the path leads to. -/
theorem readText_eq_ok_iff {path : Path} {content : Text} :
    tree.readText path = .ok content ↔ ∃ location bytes, tree.locate path = .ok location ∧
      tree.entry? location = some (.file bytes) ∧ Utf8.decodeLossy bytes = content := by
  simp only [readText, readBytes, openEntry, bind_eq_ok]
  constructor
  · rintro ⟨bytes, ⟨entry, ⟨location, hl, he⟩, hb⟩, hc⟩
    have hentry : tree.entry? location = some entry := by
      split at he
      · cases he
      · rename_i e _ hsome; cases he; exact hsome
      · cases he
    cases entry with
    | file stored => cases hb; cases hc; exact ⟨location, bytes, hl, hentry, rfl⟩
    | directory => cases hb
    | link target => cases hb
    | unreadable fault => cases hb
  · rintro ⟨location, bytes, hl, he, rfl⟩
    exact ⟨bytes, ⟨.file bytes, ⟨location, hl, by rw [he]⟩, rfl⟩, rfl⟩

/-- A file that holds a text is read as that text. -/
theorem readText_of_encode {path : Path} {t : Text} (h : tree.readBytes path = .ok (Utf8.encode t)) :
    tree.readText path = .ok t := by
  rw [readText, h]
  exact congrArg Except.ok (Utf8.decodeLossy_encode t)

end HostTables.FileTree
