/-
  HostTables.Proofs.Cgroup.PathTable — which directory a path table gives a name.

  Insertion keeps what is there, so the first directory given for a name is its directory
  (`entry?_insert`), and names stay distinct (`insert_distinct`) and in the order in which they first
  came (`entries_insertAll`); an entry is then the same as a look-up (`mem_entries_iff`). For a
  version 1 layout this comes to `entry?_ofLegacy`: a name has the directory of the first line that
  lists it (`listing?`), and the default entry, unless a line is called so, the directory of the
  default line, which lists some name first itself (`listing?_of_default`).
-/
import HostTables.Cgroup.PathTable

namespace HostTables.PathTable

/-- No name has two entries. -/
def Distinct (table : PathTable) : Prop := (table.entries.map Prod.fst).Nodup

/-! ## Insertion -/

theorem entry?_insert (table : PathTable) (name other : Text) (path : Path) :
    entry? (table.insert name path) other = (table.entry? other).or (if other = name then some path else none) := by
  unfold insert
  split
  · rename_i hs
    by_cases e : other = name
    · subst e
      obtain ⟨p, hp⟩ := Option.isSome_iff_exists.mp hs
      simp [hp]
    · simp [e]
  · have hone : List.lookup other [(name, path)] = if other = name then some path else none := by
      by_cases e : other = name
      · simp [e]
      · have hb : (other == name) = false := by simpa using e
        simp [List.lookup_cons, hb, e]
    simp [PathTable.entry?, List.lookup_append, hone]

theorem insert_distinct {table : PathTable} (h : table.Distinct) (name : Text) (path : Path) :
    (table.insert name path).Distinct := by
  unfold insert
  split
  · exact h
  · rename_i hs
    have hn : name ∉ table.entries.map Prod.fst := by
      intro hm
      obtain ⟨entry, he, rfl⟩ := List.mem_map.mp hm
      rw [Option.not_isSome_iff_eq_none, entry?, List.lookup_eq_none_iff] at hs
      simpa using hs entry he
    simp only [Distinct, List.map_append, List.map_cons, List.map_nil, List.nodup_append]
    refine ⟨h, by simp, fun a ha b hb => ?_⟩
    rintro rfl
    exact hn (List.mem_singleton.mp hb ▸ ha)

theorem mem_of_entry? {table : PathTable} {name : Text} {path : Path} (h : table.entry? name = some path) :
    (name, path) ∈ table.entries := by
  obtain ⟨before, after, hl, -⟩ := List.lookup_eq_some_iff.mp h
  simp [hl]

/-- With distinct names an entry is what a look-up finds. -/
theorem mem_entries_iff {table : PathTable} (h : table.Distinct) {name : Text} {path : Path} :
    (name, path) ∈ table.entries ↔ table.entry? name = some path := by
  obtain ⟨entries⟩ := table
  unfold Distinct at h
  unfold entry?
  induction entries with
  | nil => simp
  | cons entry rest ih =>
    obtain ⟨n, p⟩ := entry
    simp only [List.map_cons, List.nodup_cons] at h ih
    by_cases e : name = n
    · subst e
      have hnot : (name, path) ∉ rest := fun hm => h.1 (List.mem_map.mpr ⟨_, hm, rfl⟩)
      simp [hnot, eq_comm]
    · have hb : (name == n) = false := by simpa using e
      simp [List.lookup_cons, hb, e, ih h.2]

theorem entry?_insertAll (names : List Text) (path : Path) (other : Text) :
    ∀ table : PathTable, entry? (table.insertAll names path) other =
      (table.entry? other).or (if other ∈ names then some path else none) := by
  induction names with
  | nil => intro table; simp [insertAll]
  | cons name rest ih =>
    intro table
    have hstep := ih (table.insert name path)
    rw [entry?_insert] at hstep
    simp only [insertAll, List.foldl_cons] at hstep ⊢
    rw [hstep]
    by_cases e : other = name
    · simp [e]
    · simp [e]

theorem insertAll_distinct {names : List Text} {path : Path} :
    ∀ {table : PathTable}, table.Distinct → (table.insertAll names path).Distinct := by
  induction names with
  | nil => intro table h; exact h
  | cons name rest ih => intro table h; exact ih (insert_distinct h name path)

/-- Names are entered in the order of their first occurrence, behind those that are there. -/
theorem entries_insertAll (names : List Text) (path : Path) : ∀ table : PathTable,
    (table.insertAll names path).entries =
      table.entries ++ ((names.filter fun name => (table.entry? name).isNone).eraseDups).map (·, path) := by
  induction names with
  | nil => intro table; simp [insertAll]
  | cons name rest ih =>
    intro table
    have hstep := ih (table.insert name path)
    simp only [insertAll, List.foldl_cons] at hstep ⊢
    rw [hstep]
    cases hthere : table.entry? name with
    | some there =>
      have hsame : table.insert name path = table := by simp [insert, hthere]
      rw [hsame, List.filter_cons_of_neg (by simp [hthere])]
    | none =>
      have hnew : (table.insert name path).entries = table.entries ++ [(name, path)] := by simp [insert, hthere]
      -- Of the names behind, the one that is entered here is there now as well.
      have hfilter : (rest.filter fun other => (PathTable.entry? (table.insert name path) other).isNone) =
          (rest.filter fun other => (table.entry? other).isNone).filter fun other => !other == name := by
        rw [List.filter_filter]
        refine List.filter_congr fun other _ => ?_
        rw [entry?_insert]
        by_cases e : other = name <;> simp [e]
      rw [hfilter, hnew, List.filter_cons_of_pos (by simp [hthere]), List.eraseDups_cons]
      simp

/-! ## Version 1 -/

/-- The first line that lists a name, as its key or as a part of it. -/
def listing? (ms : List Membership) (name : Text) : Option Membership :=
  (keyed ms).find? fun m => (namesOf m).contains name

theorem key_mem_namesOf (m : Membership) : m.key ∈ namesOf m := by
  unfold namesOf
  split <;> simp

/-- The fold over the lines looks a name up in the first line that lists it. -/
theorem entry?_foldl (directory : Membership → Path) (ms : List Membership) (name : Text) :
    ∀ table : PathTable,
      entry? (ms.foldl (fun table m => table.insertAll (namesOf m) (directory m)) table) name =
        (table.entry? name).or ((ms.find? fun m => (namesOf m).contains name).map directory) := by
  induction ms with
  | nil => intro table; simp
  | cons m rest ih =>
    intro table
    rw [List.foldl_cons, ih, entry?_insertAll]
    by_cases hm : name ∈ namesOf m
    · simp [hm]
    · simp [hm]

theorem foldl_distinct (directory : Membership → Path) (ms : List Membership) :
    ∀ {table : PathTable}, table.Distinct →
      (ms.foldl (fun table m => table.insertAll (namesOf m) (directory m)) table).Distinct := by
  induction ms with
  | nil => intro table h; exact h
  | cons m rest ih => intro table h; exact ih (insertAll_distinct h)

theorem ofLegacy_distinct (root : Path) (ms : List Membership) (containerized : Bool) :
    (ofLegacy root ms containerized).Distinct := by
  have h : empty.Distinct := List.nodup_nil
  unfold ofLegacy
  dsimp only
  split
  · exact insert_distinct (foldl_distinct _ _ h) _ _
  · exact foldl_distinct _ _ h

/-- A name has the directory of the first line that lists it; the default name, if no line lists
    it, that of the default line. -/
theorem entry?_ofLegacy (root : Path) (ms : List Membership) (containerized : Bool) (name : Text) :
    entry? (ofLegacy root ms containerized) name =
      ((listing? ms name).or (if name = defaultName then defaultMember? ms else none)).map
        (Cgroup.legacyDirectory root containerized) := by
  have hfold := entry?_foldl (Cgroup.legacyDirectory root containerized) (keyed ms) name empty
  have hempty : empty.entry? name = none := rfl
  rw [hempty, Option.none_or] at hfold
  unfold ofLegacy listing?
  dsimp only
  cases hd : defaultMember? ms with
  | none => simp [hfold]
  | some m =>
    dsimp only
    rw [entry?_insert, hfold]
    by_cases e : name = defaultName
    · simp [e]
    · simp [e]

/-- A key of one part is that part. -/
theorem keyParts_eq_singleton {m : Membership} {part : Text} (h : m.keyParts = [part]) : m.key = part := by
  have hj : [','].intercalate (m.key.splitOn ',') = m.key := List.intercalate_splitOn ','
  rw [show m.key.splitOn ',' = [part] from h, List.intercalate_singleton] at hj
  exact hj.symm

/-- A line is entered under its key and the parts of it; a key that is not combined is its own only part. -/
theorem mem_namesOf_iff {m : Membership} {name : Text} : name ∈ namesOf m ↔ name = m.key ∨ name ∈ m.keyParts := by
  by_cases hl : m.keyParts.length > 1
  · simp [namesOf, hl]
  · have hne : m.keyParts ≠ [] := List.splitOn_ne_nil _ _
    have hone : m.keyParts.length = 1 := by
      have := List.length_pos_iff.mpr hne
      omega
    obtain ⟨part, hp⟩ := List.length_eq_one_iff.mp hone
    simp [namesOf, keyParts_eq_singleton hp, hp]

/-- A line is entered under the own controller exactly when that is a part of its key. -/
theorem ownController_mem_namesOf (m : Membership) :
    Membership.ownController ∈ namesOf m ↔ Membership.ownController ∈ m.keyParts := by
  rw [mem_namesOf_iff, or_iff_right_iff_imp]
  intro hkey
  rw [Membership.keyParts, ← hkey]
  decide

/-- The default line is the first to list some name: the own controller, or else its key. -/
theorem listing?_of_default {ms : List Membership} {m : Membership} (h : defaultMember? ms = some m) :
    ∃ name, listing? ms name = some m := by
  have hown : Membership.isLegacyOwn = fun m => (namesOf m).contains Membership.ownController := by
    funext m
    rw [Bool.eq_iff_iff, Membership.isLegacyOwn, List.contains_iff_mem, List.contains_iff_mem,
      ownController_mem_namesOf]
  unfold defaultMember? Membership.legacyOwn? at h
  rw [hown] at h
  rcases Option.or_eq_some_iff.mp h with h | ⟨-, h⟩
  · exact ⟨Membership.ownController, h⟩
  · obtain ⟨rest, hr⟩ := List.head?_eq_some_iff.mp h
    refine ⟨m.key, ?_⟩
    simp [listing?, hr, key_mem_namesOf]

end HostTables.PathTable
