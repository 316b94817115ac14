/-
  HostTables.Proofs.Path.Join — what a joined path consists of.

  Joining puts a relative text behind one slash (`join_of_relative`), so the components of the
  joined path are those of the base followed by those of the text (`components_join`). The
  components of a text behind a slash are its `segments`, which leave out empty segments and
  `.`; slashes in front of it do not matter (`segments_dropWhile`).
-/
import HostTables.Path.Basic

namespace HostTables.Path

/-! ## Segments -/

/-- The steps that a text between slashes takes, wherever they begin. -/
def segments (t : Text) : List Component := (t.splitOn '/').filterMap Component.ofSegment?

theorem segments_nil : segments [] = [] := rfl

theorem segments_append_slash (a b : Text) : segments (a ++ '/' :: b) = segments a ++ segments b := by
  simp only [segments, List.splitOn_append_cons_self, List.filterMap_append]

theorem segments_slash (t : Text) : segments ('/' :: t) = segments t :=
  segments_append_slash [] t

/-- Slashes in front lead nowhere. -/
theorem segments_dropWhile (t : Text) : segments (t.dropWhile (· == '/')) = segments t := by
  induction t with
  | nil => rfl
  | cons c t ih =>
    by_cases hc : c = '/'
    · subst hc; rw [segments_slash, ← ih]; rfl
    · have hd : (c :: t).dropWhile (· == '/') = c :: t := by simp [hc]
      rw [hd]

theorem head?_dropWhile_slash (t : Text) : (t.dropWhile (· == '/')).head? ≠ some '/' := by
  induction t with
  | nil => simp
  | cons c t ih =>
    by_cases hc : c = '/'
    · subst hc; exact ih
    · simp [hc]

theorem ofSegment?_ne_root (segment : Text) : Component.ofSegment? segment ≠ some .root := by
  unfold Component.ofSegment?
  split
  · simp
  · split <;> simp

theorem root_not_mem_segments (t : Text) : Component.root ∉ segments t := by
  intro h
  obtain ⟨segment, -, hs⟩ := List.mem_filterMap.mp h
  exact ofSegment?_ne_root segment hs

/-! ## Components -/

theorem components_of_absolute {p : Path} (h : p.isAbsolute = true) :
    p.components = .root :: segments p.text := by
  simp [components, segments, h]

/-- A relative text has its segments as components, and one more if it begins with `.`. -/
theorem components_of_relative {t : Text} (h : t.head? ≠ some '/') :
    components ⟨t⟩ = segments t ∨ components ⟨t⟩ = .current :: segments t := by
  have ha : isAbsolute ⟨t⟩ = false := by simpa [isAbsolute] using h
  by_cases hd : (t.splitOn '/').head? = some ['.']
  · right; simp [components, segments, ha, hd]
  · left; simp [components, segments, ha, hd]

/-! ## Joining -/

theorem join_of_absolute {p : Path} {t : Text} (h : t.head? = some '/') : p.join t = ⟨t⟩ := by
  simp [join, h]

/-- A relative text is put behind one slash, which may be the last character of the base. -/
theorem join_of_relative {p : Path} {t : Text} (hp : p.text ≠ []) (ht : t.head? ≠ some '/') :
    ∃ base, (p.join t).text = base ++ '/' :: t ∧ (p.text = base ∨ p.text = base ++ ['/']) := by
  by_cases hl : p.text.getLast? = some '/'
  · obtain ⟨base, hbase⟩ := List.getLast?_eq_some_iff.mp hl
    exact ⟨base, by simp [join, ht, hbase], Or.inr hbase⟩
  · exact ⟨p.text, by simp [join, ht, hl, hp], Or.inl rfl⟩

theorem head?_join {p : Path} {t : Text} (hp : p.text ≠ []) (ht : t.head? ≠ some '/') :
    (p.join t).text.head? = p.text.head? := by
  obtain ⟨c, rest, hc⟩ := List.exists_cons_of_ne_nil hp
  simp only [join, ht, if_false]
  split <;> simp [hc]

/-- The end of a joined path is the end of what was joined. -/
theorem getLast?_join {p : Path} {t : Text} (ht : t ≠ []) : (p.join t).text.getLast? = t.getLast? := by
  obtain ⟨c, rest, rfl⟩ := List.exists_cons_of_ne_nil ht
  unfold join
  split
  · rfl
  · split <;> simp [List.getLast?_append, List.getLast?_cons]

theorem isAbsolute_join {p : Path} {t : Text} (hp : p.isAbsolute = true) : (p.join t).isAbsolute = true := by
  by_cases ht : t.head? = some '/'
  · simp [join_of_absolute ht, isAbsolute, ht]
  · have hh : p.text.head? = some '/' := by simpa [isAbsolute] using hp
    obtain ⟨rest, hr⟩ := List.head?_eq_some_iff.mp hh
    simp only [join, ht, hr, if_false]
    split <;> simp [isAbsolute]

theorem segments_join {p : Path} {t : Text} (hp : p.text ≠ []) (ht : t.head? ≠ some '/') :
    segments (p.join t).text = segments p.text ++ segments t := by
  obtain ⟨base, hj, hb⟩ := join_of_relative hp ht
  have hbase : segments p.text = segments base := by
    rcases hb with hb | hb
    · rw [hb]
    · rw [hb, segments_append_slash, segments_nil, List.append_nil]
  rw [hj, segments_append_slash, hbase]

theorem head?_splitOn_append_slash (a b : Text) : ((a ++ '/' :: b).splitOn '/').head? = (a.splitOn '/').head? := by
  obtain ⟨first, rest, hcut⟩ := List.exists_cons_of_ne_nil (List.splitOn_ne_nil '/' a)
  rw [List.splitOn_append_cons_self, hcut, List.cons_append, List.head?_cons, List.head?_cons]

/-- The components of the base stay, also a `.` that it begins with, and those of the text follow. -/
theorem components_join {p : Path} {t : Text} (hp : p.text ≠ []) (ht : t.head? ≠ some '/') :
    (p.join t).components = p.components ++ segments t := by
  have habsolute : (p.join t).isAbsolute = p.isAbsolute := by rw [isAbsolute, isAbsolute, head?_join hp ht]
  have hfirst : ((p.join t).text.splitOn '/').head? = (p.text.splitOn '/').head? := by
    obtain ⟨base, hj, hb⟩ := join_of_relative hp ht
    rw [hj, head?_splitOn_append_slash]
    rcases hb with hb | hb
    · rw [hb]
    · rw [hb, head?_splitOn_append_slash]
  have hsegments := segments_join hp ht
  unfold segments at hsegments
  simp only [components, habsolute, hfirst, hsegments, segments, List.append_assoc]

/-- Nothing of the base is lost. -/
theorem text_prefix_join {p : Path} {t : Text} (hp : p.text ≠ []) (ht : t.head? ≠ some '/') :
    p.text <+: (p.join t).text := by
  obtain ⟨base, hj, hb⟩ := join_of_relative hp ht
  rw [hj]
  rcases hb with hb | hb
  · exact ⟨'/' :: t, by rw [hb]⟩
  · exact ⟨t, by rw [hb, List.append_assoc]; rfl⟩

end HostTables.Path
