/-
  HostTables.Proofs.Text.Fields — a text cut at a separator, everywhere or once.

  Cutting everywhere distributes over a separator (`fields_append_cons`), and a text without the
  separator is one piece, or none if it is empty (`fields_of_not_mem`). These two determine
  the fields of any text, and give pieces back however they are spread (`fields_of_spread`); every text
  has its fields spread (`spread_fields`). A text has no field exactly when it is separators only
  (`fields_eq_nil_iff`). A translation of texts that keeps the separator apart does not move the cuts
  (`splitOn_map`). Cutting once gives the text before the first separator and all behind it
  (`splitOnce?_eq_some_iff`), or all before the last one and the text behind it (`splitLast?_eq_some_iff`);
  it gives nothing when there is no separator (`splitOnce?_of_not_mem`, `splitLast?_eq_none_iff`).
-/
import HostTables.Text.Basic
import Mathlib.Data.List.Forall2

namespace HostTables.Text

variable {separator : Char}

/-! ## Cutting everywhere -/

/-- No piece has an element that is cut at. -/
theorem not_of_mem_splitOnP {α : Type} {p : α → Bool} {xs : List α} :
    ∀ {piece : List α}, piece ∈ xs.splitOnP p → ∀ x ∈ piece, p x = false := by
  induction xs with
  | nil =>
    intro piece hp x hx
    rw [List.mem_singleton.mp hp] at hx
    cases hx
  | cons y ys ih =>
    intro piece hp
    rw [List.splitOnP_cons_eq_if_modifyHead] at hp
    split at hp
    · rcases List.mem_cons.mp hp with rfl | hp
      · exact fun _ hx => nomatch hx
      · exact ih hp
    · -- The element goes to the first piece of the rest.
      rename_i hy
      obtain ⟨first, rest, hcut⟩ := List.exists_cons_of_ne_nil (List.splitOnP_ne_nil p ys)
      rw [hcut] at hp ih
      rcases List.mem_cons.mp hp with rfl | hp
      · exact List.forall_mem_cons.mpr ⟨by simpa using hy, ih List.mem_cons_self⟩
      · exact ih (List.mem_cons_of_mem first hp)

theorem not_mem_of_mem_splitOn {α : Type} [BEq α] [LawfulBEq α] {x : α} {xs piece : List α}
    (h : piece ∈ xs.splitOn x) : x ∉ piece := by
  rw [List.splitOn_eq_splitOnP] at h
  intro hx
  have hne : (x == x) = false := not_of_mem_splitOnP h x hx
  simp at hne

section Translated

variable {α β : Type} {f : List α → List β} {x : α} {y : β}

theorem intercalate_map (hjoin : ∀ a rest, f (a ++ x :: rest) = f a ++ y :: f rest) {pieces : List (List α)}
    (hne : pieces ≠ []) : f (List.intercalate [x] pieces) = List.intercalate [y] (pieces.map f) := by
  induction pieces with
  | nil => exact absurd rfl hne
  | cons piece rest ih =>
    by_cases hrest : rest = []
    · simp [hrest]
    · have hmore : rest.map f ≠ [] := by simpa using hrest
      rw [List.map_cons, List.intercalate_cons_of_ne_nil hrest, List.intercalate_cons_of_ne_nil hmore, ← ih hrest]
      simp [hjoin]

/-- A translation that keeps the separator apart is cut where what it translates is cut. -/
theorem splitOn_map [BEq α] [LawfulBEq α] [BEq β] [LawfulBEq β]
    (hjoin : ∀ a rest, f (a ++ x :: rest) = f a ++ y :: f rest) (hmem : ∀ a, y ∈ f a → x ∈ a) (xs : List α) :
    (f xs).splitOn y = (xs.splitOn x).map f := by
  have hne : xs.splitOn x ≠ [] := List.splitOn_ne_nil x xs
  have hpieces : ∀ piece ∈ (xs.splitOn x).map f, y ∉ piece := by
    intro piece hpiece
    obtain ⟨raw, hraw, rfl⟩ := List.mem_map.mp hpiece
    exact fun h => not_mem_of_mem_splitOn hraw (hmem raw h)
  calc (f xs).splitOn y
      = (f (List.intercalate [x] (xs.splitOn x))).splitOn y := by rw [List.intercalate_splitOn]
    _ = (List.intercalate [y] ((xs.splitOn x).map f)).splitOn y := by rw [intercalate_map hjoin hne]
    _ = (xs.splitOn x).map f := List.splitOn_intercalate y hpieces (by simp)

end Translated

theorem not_mem_of_mem_fields {t piece : Text} (h : piece ∈ fields separator t) : separator ∉ piece :=
  not_mem_of_mem_splitOn (List.mem_filter.mp h).1

theorem fields_nil : fields separator [] = [] := rfl

theorem fields_append_cons (a b : Text) :
    fields separator (a ++ separator :: b) = fields separator a ++ fields separator b := by
  simp only [fields, List.splitOn_append_cons_self, List.filter_append]

theorem fields_cons (t : Text) : fields separator (separator :: t) = fields separator t := by
  have h : fields separator ([] ++ separator :: t) = fields separator [] ++ fields separator t :=
    fields_append_cons [] t
  simpa [fields_nil] using h

theorem fields_of_not_mem {t : Text} (h : separator ∉ t) (hne : t ≠ []) : fields separator t = [t] := by
  simp [fields, List.splitOn_eq_singleton h, hne]

/-- A text that begins with another character than the separator has a piece. -/
theorem fields_cons_ne_nil {c : Char} (t : Text) (hc : c ≠ separator) : fields separator (c :: t) ≠ [] := by
  by_cases hm : separator ∈ t
  · obtain ⟨a, b, rfl, ha⟩ := List.eq_append_cons_of_mem hm
    have hca : separator ∉ c :: a := by simp [ha, Ne.symm hc]
    rw [← List.cons_append, fields_append_cons, fields_of_not_mem hca (by simp)]
    simp
  · rw [fields_of_not_mem (by simp [hm, Ne.symm hc]) (by simp)]
    simp

theorem fields_eq_nil_iff {t : Text} : fields separator t = [] ↔ ∀ c ∈ t, c = separator := by
  induction t with
  | nil => simp [fields_nil]
  | cons c rest ih =>
    by_cases hc : c = separator
    · simp [hc, fields_cons, ih]
    · simp [hc, fields_cons_ne_nil rest hc]

/-! ## Writing -/

/-- The pieces in order with separators around them: at least one between neighbours, any number in front
    and at the end. -/
inductive Spread (separator : Char) : List Text → Text → Prop
  | nil : Spread separator [] []
  | gap {pieces : List Text} {t : Text} : Spread separator pieces t → Spread separator pieces (separator :: t)
  | piece {p : Text} {pieces : List Text} {t : Text} : p ≠ [] → separator ∉ p → Spread separator pieces t →
      Spread separator (p :: pieces) (p ++ separator :: t)
  | last {p : Text} : p ≠ [] → separator ∉ p → Spread separator [p] p

/-- However pieces are spread, they are cut out again. -/
theorem fields_of_spread {pieces : List Text} {t : Text} (h : Spread separator pieces t) : fields separator t = pieces := by
  induction h with
  | nil => exact fields_nil
  | gap _ ih => rw [fields_cons, ih]
  | piece hne hm _ ih =>
    rw [fields_append_cons, fields_of_not_mem hm hne, ih]
    rfl
  | last hne hm => exact fields_of_not_mem hm hne

/-- Every text has its fields spread. -/
theorem spread_fields (t : Text) : Spread separator (fields separator t) t := by
  induction hlength : t.length using Nat.strongRecOn generalizing t with
  | _ n ih =>
    by_cases hm : separator ∈ t
    · obtain ⟨first, rest, rfl, hfirst⟩ := List.eq_append_cons_of_mem hm
      have hshorter : rest.length < n := by
        simp only [List.length_append, List.length_cons] at hlength
        omega
      have hrest : Spread separator (fields separator rest) rest := ih _ hshorter rest rfl
      by_cases hnil : first = []
      · rw [hnil, List.nil_append, fields_cons]
        exact .gap hrest
      · rw [fields_append_cons, fields_of_not_mem hfirst hnil, List.singleton_append]
        exact .piece hnil hfirst hrest
    · by_cases hnil : t = []
      · rw [hnil, fields_nil]
        exact .nil
      · rw [fields_of_not_mem hm hnil]
        exact .last hnil hm

/-- Every piece is a part of the text without separators. -/
theorem piece_of_spread {pieces : List Text} {t : Text} (h : Spread separator pieces t) :
    ∀ p ∈ pieces, p ≠ [] ∧ separator ∉ p ∧ p ⊆ t := by
  induction h with
  | nil => nofun
  | gap _ ih =>
    intro p hp
    obtain ⟨hne, hm, hsub⟩ := ih p hp
    exact ⟨hne, hm, List.subset_cons_of_subset _ hsub⟩
  | piece hne hm _ ih =>
    refine List.forall_mem_cons.mpr ⟨⟨hne, hm, List.subset_append_left _ _⟩, ?_⟩
    intro q hq
    obtain ⟨hqne, hqm, hsub⟩ := ih q hq
    exact ⟨hqne, hqm, List.subset_append_of_subset_right _ (List.subset_cons_of_subset _ hsub)⟩
  | last hne hm => exact List.forall_mem_singleton.mpr ⟨hne, hm, List.Subset.refl _⟩

/-- What is in none of the pieces is nowhere in the text, unless they are kept apart by it. -/
theorem not_mem_of_spread {c : Char} {pieces : List Text} {t : Text} (h : Spread separator pieces t) (hc : c ≠ separator)
    (hpieces : ∀ p ∈ pieces, c ∉ p) : c ∉ t := by
  induction h with
  | nil => nofun
  | gap _ ih => simp [hc, ih hpieces]
  | piece _ _ _ ih =>
    obtain ⟨hp, hrest⟩ := List.forall_mem_cons.mp hpieces
    simp [hp, hc, ih hrest]
  | last => exact hpieces _ List.mem_cons_self

theorem joined_singleton (t p : Text) : joined t [p] = p := List.intercalate_singleton

theorem joined_cons {rest : List Text} (p : Text) (h : rest ≠ []) :
    joined [separator] (p :: rest) = p ++ separator :: joined [separator] rest := by
  rw [joined, List.intercalate_cons_of_ne_nil h, List.append_assoc]
  rfl

theorem joined_append {a b : List Text} (ha : a ≠ []) (hb : b ≠ []) :
    joined [separator] (a ++ b) = joined [separator] a ++ separator :: joined [separator] b := by
  induction a with
  | nil => exact absurd rfl ha
  | cons p rest ih =>
    by_cases hrest : rest = []
    · rw [hrest, List.singleton_append, joined_cons p hb, joined_singleton]
    · have hmore : rest ++ b ≠ [] := by simp [hrest]
      rw [List.cons_append, joined_cons p hmore, joined_cons p hrest, ih hrest, List.append_assoc, List.cons_append]

theorem not_mem_joined {c : Char} {pieces : List Text} (hc : c ≠ separator) (h : ∀ p ∈ pieces, c ∉ p) :
    c ∉ joined [separator] pieces := by
  induction pieces with
  | nil => nofun
  | cons p rest ih =>
    obtain ⟨hp, hrest⟩ := List.forall_mem_cons.mp h
    by_cases hnil : rest = []
    · rwa [hnil, joined_singleton]
    · rw [joined_cons p hnil]
      simp [hp, hc, ih hrest]

/-- Pieces joined with a single separator are spread. -/
theorem spread_joined {pieces : List Text} (h : ∀ p ∈ pieces, p ≠ [] ∧ separator ∉ p) :
    Spread separator pieces (joined [separator] pieces) := by
  induction pieces with
  | nil => exact .nil
  | cons p rest ih =>
    obtain ⟨⟨hne, hm⟩, hrest⟩ := List.forall_mem_cons.mp h
    by_cases hnil : rest = []
    · rw [hnil, joined_singleton]
      exact .last hne hm
    · rw [joined_cons p hnil]
      exact .piece hne hm (ih hrest)

/-- Tokens can be written as lines. -/
theorem exists_spread_lines {separator between : Char} (hne : between ≠ separator) {tokens : List (List Text)}
    (h : ∀ pieces ∈ tokens, pieces ≠ [] ∧ ∀ p ∈ pieces, p ≠ [] ∧ separator ∉ p ∧ between ∉ p) :
    ∃ lines content, List.Forall₂ (Spread separator) tokens lines ∧ Spread between lines content := by
  have hspread : ∀ pieces ∈ tokens, Spread separator pieces (joined [separator] pieces) := fun pieces hpieces =>
    spread_joined fun p hp => ⟨((h pieces hpieces).2 p hp).1, ((h pieces hpieces).2 p hp).2.1⟩
  refine ⟨tokens.map (joined [separator]), joined [between] (tokens.map (joined [separator])), ?_, spread_joined ?_⟩
  · rw [List.forall₂_map_right_iff, List.forall₂_same]
    exact hspread
  · refine List.forall_mem_map.mpr fun pieces hpieces => ⟨fun hnil => (h pieces hpieces).1 ?_, ?_⟩
    · rw [← fields_of_spread (hspread pieces hpieces), hnil, fields_nil]
    · exact not_mem_joined hne fun p hp => ((h pieces hpieces).2 p hp).2.2

theorem spread_replicate (n : Nat) {pieces : List Text} {t : Text} (h : Spread separator pieces t) :
    Spread separator pieces (List.replicate n separator ++ t) := by
  induction n with
  | zero => exact h
  | succ n ih => exact .gap ih

/-! ## Cutting once -/

/-- The text before has no separator, so the cut is at the first one. -/
theorem splitOnce?_eq_some_iff {t : Text} : ∀ {before after : Text},
    splitOnce? separator t = some (before, after) ↔ t = before ++ separator :: after ∧ separator ∉ before := by
  induction t with
  | nil => simp [splitOnce?]
  | cons c rest ih =>
    intro before after
    by_cases hc : c = separator
    · subst hc
      cases before with
      | nil => simp [splitOnce?]
      | cons d before => simp +contextual [splitOnce?, eq_comm]
    · cases before with
      | nil => simp [splitOnce?, hc]
      | cons d before =>
        simp only [splitOnce?, hc, if_false, Option.map_eq_some_iff, Prod.exists, Prod.mk.injEq, List.cons.injEq]
        constructor
        · rintro ⟨b, a, h, ⟨rfl, rfl⟩, rfl⟩
          obtain ⟨rfl, hb⟩ := ih.mp h
          exact ⟨by simp, by simp [hb, Ne.symm hc]⟩
        · rintro ⟨h, hb⟩
          simp only [List.cons_append, List.cons.injEq] at h
          exact ⟨before, after, ih.mpr ⟨h.2, fun hm => hb (List.mem_cons_of_mem _ hm)⟩, ⟨h.1, rfl⟩, rfl⟩

theorem splitOnce?_of_not_mem {t : Text} (h : separator ∉ t) : splitOnce? separator t = none := by
  refine Option.eq_none_iff_forall_ne_some.mpr fun parts hparts => h ?_
  rw [(splitOnce?_eq_some_iff.mp hparts).1]
  simp

theorem splitOnce?_eq_none_iff {t : Text} : splitOnce? separator t = none ↔ separator ∉ t := by
  constructor
  · intro hnone hm
    obtain ⟨before, after, rfl, hbefore⟩ := List.eq_append_cons_of_mem hm
    rw [splitOnce?_eq_some_iff.mpr ⟨rfl, hbefore⟩] at hnone
    cases hnone
  · exact splitOnce?_of_not_mem

theorem splitLast?_eq_none_iff {t : Text} : splitLast? separator t = none ↔ separator ∉ t := by
  induction t with
  | nil => simp [splitLast?]
  | cons c rest ih =>
    cases hrest : splitLast? separator rest with
    | none => simp [splitLast?, hrest, ih.mp hrest, eq_comm]
    | some parts =>
      have hmem : separator ∈ rest := by
        by_cases hm : separator ∈ rest
        · exact hm
        · simp [ih.mpr hm] at hrest
      simp [splitLast?, hrest, hmem]

/-- The text behind has no separator, so the cut is at the last one. -/
theorem splitLast?_eq_some_iff {t : Text} : ∀ {before after : Text},
    splitLast? separator t = some (before, after) ↔ t = before ++ separator :: after ∧ separator ∉ after := by
  induction t with
  | nil => simp [splitLast?]
  | cons c rest ih =>
    intro before after
    cases before with
    | nil =>
      -- A cut in front is the last one when the rest has none.
      have hcut : splitLast? separator (c :: rest) = some ([], after) ↔
          splitLast? separator rest = none ∧ c = separator ∧ rest = after := by
        cases hrest : splitLast? separator rest with
        | none => simp [splitLast?, hrest]
        | some parts => simp [splitLast?, hrest]
      rw [hcut, splitLast?_eq_none_iff, List.nil_append, List.cons.injEq]
      constructor
      · rintro ⟨hm, hc, rfl⟩
        exact ⟨⟨hc, rfl⟩, hm⟩
      · rintro ⟨⟨hc, rfl⟩, hm⟩
        exact ⟨hm, hc, rfl⟩
    | cons d before =>
      have hcut : splitLast? separator (c :: rest) = some (d :: before, after) ↔
          c = d ∧ splitLast? separator rest = some (before, after) := by
        cases hrest : splitLast? separator rest with
        | none => simp [splitLast?, hrest]
        | some parts => simp [splitLast?, hrest, Prod.ext_iff, and_assoc]
      rw [hcut, ih]
      simp [and_assoc]

end HostTables.Text
