/-
  HostTables.Proofs.Text.Words — a text cut at blanks.

  Words distribute over a blank (`words_append_blank`), and a text without blanks is one word, or none if
  it is empty (`words_of_solid`). So texts without blanks that are joined with spaces are words again,
  whatever stands behind them (`words_joined_append`). No word has a blank (`solid_of_mem_words`).
  From a text without blanks none are trimmed (`trim_of_solid`), and those around it are (`trim_eq_iff`). What
  trimming leaves has no blank at either end, and what it drops are blanks (`trim_eq_iff_tight`). When texts
  are cut at one kind of blank, the blanks behind the last piece can be dropped first
  (`fields_rdropWhile_of_spread`), and what then ends without a blank has a last piece that does
  (`ended_of_spread`).
-/
import HostTables.Proofs.Text.Fields
import HostTables.Text.Blank
import Mathlib.Data.List.DropRight
import Mathlib.Data.List.Induction
import Mathlib.Data.List.TakeWhile

namespace HostTables.Text

/-- No character of the text is blank. -/
def Solid (t : Text) : Prop := ∀ c ∈ t, isBlank c = false

instance (t : Text) : Decidable t.Solid := List.decidableBAll _ t

/-! ## Characters -/

/-- What holds of the first characters one by one holds of ASCII. -/
theorem forall_ascii {P : Char → Prop} (h : ∀ n < 128, P (Char.ofNat n)) {c : Char} (hc : c.toNat < 128) : P c := by
  have hcode := h c.toNat hc
  rwa [Char.ofNat_toNat] at hcode

theorem toLower_of_not_upper {c : Char} (h : ¬ ('A'.toNat ≤ c.toNat ∧ c.toNat ≤ 'Z'.toNat)) : c.toLower = c := by
  unfold Char.toLower
  exact dif_neg h

theorem isBlank_space : isBlank ' ' = true := rfl

theorem isBlank_of_isDigit {c : Char} (h : c.isDigit = true) : isBlank c = false := by
  have hrange := Char.isDigit_iff_toNat.mp h
  have hzero : '0'.toNat = 48 := rfl
  have hnine : '9'.toNat = 57 := rfl
  simp only [isBlank, blankRanges, List.any_cons, List.any_nil, Bool.or_false, Bool.or_eq_false_iff,
    Bool.and_eq_false_iff, decide_eq_false_iff_not]
  omega

/-! ## Words -/

theorem words_append_blank {c : Char} (hc : isBlank c = true) (a b : Text) :
    words (a ++ c :: b) = words a ++ words b := by
  simp only [words, List.splitOnP_append_cons a b hc, List.filter_append]

theorem words_of_solid {t : Text} (h : t.Solid) (hne : t ≠ []) : words t = [t] := by
  simp [words, List.splitOnP_eq_singleton h, hne]

theorem solid_of_mem_words {t word : Text} (h : word ∈ words t) : word.Solid :=
  not_of_mem_splitOnP (List.mem_filter.mp h).1

/-! ## Ends -/

/-- A blank at the end is dropped with those before it. -/
theorem trim_append_blank {c : Char} (hc : isBlank c = true) (t : Text) : trim (t ++ [c]) = trim t := by
  by_cases hnil : t.dropWhile isBlank = []
  · simp [trim, List.dropWhile_append, hnil, hc]
  · simp [trim, List.dropWhile_append, hnil, hc]

/-- The value is the text with blanks around it, and nothing else. -/
def Padded (t value : Text) : Prop :=
  ∃ left right : Text, value = left ++ t ++ right ∧ ∀ c ∈ left ++ right, isBlank c = true

theorem padded_self (t : Text) : Padded t t :=
  ⟨[], [], (List.append_nil t).symm, fun _ hc => absurd hc List.not_mem_nil⟩

theorem Padded.mem_iff {t value : Text} (h : Padded t value) {c : Char} (hc : isBlank c = false) :
    c ∈ value ↔ c ∈ t := by
  obtain ⟨left, right, rfl, hblank⟩ := h
  have hnot : ∀ blanks : Text, (∀ d ∈ blanks, isBlank d = true) → c ∉ blanks := by
    intro blanks hblanks hm
    rw [hblanks c hm] at hc
    cases hc
  obtain ⟨hleft, hright⟩ := List.forall_mem_append.mp hblank
  simp [hnot left hleft, hnot right hright]

/-- A value that does not begin with a blank has blanks at its end only. -/
theorem Padded.of_head? {t value : Text} (h : Padded t value) (hfront : ∀ c ∈ value.head?, isBlank c = false) :
    ∃ right : Text, value = t ++ right ∧ ∀ c ∈ right, isBlank c = true := by
  obtain ⟨left, right, rfl, hblank⟩ := h
  cases left with
  | nil => exact ⟨right, rfl, hblank⟩
  | cons c left =>
    have hsolid := hfront c rfl
    rw [hblank c List.mem_cons_self] at hsolid
    cases hsolid

/-- The text does not end with a blank. -/
def Ended (t : Text) : Prop := ∀ c ∈ t.getLast?, isBlank c = false

/-- The text neither begins nor ends with a blank. -/
def Tight (t : Text) : Prop := (∀ c ∈ t.head?, isBlank c = false) ∧ t.Ended

instance (t : Text) : Decidable t.Ended := Option.decidableForallMem t.getLast?

instance (t : Text) : Decidable t.Tight :=
  @instDecidableAnd _ t.Ended (Option.decidableForallMem t.head?) inferInstance

theorem ended_of_solid {t : Text} (h : t.Solid) : t.Ended := fun c hc => h c (List.mem_of_getLast? hc)

theorem tight_of_solid {t : Text} (h : t.Solid) : t.Tight :=
  ⟨fun c hc => h c (List.mem_of_head? hc), ended_of_solid h⟩

theorem Ended.of_append {a b : Text} (h : Ended (a ++ b)) : b.Ended := by
  intro c hc
  refine h c ?_
  rw [List.getLast?_append, Option.mem_def.mp hc]
  rfl

theorem trim_eq (t : Text) : trim t = (t.dropWhile isBlank).rdropWhile isBlank := rfl

theorem trim_subset (t : Text) : trim t ⊆ t := by
  intro c hc
  exact (List.dropWhile_sublist _).subset ((List.rdropWhile_prefix _ _).subset hc)

theorem rdropWhile_of_ended {t : Text} (h : t.Ended) : t.rdropWhile isBlank = t := by
  rw [List.rdropWhile_eq_self_iff]
  intro hne
  simpa using h _ (List.getLast?_eq_some_getLast hne)

theorem ended_rdropWhile (t : Text) : Ended (t.rdropWhile isBlank) := by
  intro c hc
  have hne : t.rdropWhile isBlank ≠ [] := List.ne_nil_of_mem (List.mem_of_getLast? hc)
  rw [List.getLast?_eq_some_getLast hne] at hc
  obtain rfl := Option.mem_some.mp hc
  simpa using List.rdropWhile_last_not isBlank t hne

/-- What stands behind decides whether blanks in front of it are dropped at the end. -/
theorem rdropWhile_append (a b : Text) : (a ++ b).rdropWhile isBlank =
    if b.rdropWhile isBlank = [] then a.rdropWhile isBlank else a ++ b.rdropWhile isBlank := by
  simp only [List.rdropWhile, List.reverse_append, List.dropWhile_append, List.reverse_eq_nil_iff,
    List.isEmpty_iff]
  split
  · rfl
  · rw [List.reverse_append, List.reverse_reverse]

theorem rdropWhile_append_blanks {right : Text} (h : ∀ c ∈ right, isBlank c = true) (t : Text) :
    (t ++ right).rdropWhile isBlank = t.rdropWhile isBlank := by
  rw [rdropWhile_append, if_pos (List.rdropWhile_eq_nil_iff.mpr h)]

theorem rdropWhile_cons (c : Char) (t : Text) : (c :: t).rdropWhile isBlank =
    if t.rdropWhile isBlank = [] ∧ isBlank c = true then [] else c :: t.rdropWhile isBlank := by
  rw [← List.singleton_append, rdropWhile_append, List.rdropWhile_singleton]
  by_cases hnil : t.rdropWhile isBlank = []
  · simp [hnil]
  · simp [hnil]

/-- Trimming leaves what neither begins nor ends with a blank, and drops blanks only. -/
theorem trim_eq_iff_tight {t u : Text} : trim t = u ↔ u.Tight ∧ Padded u t := by
  constructor
  · rintro rfl
    have hfront : t.takeWhile isBlank ++ t.dropWhile isBlank = t := List.takeWhile_append_dropWhile
    have hback : trim t ++ (t.dropWhile isBlank).rtakeWhile isBlank = t.dropWhile isBlank :=
      List.rdropWhile_append_rtakeWhile ..
    refine ⟨⟨fun c hc => ?_, ended_rdropWhile _⟩, t.takeWhile isBlank,
      (t.dropWhile isBlank).rtakeWhile isBlank, ?_, ?_⟩
    · have hhead : (t.dropWhile isBlank).head? = some c := by
        rw [← hback, List.head?_append, Option.mem_def.mp hc, Option.some_or]
      simpa [hhead] using List.head?_dropWhile_not isBlank t
    · rw [List.append_assoc, hback, hfront]
    · intro c hc
      rcases List.mem_append.mp hc with hc | hc
      · exact List.mem_takeWhile_imp hc
      · exact List.mem_rtakeWhile_imp hc
  · rintro ⟨⟨hhead, hended⟩, left, right, rfl, hblank⟩
    obtain ⟨hleft, hright⟩ := List.forall_mem_append.mp hblank
    rw [trim_eq, List.append_assoc, List.dropWhile_append_of_pos hleft]
    cases u with
    | nil => rw [List.nil_append, List.dropWhile_eq_nil_iff.mpr hright, List.rdropWhile_nil]
    | cons c u =>
      have hkeep : (c :: u ++ right).dropWhile isBlank = c :: u ++ right := by simp [hhead c rfl]
      rw [hkeep, rdropWhile_append_blanks hright, rdropWhile_of_ended hended]

/-- There is nothing to drop at the ends. -/
theorem trim_of_tight {t : Text} (h : t.Tight) : trim t = t := trim_eq_iff_tight.mpr ⟨h, padded_self t⟩

theorem trim_of_solid {t : Text} (h : t.Solid) : trim t = t := trim_of_tight (tight_of_solid h)

/-- The two ends of a text decide. -/
theorem tight_append {a b between : Text} (ha : a ≠ []) (hb : b ≠ []) (hfront : ∀ c ∈ a.head?, isBlank c = false)
    (hback : b.Ended) : Tight (a ++ between ++ b) := by
  constructor
  · rwa [List.append_assoc, List.head?_append_of_ne_nil a ha]
  · unfold Ended
    rwa [List.getLast?_append_of_ne_nil _ hb]

/-- A text without blanks is what is left of a text exactly when there are blanks around it, and nothing else. -/
theorem trim_eq_iff {t solid : Text} (h : solid.Solid) : trim t = solid ↔
    ∃ left right : Text, t = left ++ solid ++ right ∧ ∀ c ∈ left ++ right, isBlank c = true := by
  rw [trim_eq_iff_tight, and_iff_right (tight_of_solid h)]
  rfl

theorem trim_dropWhile (t : Text) : trim (t.dropWhile isBlank) = trim t := by
  rw [trim_eq, trim_eq, List.dropWhile_idempotent]

/-- A character that is not blank stays; what stands in front of it is trimmed at the left, what stands behind
    it at the right. -/
theorem trim_append_cons {c : Char} (hc : isBlank c = false) (a b : Text) :
    trim (a ++ c :: b) = a.dropWhile isBlank ++ c :: b.rdropWhile isBlank := by
  have hfront : (a ++ c :: b).dropWhile isBlank = a.dropWhile isBlank ++ c :: b := by
    by_cases hnil : a.dropWhile isBlank = []
    · simp [List.dropWhile_append, hnil, hc]
    · simp [List.dropWhile_append, hnil]
  have hback : (c :: b).rdropWhile isBlank = c :: b.rdropWhile isBlank := by simp [rdropWhile_cons, hc]
  rw [trim_eq, hfront, rdropWhile_append, hback, if_neg (List.cons_ne_nil _ _)]

/-! ## Pieces and blanks behind them -/

section Pieces

variable {separator : Char} {pieces : List Text} {t : Text}

/-- Blanks behind the last piece can be dropped, unless it ends with a blank itself. -/
theorem fields_rdropWhile_of_spread (hblank : isBlank separator = true) (h : Spread separator pieces t)
    (hlast : ∀ p ∈ pieces.getLast?, p.Ended) : fields separator (t.rdropWhile isBlank) = pieces := by
  have hgap : ∀ u : Text,
      fields separator ((separator :: u).rdropWhile isBlank) = fields separator (u.rdropWhile isBlank) := by
    intro u
    rw [rdropWhile_cons]
    by_cases hnil : u.rdropWhile isBlank = []
    · simp [hnil, hblank]
    · simp [hnil, fields_cons]
  induction h with
  | nil => exact fields_nil
  | gap _ ih => rw [hgap, ih hlast]
  | @piece p pieces t hne hm _ ih =>
    have hmore : ∀ q ∈ pieces.getLast?, q.Ended := by
      intro q hq
      refine hlast q ?_
      rw [List.getLast?_cons, Option.mem_def.mp hq]
      rfl
    have hpieces := ih hmore
    rw [rdropWhile_append]
    split
    · -- Nothing but blanks stands behind the piece, so it is the last one.
      rename_i hnil
      rw [← hgap, hnil, fields_nil] at hpieces
      rw [rdropWhile_of_ended (hlast p (by rw [← hpieces]; rfl)), fields_of_not_mem hm hne, ← hpieces]
    · rename_i hkeep
      have hcut : (separator :: t).rdropWhile isBlank = separator :: t.rdropWhile isBlank := by
        rw [rdropWhile_cons] at hkeep ⊢
        split
        · rename_i hnil
          exact absurd (if_pos hnil) hkeep
        · rfl
      rw [hcut, fields_append_cons, fields_of_not_mem hm hne, hpieces, List.singleton_append]
  | @last p hne hm =>
    have hp : p.Ended := hlast p rfl
    rw [rdropWhile_of_ended hp, fields_of_not_mem hm hne]

/-- When the text does not end with a blank, neither does its last piece. -/
theorem ended_of_spread (hblank : isBlank separator = true) (h : Spread separator pieces t) (ht : t.Ended) :
    ∀ p ∈ pieces.getLast?, p.Ended := by
  induction h with
  | nil => nofun
  | gap _ ih => exact ih (Ended.of_append (a := [separator]) ht)
  | @piece p pieces t hne hm hspread ih =>
    have hbehind : Ended (separator :: t) := ht.of_append
    cases pieces with
    | nil =>
      have hgaps : ∀ c ∈ separator :: t, c = separator :=
        List.forall_mem_cons.mpr ⟨rfl, fields_eq_nil_iff.mp (fields_of_spread hspread)⟩
      have hend := List.getLast?_eq_some_getLast (List.cons_ne_nil separator t)
      have hsolid := hbehind _ hend
      rw [hgaps _ (List.getLast_mem _), hblank] at hsolid
      cases hsolid
    | cons next rest => exact ih (Ended.of_append (a := [separator]) hbehind)
  | @last p =>
    intro q hq
    cases hq
    exact ht

end Pieces

/-! ## Joining -/

/-- Joined with spaces, texts without blanks stay the words they are, whatever is joined behind them. -/
theorem words_joined_append {solid : List Text} (h : ∀ t ∈ solid, t ≠ [] ∧ t.Solid) (more : List Text) :
    words (joined [' '] (solid ++ more)) = solid ++ words (joined [' '] more) := by
  induction solid with
  | nil => rfl
  | cons t rest ih =>
    obtain ⟨⟨hne, ht⟩, hrest⟩ := List.forall_mem_cons.mp h
    by_cases hnil : rest ++ more = []
    · obtain ⟨rfl, rfl⟩ := List.append_eq_nil_iff.mp hnil
      rw [List.append_nil, joined_singleton, words_of_solid ht hne]
      rfl
    · rw [List.cons_append, joined_cons t hnil, words_append_blank isBlank_space, words_of_solid ht hne, ih hrest]
      rfl

theorem words_joined {solid : List Text} (h : ∀ t ∈ solid, t ≠ [] ∧ t.Solid) : words (joined [' '] solid) = solid := by
  have hwords := words_joined_append h []
  rw [List.append_nil] at hwords
  rw [hwords, show words (joined [' '] []) = [] from rfl, List.append_nil]

end HostTables.Text
