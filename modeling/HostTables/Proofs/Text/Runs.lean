/-
  HostTables.Proofs.Text.Runs — cutting a text loses nothing and invents nothing.

  A text cut at one separator is made of its pieces and runs of the separator. How long the runs are is told in
  numbers (`spaced`): there may be none in front of the first piece and behind the last, but there is one between
  neighbours (`KeptApart`). Exactly the fields of a text are pieces that it is made of (`fields_eq_iff_spaced`).

  Where several characters keep pieces apart, pieces are told by their places: a run has no gap in it and cannot be
  made longer at either end (`MaximalRun`). The runs of a text that has a gap are those in front of it and those
  behind it (`runAt_append_cons`), and there is one list of them in order (`MaximalRuns.unique`). So when a text is cut
  at one gap and the pieces at another, its runs are left (`maximalRuns_flatMap`).

  `splitting_loses_nothing`: this is how lines and tokens are cut, and the process ids of a list of children are the
  runs of it. The words of a text are its runs between blanks (`words_eq_iff`).
-/
import HostTables.Format.ProcessFile
import HostTables.Proofs.Text.Words
import Mathlib.Data.List.Sort

namespace HostTables.Text

/-! ## Pieces and the separators between them -/

section Spaced

variable {separator : Char} {pieces : List Text} {noted : List (Text × Nat)} {t : Text}

/-- The pieces in order, each with as many separators behind it as are noted with it. -/
def followed (separator : Char) (noted : List (Text × Nat)) : Text :=
  noted.flatMap fun (piece, behind) => piece ++ List.replicate behind separator

/-- The same with `lead` separators in front of the first piece. -/
def spaced (separator : Char) (lead : Nat) (noted : List (Text × Nat)) : Text :=
  List.replicate lead separator ++ followed separator noted

/-- No piece is empty or has a separator in it, and each but the last has separators behind it. -/
structure KeptApart (separator : Char) (noted : List (Text × Nat)) : Prop where
  plain : ∀ entry ∈ noted, entry.1 ≠ [] ∧ separator ∉ entry.1
  between : ∀ entry ∈ noted.dropLast, 0 < entry.2

/-- The text is made of these pieces with runs of the separator around them. -/
def Spaced (separator : Char) (pieces : List Text) (t : Text) : Prop :=
  ∃ lead noted, KeptApart separator noted ∧ noted.map Prod.fst = pieces ∧ t = spaced separator lead noted

theorem keptApart_cons {piece : Text} {behind : Nat} : KeptApart separator ((piece, behind) :: noted) ↔
    (piece ≠ [] ∧ separator ∉ piece) ∧ (noted ≠ [] → 0 < behind) ∧ KeptApart separator noted := by
  have hbetween : (∀ entry ∈ ((piece, behind) :: noted).dropLast, 0 < entry.2) ↔
      (noted ≠ [] → 0 < behind) ∧ ∀ entry ∈ noted.dropLast, 0 < entry.2 := by
    cases noted with
    | nil => simp
    | cons next more => simp
  constructor
  · intro h
    obtain ⟨hpiece, hplain⟩ := List.forall_mem_cons.mp h.plain
    obtain ⟨hbehind, hmore⟩ := hbetween.mp h.between
    exact ⟨hpiece, hbehind, hplain, hmore⟩
  · rintro ⟨hpiece, hbehind, hplain, hmore⟩
    exact ⟨List.forall_mem_cons.mpr ⟨hpiece, hplain⟩, hbetween.mpr ⟨hbehind, hmore⟩⟩

theorem spread_followed (h : KeptApart separator noted) :
    Spread separator (noted.map Prod.fst) (followed separator noted) := by
  induction noted with
  | nil => exact .nil
  | cons entry rest ih =>
    obtain ⟨piece, behind⟩ := entry
    obtain ⟨⟨hne, hm⟩, hbehind, hkept⟩ := keptApart_cons.mp h
    cases behind with
    | zero =>
      -- Without a separator behind it the piece is the last one.
      cases rest with
      | nil => simpa [followed] using Spread.last hne hm
      | cons next more => exact absurd (hbehind (List.cons_ne_nil next more)) (Nat.lt_irrefl 0)
    | succ behind =>
      have hrest := spread_replicate behind (ih hkept)
      simpa [followed, List.replicate_succ] using Spread.piece hne hm hrest

theorem spaced_of_spread (h : Spread separator pieces t) : Spaced separator pieces t := by
  induction h with
  | nil => exact ⟨0, [], ⟨nofun, nofun⟩, rfl, rfl⟩
  | gap _ ih =>
    obtain ⟨lead, noted, hkept, rfl, rfl⟩ := ih
    exact ⟨lead + 1, noted, hkept, rfl, rfl⟩
  | @piece p _ _ hne hm _ ih =>
    obtain ⟨lead, noted, hkept, rfl, rfl⟩ := ih
    have hkept' := keptApart_cons.mpr ⟨⟨hne, hm⟩, fun _ => Nat.succ_pos lead, hkept⟩
    exact ⟨0, (p, lead + 1) :: noted, hkept', rfl, by simp [spaced, followed, List.replicate_succ]⟩
  | @last p hne hm => exact ⟨0, [(p, 0)], ⟨by simp [hne, hm], nofun⟩, rfl, by simp [spaced, followed]⟩

/-- A text has no other pieces than its fields. -/
theorem fields_eq_iff_spaced : fields separator t = pieces ↔ Spaced separator pieces t := by
  constructor
  · rintro rfl
    exact spaced_of_spread (spread_fields t)
  · rintro ⟨lead, noted, hkept, rfl, rfl⟩
    exact fields_of_spread (spread_replicate lead (spread_followed hkept))

/-- Cutting gives the pieces that a text is made of, whatever runs of the separator stand around them, and cuts the
    text before a separator and the text behind it apart from each other. -/
structure CutsAt (separator : Char) (cut : Text → List Text) : Prop where
  cut_eq_iff (t : Text) (pieces : List Text) : cut t = pieces ↔ Spaced separator pieces t
  cut_append (a b : Text) : cut (a ++ separator :: b) = cut a ++ cut b
  cut_eq_nil_iff (t : Text) : cut t = [] ↔ ∀ c ∈ t, c = separator

theorem cutsAt_fields (separator : Char) : CutsAt separator (fields separator) :=
  ⟨fun _ _ => fields_eq_iff_spaced, fields_append_cons, fun _ => fields_eq_nil_iff⟩

end Spaced

/-! ## Runs between gaps -/

section Runs

variable {gap : Char → Prop} {c : Char} {a b t front run back : Text} {runs runs' : List Text}

/-- Between `front` and `back` stands a run without gaps, and with either neighbour it would have one. -/
structure MaximalRun (gap : Char → Prop) (front run back : Text) : Prop where
  nonempty : run ≠ []
  solid : ∀ c ∈ run, ¬ gap c
  before : ∀ c ∈ front.getLast?, gap c
  behind : ∀ c ∈ back.head?, gap c

/-- The text has a maximal run at the place. -/
def RunAt (gap : Char → Prop) (t : Text) (place : Nat × Text) : Prop :=
  ∃ front back, MaximalRun gap front place.2 back ∧ t = front ++ place.2 ++ back ∧ front.length = place.1

/-- The same run when the text stands behind `lead` characters. -/
def shifted (lead : Nat) (place : Nat × Text) : Nat × Text := (lead + place.1, place.2)

/-- All maximal runs of the text, in the order of their places. -/
def MaximalRuns (gap : Char → Prop) (t : Text) (runs : List Text) : Prop :=
  ∃ places : List (Nat × Text), places.Pairwise (fun p q => p.1 < q.1) ∧
    (∀ place, place ∈ places ↔ RunAt gap t place) ∧ places.map Prod.snd = runs

theorem MaximalRuns.unique (h : MaximalRuns gap t runs) (h' : MaximalRuns gap t runs') : runs = runs' := by
  obtain ⟨places, hordered, hmem, rfl⟩ := h
  obtain ⟨places', hordered', hmem', rfl⟩ := h'
  have : Std.Irrefl fun p q : Nat × Text => p.1 < q.1 := ⟨fun p => Nat.lt_irrefl p.1⟩
  have : Std.Antisymm fun p q : Nat × Text => p.1 < q.1 := ⟨fun p q hpq hqp => absurd hqp (Nat.lt_asymm hpq)⟩
  rw [hordered.eq_of_mem_iff hordered' fun place => (hmem place).trans (hmem' place).symm]

/-- What a run cannot hold stands behind it or in front of it. -/
theorem cut_beside (h : a ++ c :: b = front ++ run ++ back) (hc : c ∉ run) :
    (∃ more, a = front ++ run ++ more ∧ back = more ++ c :: b) ∨
      ∃ more, front = a ++ c :: more ∧ b = more ++ run ++ back := by
  rcases List.append_eq_append_iff.mp h with ⟨more, hfront, hback⟩ | ⟨more, ha, hback⟩
  · cases more with
    | nil => exact .inl ⟨[], by simpa using hfront.symm, hback.symm⟩
    | cons d more =>
      -- It stands in front of the end of the run, so it must stand in front of its start.
      obtain ⟨rfl, rfl⟩ := List.cons.inj hback
      rcases List.append_eq_append_iff.mp hfront with ⟨start, -, hrun⟩ | ⟨start, ha, hrun⟩
      · exact absurd (by simp [hrun]) hc
      · cases start with
        | nil =>
          rw [List.nil_append] at hrun
          exact absurd (hrun ▸ List.mem_cons_self) hc
        | cons e start =>
          obtain ⟨rfl, rfl⟩ := List.cons.inj hrun
          exact .inr ⟨start, ha, rfl⟩
  · exact .inl ⟨more, ha, hback⟩

/-- A run ends at a gap as it ends at the end of the text. -/
theorem maximalRun_append_cons (hc : gap c) :
    MaximalRun gap front run (back ++ c :: b) ↔ MaximalRun gap front run back := by
  have hbehind : (∀ d ∈ (back ++ c :: b).head?, gap d) ↔ ∀ d ∈ back.head?, gap d := by
    cases back with
    | nil => simp [hc]
    | cons d back => simp
  exact ⟨fun h => ⟨h.nonempty, h.solid, h.before, hbehind.mp h.behind⟩,
    fun h => ⟨h.nonempty, h.solid, h.before, hbehind.mpr h.behind⟩⟩

/-- A run begins behind a gap as it begins at the start of the text. -/
theorem maximalRun_cons_append (hc : gap c) :
    MaximalRun gap (a ++ c :: front) run back ↔ MaximalRun gap front run back := by
  have hbefore : (∀ d ∈ (a ++ c :: front).getLast?, gap d) ↔ ∀ d ∈ front.getLast?, gap d := by
    rw [List.getLast?_append, List.getLast?_cons]
    cases front.getLast? with
    | none => simp [hc]
    | some d => simp
  exact ⟨fun h => ⟨h.nonempty, h.solid, hbefore.mp h.before, h.behind⟩,
    fun h => ⟨h.nonempty, h.solid, hbefore.mpr h.before, h.behind⟩⟩

/-- The runs of a text with a gap are those in front of the gap and, shifted, those behind it. -/
theorem runAt_append_cons (hc : gap c) (a b : Text) {place : Nat × Text} : RunAt gap (a ++ c :: b) place ↔
    RunAt gap a place ∨ ∃ inner, RunAt gap b inner ∧ shifted (a.length + 1) inner = place := by
  constructor
  · rintro ⟨front, back, hrun, hcut, hplace⟩
    rcases cut_beside hcut fun hm => hrun.solid c hm hc with ⟨more, ha, rfl⟩ | ⟨more, rfl, hb⟩
    · exact .inl ⟨front, more, (maximalRun_append_cons hc).mp hrun, ha, hplace⟩
    · have hinner : RunAt gap b (more.length, place.2) :=
        ⟨more, back, (maximalRun_cons_append hc).mp hrun, hb, rfl⟩
      refine .inr ⟨_, hinner, Prod.ext ?_ rfl⟩
      rw [← hplace, shifted, List.length_append, List.length_cons]
      omega
  · rintro (⟨front, back, hrun, rfl, hplace⟩ | ⟨inner, ⟨front, back, hrun, rfl, hinner⟩, rfl⟩)
    · exact ⟨front, back ++ c :: b, (maximalRun_append_cons hc).mpr hrun, by simp, hplace⟩
    · refine ⟨a ++ c :: front, back, (maximalRun_cons_append hc).mpr hrun, by simp [shifted], ?_⟩
      rw [shifted, ← hinner, List.length_append, List.length_cons]
      omega

theorem RunAt.place_le {place : Nat × Text} (h : RunAt gap t place) : place.1 ≤ t.length := by
  obtain ⟨front, back, -, rfl, hplace⟩ := h
  rw [← hplace, List.append_assoc, List.length_append]
  exact Nat.le_add_right _ _

theorem maximalRuns_nil : MaximalRuns gap [] [] := by
  refine ⟨[], .nil, fun place => ⟨nofun, ?_⟩, rfl⟩
  rintro ⟨front, back, hrun, hcut, -⟩
  obtain ⟨hfront, -⟩ := List.append_eq_nil_iff.mp hcut.symm
  exact absurd (List.append_eq_nil_iff.mp hfront).2 hrun.nonempty

/-- A text without gaps is a run, and it has no other. -/
theorem maximalRuns_of_solid (h : ∀ c ∈ t, ¬ gap c) (hne : t ≠ []) : MaximalRuns gap t [t] := by
  refine ⟨[(0, t)], List.pairwise_singleton _ _, fun place => ?_, rfl⟩
  rw [List.mem_singleton]
  constructor
  · rintro rfl
    exact ⟨[], [], ⟨hne, h, nofun, nofun⟩, (List.append_nil t).symm, rfl⟩
  · rintro ⟨front, back, hrun, hcut, hplace⟩
    -- A neighbour of the run would be a gap of the text.
    have hfront : front = [] := by
      refine List.getLast?_eq_none_iff.mp (Option.eq_none_iff_forall_ne_some.mpr fun c hc => ?_)
      exact h c (by simp [hcut, List.mem_of_getLast? hc]) (hrun.before c hc)
    have hback : back = [] := by
      refine List.head?_eq_none_iff.mp (Option.eq_none_iff_forall_ne_some.mpr fun c hc => ?_)
      exact h c (by simp [hcut, List.mem_of_head? hc]) (hrun.behind c hc)
    rw [hfront, hback, List.nil_append, List.append_nil] at hcut
    rw [hfront] at hplace
    exact Prod.ext hplace.symm hcut.symm

theorem MaximalRuns.append (hc : gap c) (ha : MaximalRuns gap a runs) (hb : MaximalRuns gap b runs') :
    MaximalRuns gap (a ++ c :: b) (runs ++ runs') := by
  obtain ⟨places, hordered, hmem, rfl⟩ := ha
  obtain ⟨places', hordered', hmem', rfl⟩ := hb
  refine ⟨places ++ places'.map (shifted (a.length + 1)), List.pairwise_append.mpr ⟨hordered, ?_, ?_⟩,
    fun place => ?_, ?_⟩
  · exact List.pairwise_map.mpr (hordered'.imp fun h => Nat.add_lt_add_left h _)
  · intro place hplace other hother
    obtain ⟨inner, -, rfl⟩ := List.mem_map.mp hother
    have hle : place.1 ≤ a.length := ((hmem place).mp hplace).place_le
    show place.1 < a.length + 1 + inner.1
    omega
  · simp only [runAt_append_cons hc, List.mem_append, List.mem_map, hmem, hmem']
  · simp [shifted, Function.comp_def]

/-- When pieces are kept apart by a gap, the runs of the text are those of the pieces. -/
theorem maximalRuns_flatMap {separator : Char} {pieces : List Text} (hgap : gap separator)
    (h : Spread separator pieces t) {cut : Text → List Text} (hcut : ∀ p ∈ pieces, MaximalRuns gap p (cut p)) :
    MaximalRuns gap t (pieces.flatMap cut) := by
  induction h with
  | nil => exact maximalRuns_nil
  | gap _ ih => exact maximalRuns_nil.append hgap (ih hcut)
  | piece _ _ _ ih =>
    obtain ⟨hpiece, hrest⟩ := List.forall_mem_cons.mp hcut
    rw [List.flatMap_cons]
    exact hpiece.append hgap (ih hrest)
  | last =>
    rw [List.flatMap_singleton]
    exact hcut _ List.mem_cons_self

/-- Where no other gaps are than the separator, the fields are the runs. -/
theorem maximalRuns_fields {separator : Char} (hgap : gap separator) (honly : ∀ c ∈ t, gap c → c = separator) :
    MaximalRuns gap t (fields separator t) := by
  have hspread : Spread separator (fields separator t) t := spread_fields t
  rw [← List.flatMap_singleton' (fields separator t)]
  refine maximalRuns_flatMap hgap hspread fun p hp => ?_
  obtain ⟨hne, hm, hsub⟩ := piece_of_spread hspread p hp
  refine maximalRuns_of_solid (fun c hc hcgap => hm ?_) hne
  rwa [← honly c (hsub hc) hcgap]

end Runs

/-! ## Words -/

theorem maximalRuns_words (t : Text) : MaximalRuns (fun c => isBlank c = true) t (words t) := by
  induction hlength : t.length using Nat.strong_induction_on generalizing t with
  | _ n ih =>
    subst hlength
    by_cases hsolid : t.Solid
    · by_cases hnil : t = []
      · rw [hnil]
        exact maximalRuns_nil
      · rw [words_of_solid hsolid hnil]
        exact maximalRuns_of_solid (fun c hc => by simp [hsolid c hc]) hnil
    · -- Any blank will do, since words and runs are both cut there.
      obtain ⟨c, hm, hc⟩ : ∃ c ∈ t, isBlank c = true := by simpa [Solid] using hsolid
      obtain ⟨a, b, rfl⟩ := List.append_of_mem hm
      have ha : a.length < (a ++ c :: b).length := by simp
      have hb : b.length < (a ++ c :: b).length := by
        rw [List.length_append, List.length_cons]
        omega
      rw [words_append_blank hc]
      exact (ih a.length ha a rfl).append hc (ih b.length hb b rfl)

/-- The words of a text are its maximal runs of characters that are not blank, in order. -/
theorem words_eq_iff {t : Text} {pieces : List Text} :
    words t = pieces ↔ MaximalRuns (fun c => isBlank c = true) t pieces := by
  constructor
  · rintro rfl
    exact maximalRuns_words t
  · exact (maximalRuns_words t).unique

/-! ## Files -/

/-- The lines of a list of children are runs between line feeds, and their tokens runs between spaces. -/
theorem maximalRuns_children (content : Text) :
    MaximalRuns (fun c => c = ' ' ∨ c = '\n') content (Format.ProcessFile.children content) := by
  have hlines : Spread '\n' (lines content) content := spread_fields content
  refine maximalRuns_flatMap (.inr rfl) hlines fun line hline => ?_
  obtain ⟨-, hfeed, -⟩ := piece_of_spread hlines line hline
  refine maximalRuns_fields (.inl rfl) fun c hc hgap => hgap.resolve_right ?_
  rintro rfl
  exact hfeed hc

/-- Exactly the tokens of a line are the pieces that it is made of with runs of spaces, exactly the lines of a file
    those that it is made of with runs of line feeds, and exactly the process ids of a list of children, in order,
    its maximal runs of characters that are neither. -/
theorem splitting_loses_nothing :
    CutsAt ' ' tokens ∧ CutsAt '\n' lines ∧
    ∀ content pids, Format.ProcessFile.children content = pids ↔
      MaximalRuns (fun c => c = ' ' ∨ c = '\n') content pids := by
  refine ⟨cutsAt_fields ' ', cutsAt_fields '\n', fun content pids => ⟨?_, (maximalRuns_children content).unique⟩⟩
  rintro rfl
  exact maximalRuns_children content

example : Format.ProcessFile.children " 17  4\n\n\n9 \n 17".toList =
    ["17".toList, "4".toList, "9".toList, "17".toList] := by decide

end HostTables.Text
