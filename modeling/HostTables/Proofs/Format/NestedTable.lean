/-
  HostTables.Proofs.Format.NestedTable — what the nested keyed format answers, in every case.

  Behind its group a line has pairs (`IsPair`); a line with a group and with nothing but pairs behind it is
  sound (`Sound`). A file is read when all its lines are sound and equally wide (`Even`); the rows are
  then the pairs of each line, one line behind the other (`flatMap_getElem?_of_length`). Otherwise one
  fault of the first line that has one is reported (`LineFault`), and of a line with bad pairs the first
  of these (`FirstBadPair`). The first line is read twice, which is the same as reading every line
  once with its width (`nestedRows_eq`). `nested_rows_exactly` has every answer.
-/
import HostTables.Format
import HostTables.Proofs.Outcome
import HostTables.Proofs.Text.Fields
import Mathlib.Tactic.MkIffOfInductiveProp

namespace HostTables.Format

namespace NestedLine

/-! ## Pairs -/

/-- The token is a subkey and a value, both not empty, and the first `=` stands between them. -/
def IsPair (token : Text) (parts : Text × Text) : Prop :=
  token = parts.1 ++ '=' :: parts.2 ∧ '=' ∉ parts.1 ∧ parts.1 ≠ [] ∧ parts.2 ≠ []

variable {n width : Nat} {token line : Text} {tokens : List Text} {e : ParseError} {nested : NestedLine}

theorem pair_eq_ok_iff {parts : Text × Text} : pair n token = .ok parts ↔ IsPair token parts := by
  obtain ⟨subkey, value⟩ := parts
  have hcut : IsPair token (subkey, value) ↔
      Text.splitOnce? '=' token = some (subkey, value) ∧ subkey ≠ [] ∧ value ≠ [] := by
    rw [Text.splitOnce?_eq_some_iff, and_assoc]
    rfl
  rw [hcut, pair]
  cases Text.splitOnce? '=' token with
  | none => simp
  | some cut =>
    obtain ⟨key, rest⟩ := cut
    dsimp only
    rw [Option.some.injEq, Prod.mk.injEq]
    by_cases hempty : key = [] ∨ rest = []
    · rw [if_pos hempty]
      constructor
      · intro impossible
        cases impossible
      · intro h
        obtain ⟨⟨rfl, rfl⟩, hparts⟩ := h
        exact absurd hempty (not_or.mpr hparts)
    · rw [if_neg hempty, Except.ok.injEq, Prod.mk.injEq]
      constructor
      · intro h
        obtain ⟨rfl, rfl⟩ := h
        exact ⟨⟨rfl, rfl⟩, not_or.mp hempty⟩
      · exact And.left

theorem pair_eq_error_iff : pair n token = .error e ↔ (∀ parts, ¬ IsPair token parts) ∧ e = .malformedPair n token := by
  simp only [← pair_eq_ok_iff (n := n)]
  unfold pair
  split
  · split
    · simp [eq_comm]
    · simp
  · simp [eq_comm]

instance (token : Text) : Decidable (∃ parts, IsPair token parts) :=
  decidable_of_iff ((pair 0 token).isOk = true) <| by
    simp only [← pair_eq_ok_iff (n := 0)]
    cases pair 0 token <;> simp [Except.isOk, Except.toBool]

theorem pairsOf_eq_eachNumbered (n first : Nat) (tokens : List Text) :
    pairsOf n tokens = eachNumbered (fun _ token => pair n token) first tokens := by
  induction tokens generalizing first with
  | nil => rfl
  | cons token rest ih => rw [pairsOf, eachNumbered_cons, ← ih]

theorem pairsOf_eq_ok_iff {pairs : List (Text × Text)} : pairsOf n tokens = .ok pairs ↔
    pairs.length = tokens.length ∧
      ∀ (j : Nat) (token : Text), tokens[j]? = some token → ∃ parts, pairs[j]? = some parts ∧ IsPair token parts := by
  simp only [pairsOf_eq_eachNumbered n 0, eachNumbered_eq_ok_iff_at, pair_eq_ok_iff]

/-- The token is the first that is no pair. -/
def FirstBadPair (tokens : List Text) (token : Text) : Prop :=
  ∃ j : Nat, tokens[j]? = some token ∧ (∀ parts, ¬ IsPair token parts) ∧
    ∀ k < j, ∀ earlier : Text, tokens[k]? = some earlier → ∃ parts, IsPair earlier parts

theorem pairsOf_eq_error_iff :
    pairsOf n tokens = .error e ↔ ∃ token, FirstBadPair tokens token ∧ e = .malformedPair n token := by
  simp only [pairsOf_eq_eachNumbered n 0, eachNumbered_eq_error_iff_at, pair_eq_ok_iff, pair_eq_error_iff]
  constructor
  · intro h
    obtain ⟨j, token, htoken, ⟨hbad, he⟩, hbefore⟩ := h
    exact ⟨token, ⟨j, htoken, hbad, hbefore⟩, he⟩
  · intro h
    obtain ⟨token, ⟨j, htoken, hbad, hbefore⟩, he⟩ := h
    exact ⟨j, token, htoken, ⟨hbad, he⟩, hbefore⟩

/-! ## Lines -/

/-- The line has a group, and every token behind it is a pair. -/
def Sound (line : Text) : Prop :=
  Text.tokens line ≠ [] ∧ ∀ token ∈ (Text.tokens line).tail, ∃ parts, IsPair token parts

instance (line : Text) : Decidable (Sound line) := inferInstanceAs (Decidable (_ ∧ _))

/-- What is read from the line: its first token, and the pairs that the others are. -/
@[mk_iff]
structure Reads (line : Text) (nested : NestedLine) : Prop where
  group : (Text.tokens line)[0]? = some nested.group
  width : nested.fieldCount = (Text.tokens line).length
  pairs : ∀ (j : Nat) (token : Text), (Text.tokens line)[j + 1]? = some token →
    ∃ parts, nested.pairs[j]? = some parts ∧ IsPair token parts

/-- What is reported of line `n` of a file whose first line has `width` tokens. The width of the line
    is looked at when nothing else is wrong with it. -/
inductive LineFault (width n : Nat) (line : Text) : ParseError → Prop
  | blank : (∀ c ∈ line, c = ' ') → LineFault width n line (.tokenCount n (.atLeast 1) 0)
  | pair {token : Text} : FirstBadPair (Text.tokens line).tail token → LineFault width n line (.malformedPair n token)
  | uneven : Sound line → (Text.tokens line).length ≠ width →
      LineFault width n line (.unevenGroup n width (Text.tokens line).length)

theorem ofText_eq_ok_iff : ofText n line = .ok nested ↔ Reads line nested := by
  obtain ⟨group, pairs⟩ := nested
  rw [reads_iff]
  unfold ofText fieldCount
  cases Text.tokens line with
  | nil => simp
  | cons first tokens =>
    show (NestedLine.mk first <$> pairsOf n tokens) = _ ↔ _
    simp only [map_eq_ok, pairsOf_eq_ok_iff, mk.injEq, List.getElem?_cons_zero, List.getElem?_cons_succ,
      List.length_cons, Option.some.injEq, Nat.add_right_cancel_iff]
    constructor
    · intro h
      obtain ⟨_, hpairs, hgroup, rfl⟩ := h
      exact ⟨hgroup, hpairs⟩
    · intro h
      exact ⟨pairs, h.2, h.1, rfl⟩

theorem ofText_eq_error_iff : ofText n line = .error e ↔
    ((∀ c ∈ line, c = ' ') ∧ e = .tokenCount n (.atLeast 1) 0) ∨
    ∃ token, FirstBadPair (Text.tokens line).tail token ∧ e = .malformedPair n token := by
  rw [← Text.fields_eq_nil_iff, ← Text.tokens]
  unfold ofText
  cases Text.tokens line with
  | nil => simp [FirstBadPair, eq_comm]
  | cons first tokens => simp [map_eq_error, pairsOf_eq_error_iff]

theorem sound_iff : Sound line ↔ ∃ nested, Reads line nested := by
  constructor
  · intro h
    obtain ⟨hne, hpairs⟩ := h
    cases hread : ofText 1 line with
    | ok nested => exact ⟨nested, ofText_eq_ok_iff.mp hread⟩
    | error e =>
      rcases ofText_eq_error_iff.mp hread with ⟨hblank, -⟩ | ⟨token, ⟨j, htoken, hbad, -⟩, -⟩
      · exact absurd (Text.fields_eq_nil_iff.mpr hblank) hne
      · obtain ⟨parts, hparts⟩ := hpairs token (List.mem_of_getElem? htoken)
        exact absurd hparts (hbad parts)
  · intro h
    obtain ⟨nested, hgroup, -, hread⟩ := h
    refine ⟨fun hnil => by simp [hnil] at hgroup, fun token htoken => ?_⟩
    obtain ⟨j, htoken⟩ := List.mem_iff_getElem?.mp htoken
    rw [List.getElem?_tail] at htoken
    obtain ⟨parts, -, hparts⟩ := hread j token htoken
    exact ⟨parts, hparts⟩

theorem ofTextWith_eq_ok_iff :
    ofTextWith width n line = .ok nested ↔ Reads line nested ∧ (Text.tokens line).length = width := by
  simp only [ofTextWith, bind_eq_ok, ofText_eq_ok_iff]
  constructor
  · intro h
    obtain ⟨read, hread, h⟩ := h
    split at h
    · rename_i hwidth
      cases h
      exact ⟨hread, hread.width ▸ hwidth⟩
    · cases h
  · intro h
    obtain ⟨hread, hwidth⟩ := h
    exact ⟨nested, hread, if_pos (hread.width.trans hwidth)⟩

theorem ofTextWith_eq_error_iff : ofTextWith width n line = .error e ↔ LineFault width n line e := by
  simp only [ofTextWith, bind_eq_error, ofText_eq_error_iff, ofText_eq_ok_iff]
  constructor
  · intro h
    rcases h with (⟨hblank, rfl⟩ | ⟨token, hbad, rfl⟩) | ⟨nested, hread, h⟩
    · exact .blank hblank
    · exact .pair hbad
    · split at h
      · cases h
      · rename_i hwidth
        cases h
        rw [hread.width] at hwidth ⊢
        exact .uneven (sound_iff.mpr ⟨nested, hread⟩) hwidth
  · intro h
    cases h with
    | blank hblank => exact Or.inl (Or.inl ⟨hblank, rfl⟩)
    | pair hbad => exact Or.inl (Or.inr ⟨_, hbad, rfl⟩)
    | uneven hsound hwidth =>
      obtain ⟨nested, hread⟩ := sound_iff.mp hsound
      rw [← hread.width] at hwidth ⊢
      exact Or.inr ⟨nested, hread, if_neg hwidth⟩

/-- A line is read when it is sound and as wide as it has to be. -/
theorem exists_read_iff :
    (∃ nested, ofTextWith width n line = .ok nested) ↔ Sound line ∧ (Text.tokens line).length = width := by
  simp only [ofTextWith_eq_ok_iff, exists_and_right, sound_iff]

/-- A row for each token behind the group. -/
theorem Reads.length_rows (h : Reads line nested) : nested.rows.length = (Text.tokens line).length - 1 := by
  rw [← h.width, fieldCount, rows, List.length_map, Nat.add_sub_cancel]

theorem Reads.getElem?_rows (h : Reads line nested) {j : Nat} {token : Text}
    (htoken : (Text.tokens line)[j + 1]? = some token) :
    ∃ subkey value, IsPair token (subkey, value) ∧
      nested.rows[j]? = some [.token nested.group, .token subkey, .token value] := by
  obtain ⟨⟨subkey, value⟩, hparts, hpair⟩ := h.pairs j token htoken
  exact ⟨subkey, value, hpair, by simp [rows, tokenRow, hparts]⟩

end NestedLine

/-! ## Files -/

section Even

variable {α β : Type} {f : α → List β} {width : Nat} {items : List α}

theorem flatMap_length_of_length (h : ∀ a ∈ items, (f a).length = width) :
    (items.flatMap f).length = items.length * width := by
  induction items with
  | nil => simp
  | cons a rest ih =>
    obtain ⟨ha, hrest⟩ := List.forall_mem_cons.mp h
    rw [List.flatMap_cons, List.length_append, ha, ih hrest, List.length_cons, Nat.succ_mul, Nat.add_comm]

/-- When every item gives as many, what item `i` gives stands behind `i` times as many. -/
theorem flatMap_getElem?_of_length (h : ∀ a ∈ items, (f a).length = width) :
    ∀ {i j : Nat} {a : α}, items[i]? = some a → j < width → (items.flatMap f)[i * width + j]? = (f a)[j]? := by
  induction items with
  | nil => simp
  | cons b rest ih =>
    intro i j a ha hj
    obtain ⟨hb, hrest⟩ := List.forall_mem_cons.mp h
    rw [List.flatMap_cons]
    cases i with
    | zero =>
      cases ha
      rw [Nat.zero_mul, Nat.zero_add, List.getElem?_append_left (by omega)]
    | succ i =>
      have hplace : (i + 1) * width + j = (f b).length + (i * width + j) := by
        rw [hb, Nat.succ_mul]
        omega
      rw [hplace, List.getElem?_append_right (by omega), Nat.add_sub_cancel_left]
      exact ih hrest ha hj

end Even

/-- Every line is sound and has `width` tokens. -/
def Even (content : Text) (width : Nat) : Prop :=
  ∀ line ∈ Text.lines content, NestedLine.Sound line ∧ (Text.tokens line).length = width

instance (content : Text) (width : Nat) : Decidable (Even content width) := inferInstanceAs (Decidable (∀ _ ∈ _, _))

/-- The number of tokens on the first line. -/
def firstWidth (content : Text) : Nat := (Text.tokens ((Text.lines content).headD [])).length

variable {content : Text} {rows : List Row} {e : ParseError} {width : Nat}

/-- Reading the first line for its width alone changes nothing: what is wrong with it is found again. -/
theorem nestedRows_eq (content : Text) : nestedRows content =
    List.flatMap NestedLine.rows <$> eachNumbered (NestedLine.ofTextWith (firstWidth content)) 1 (Text.lines content) := by
  unfold nestedRows firstWidth
  cases Text.lines content with
  | nil => rfl
  | cons first rest =>
    dsimp only [List.headD_cons]
    cases hfirst : NestedLine.ofText 1 first with
    | error e =>
      rw [eachNumbered_cons, NestedLine.ofTextWith, hfirst]
      rfl
    | ok nested =>
      rw [← (NestedLine.ofText_eq_ok_iff.mp hfirst).width]
      rfl

theorem even_firstWidth_iff : Even content (firstWidth content) ↔ ∃ width, Even content width := by
  constructor
  · intro h
    exact ⟨_, h⟩
  · intro h
    obtain ⟨width, h⟩ := h
    unfold Even firstWidth at *
    cases hlines : Text.lines content with
    | nil => simp
    | cons first rest =>
      rw [hlines] at h
      have hfirst : (Text.tokens first).length = width := (h first List.mem_cons_self).2
      rw [List.headD_cons, hfirst]
      exact h

theorem exists_nestedRows_iff : (∃ rows, nestedRows content = .ok rows) ↔ Even content (firstWidth content) := by
  have hread : (∃ read, eachNumbered (NestedLine.ofTextWith (firstWidth content)) 1 (Text.lines content) = .ok read) ↔
      Even content (firstWidth content) := by
    refine exists_eachNumbered_iff fun n line => ?_
    exact NestedLine.exists_read_iff
  rw [← hread]
  simp only [nestedRows_eq, map_eq_ok]
  constructor
  · intro h
    obtain ⟨rows, read, hread, -⟩ := h
    exact ⟨read, hread⟩
  · intro h
    obtain ⟨read, hread⟩ := h
    exact ⟨_, read, hread, rfl⟩

theorem nestedRows_even (h : nestedRows content = .ok rows) (heven : Even content width) :
    rows.length = (Text.lines content).length * (width - 1) ∧
      ∀ (i j : Nat) (line token : Text), (Text.lines content)[i]? = some line → (Text.tokens line)[j + 1]? = some token →
        ∃ group subkey value, (Text.tokens line)[0]? = some group ∧ NestedLine.IsPair token (subkey, value) ∧
          rows[i * (width - 1) + j]? = some [.token group, .token subkey, .token value] := by
  rw [nestedRows_eq, map_eq_ok] at h
  obtain ⟨read, hread, rfl⟩ := h
  have hwidth : ∀ nested ∈ read, nested.rows.length = width - 1 := by
    intro nested hnested
    obtain ⟨n, line, hline, hof⟩ := mem_of_eachNumbered hread nested hnested
    rw [(NestedLine.ofTextWith_eq_ok_iff.mp hof).1.length_rows, (heven line hline).2]
  constructor
  · rw [flatMap_length_of_length hwidth, eachNumbered_length hread]
  · intro i j line token hline htoken
    obtain ⟨nested, hnested, hof⟩ := (eachNumbered_eq_ok_iff_at.mp hread).2 i line hline
    have hreads : NestedLine.Reads line nested := (NestedLine.ofTextWith_eq_ok_iff.mp hof).1
    obtain ⟨subkey, value, hpair, hrow⟩ := hreads.getElem?_rows htoken
    have hj : j < width - 1 := by
      obtain ⟨hlt, -⟩ := List.getElem?_eq_some_iff.mp hrow
      rwa [hwidth nested (List.mem_of_getElem? hnested)] at hlt
    exact ⟨nested.group, subkey, value, hreads.group, hpair, (flatMap_getElem?_of_length hwidth hnested hj).trans hrow⟩

theorem nestedRows_eq_error_iff : nestedRows content = .error e ↔
    ∃ (i : Nat) (line : Text), (Text.lines content)[i]? = some line ∧
      NestedLine.LineFault (firstWidth content) (i + 1) line e ∧
      ∀ k < i, ∀ earlier : Text, (Text.lines content)[k]? = some earlier →
        NestedLine.Sound earlier ∧ (Text.tokens earlier).length = firstWidth content := by
  simp only [nestedRows_eq, map_eq_error, eachNumbered_eq_error_iff_at, NestedLine.ofTextWith_eq_error_iff,
    NestedLine.exists_read_iff, Nat.add_comm 1]

/-- A file has nested keyed rows exactly when all its lines are sound and equally wide, and then it has one row for every
    token behind a group: line by line, and on a line in the order of its tokens, the group with
    the subkey and the value that the token is. Otherwise what is wrong with a line is reported, and that is
    the first line that is not sound or, being so, not as wide as the first. -/
theorem nested_rows_exactly (content : Text) :
    ((∃ rows, Format.nestedKeyed.rows content = .ok rows) ↔ ∃ width, Even content width) ∧
    (∀ rows width, Format.nestedKeyed.rows content = .ok rows → Even content width →
      rows.length = (Text.lines content).length * (width - 1) ∧
      ∀ (i j : Nat) (line token : Text), (Text.lines content)[i]? = some line → (Text.tokens line)[j + 1]? = some token →
        ∃ group subkey value, (Text.tokens line)[0]? = some group ∧ NestedLine.IsPair token (subkey, value) ∧
          rows[i * (width - 1) + j]? = some [.token group, .token subkey, .token value]) ∧
    ∀ e, Format.nestedKeyed.rows content = .error e ↔
      ∃ (i : Nat) (line : Text), (Text.lines content)[i]? = some line ∧
        NestedLine.LineFault (firstWidth content) (i + 1) line e ∧
        ∀ k < i, ∀ earlier : Text, (Text.lines content)[k]? = some earlier →
          NestedLine.Sound earlier ∧ (Text.tokens earlier).length = firstWidth content := by
  refine ⟨?_, fun rows width h heven => nestedRows_even h heven, fun e => nestedRows_eq_error_iff⟩
  rw [← even_firstWidth_iff]
  exact exists_nestedRows_iff

/-- Two lines of two pairs, one value with an `=` in it. -/
def deviceCounters : Text := "8:0 rbytes=1 wios=2\n\n 8:16  rbytes=a=b wios=4\n".toList

/-- The second line is too wide and its last token has no subkey; the third is blank. -/
def faultyCounters : Text := "8:0 rbytes=1\n8:16 rbytes=3 =4\n \n".toList

/-- Of the faults on one line, the pair is reported and not the width. -/
theorem device_counters_read :
    (∃ rows, Format.nestedKeyed.rows deviceCounters = .ok rows ∧ rows.length = 4 ∧
      rows[2]? = some [.token "8:16".toList, .token "rbytes".toList, .token "a=b".toList]) ∧
    Format.nestedKeyed.rows faultyCounters = .error (.malformedPair 2 "=4".toList) := by
  have heven : Even deviceCounters 3 := by decide
  obtain ⟨accepted, read, -⟩ := nested_rows_exactly deviceCounters
  obtain ⟨-, -, fault⟩ := nested_rows_exactly faultyCounters
  constructor
  · obtain ⟨rows, hrows⟩ := accepted.mpr ⟨3, heven⟩
    obtain ⟨hlength, hplaces⟩ := read rows 3 hrows heven
    obtain ⟨group, subkey, value, hgroup, hpair, hrow⟩ :=
      hplaces 1 0 " 8:16  rbytes=a=b wios=4".toList "rbytes=a=b".toList (by decide) (by decide)
    have hparts : NestedLine.pair 0 "rbytes=a=b".toList = .ok ("rbytes".toList, "a=b".toList) := by decide
    rw [← NestedLine.pair_eq_ok_iff (n := 0), hparts] at hpair
    cases hpair
    cases hgroup
    exact ⟨rows, hrows, hlength, hrow⟩
  · refine (fault _).mpr ⟨1, "8:16 rbytes=3 =4".toList, by decide, ?_, by decide⟩
    have hbad : ¬ ∃ parts, NestedLine.IsPair "=4".toList parts := by decide
    exact .pair ⟨1, by decide, not_exists.mp hbad, by decide⟩

end HostTables.Format
