/-
  HostTables.Proofs.Text.LossyText — the text of bytes that need not be UTF-8, and where it is cut.

  Bytes are taken from the front (`Decodes`): a character where its bytes stand; otherwise U+FFFD for as much
  of a character as stands there, or for a single byte if that is nothing (`Maximal`). The scanner comes to
  the same pieces. What it has read of a character is the front of one (`begins_of_reached`), and where it
  is stuck no character goes on (`maximal_of_stuck`), so its text is the only one there is (`decodes_iff`).

  No ASCII byte lies inside a piece, so bytes are cut at it where their text is cut at its character
  (`splitOn_decodeLossy`), and as no piece of bytes becomes empty, neither does any of the text
  (`fields_decodeLossy`).
  - `boundaries_survive_decoding`: lines, tokens and arguments of a decoded file are those of its bytes, each
    decoded by itself.
-/
import HostTables.Format.ProcessFile
import HostTables.Machine.FileTree
import HostTables.Proofs.Text.IllFormed

namespace HostTables.Utf8

/-! ## Decoding without a scanner -/

/-- Some character begins with these bytes. -/
def Begins (part : List UInt8) : Prop := ∃ c, part <+: String.utf8EncodeChar c

/-- No character stands in front of `part ++ rest`, and `part` is the longest piece of one that does. Where
    there is none, it is one byte. -/
structure Maximal (part rest : List UInt8) : Prop where
  no_char : ∀ c, ¬ String.utf8EncodeChar c <+: part ++ rest
  ne_nil : part ≠ []
  begins : Begins part ∨ part.length = 1
  longest : ∀ other, other <+: part ++ rest → Begins other → other.length ≤ part.length

/-- The text is that of the bytes, with U+FFFD for each maximal piece that is no character. -/
inductive Decodes : List UInt8 → Text → Prop
  | nil : Decodes [] []
  | char (c : Char) {rest : List UInt8} {t : Text} : Decodes rest t → Decodes (String.utf8EncodeChar c ++ rest) (c :: t)
  | illFormed {part rest : List UInt8} {t : Text} : Maximal part rest → Decodes rest t →
      Decodes (part ++ rest) (replacement :: t)

/-- There is only one maximal piece at the front. -/
theorem Maximal.unique {part rest part' rest' : List UInt8} (h : Maximal part rest) (h' : Maximal part' rest')
    (heq : part ++ rest = part' ++ rest') : part = part' ∧ rest = rest' := by
  have hle : ∀ {p r p' r' : List UInt8}, Maximal p r → Maximal p' r' → p ++ r = p' ++ r' → p'.length ≤ p.length := by
    intro p r p' r' hp hp' he
    rcases hp'.begins with hb | hone
    · exact hp.longest p' (he ▸ List.prefix_append p' r') hb
    · have hpos : 0 < p.length := List.length_pos_iff.mpr hp.ne_nil
      omega
  have hlength : part.length = part'.length := Nat.le_antisymm (hle h' h heq.symm) (hle h h' heq)
  exact List.append_inj heq hlength

/-! ## The pieces of the scanner -/

theorem readings_encodeChar (c : Char) : readings (String.utf8EncodeChar c) = [some c] := by
  have h := readings_char c []
  rwa [List.append_nil] at h

/-- The scanner is in the state when it has read the bytes in front. -/
def Reached (front : List UInt8) (s : State) : Prop := ∀ rest, readings (front ++ rest) = readingsFrom s rest

/-- From a state in which some byte fits, a character can be completed. -/
theorem exists_completion (more : Nat) : ∀ (value : Nat) {low high : Nat}, low ≤ high → high ≤ 0xBF →
    ∃ bytes c, readingsFrom (.inside more value low high) bytes = [some c] := by
  have hbyte : ∀ {n : Nat}, n < 256 → (UInt8.ofNat n).toNat = n := fun h => UInt8.toNat_ofNat_of_lt h
  induction more with
  | zero =>
    intro value low high hl hh
    have hlow : (UInt8.ofNat low).toNat = low := hbyte (by omega)
    exact ⟨[UInt8.ofNat low], _, readingsFrom_last [] (by omega) (by omega)⟩
  | succ more ih =>
    intro value low high hl hh
    have hlow : (UInt8.ofNat low).toNat = low := hbyte (by omega)
    have hrange : 0x80 ≤ 0xBF := by decide
    obtain ⟨bytes, c, h⟩ := ih (value * 64 + (low - 0x80)) hrange (Nat.le_refl _)
    refine ⟨UInt8.ofNat low :: bytes, c, ?_⟩
    rw [readingsFrom_more bytes (by omega) (by omega), hlow, h]

theorem begins_of_reached {front : List UInt8} {more value low high : Nat}
    (h : Reached front (.inside more value low high)) (hl : low ≤ high) (hh : high ≤ 0xBF) : Begins front := by
  obtain ⟨bytes, c, hbytes⟩ := exists_completion more value hl hh
  have hread : readings (front ++ bytes) = [some c] := by rw [h, hbytes]
  obtain ⟨whole, rest, heq, hrest, hwhole⟩ := readings_eq_cons hread
  rw [eq_nil_of_readings hrest, List.append_nil, hwhole c rfl] at heq
  exact ⟨c, heq ▸ List.prefix_append front bytes⟩

/-- Where the scanner closes what it has read as ill-formed, whatever comes behind the next byte, no
    character goes on. -/
theorem maximal_of_stuck {front bytes : List UInt8} (hne : front ≠ []) (hbegins : Begins front ∨ front.length = 1)
    (hstuck : ∀ rest, rest.head? = bytes.head? → readings (front ++ rest) = none :: readings rest) :
    Maximal front bytes := by
  refine ⟨?_, hne, hbegins, ?_⟩
  · rintro c ⟨rest, hrest⟩
    have hread : readings (front ++ bytes) = some c :: readings rest := hrest ▸ readings_char c rest
    rw [hstuck bytes rfl] at hread
    cases hread
  · rintro other hother ⟨c, tail, hc⟩
    refine Nat.le_of_not_lt fun hlonger => ?_
    obtain ⟨more, rfl⟩ := List.prefix_of_prefix_length_le (List.prefix_append front bytes) hother (by omega)
    have hmore : more <+: bytes := (List.prefix_append_right_inj front).mp hother
    cases more with
    | nil => simp at hlonger
    | cons b more =>
      obtain ⟨behind, rfl⟩ := hmore
      have hread := readings_encodeChar c
      rw [← hc, List.append_assoc, hstuck (b :: more ++ tail) rfl] at hread
      cases hread

/-- At the front of bytes stands a character or a maximal piece, for which the scanner has a reading. -/
def FrontRead (bytes : List UInt8) : Prop :=
  (∃ c rest, bytes = String.utf8EncodeChar c ++ rest) ∨
    ∃ part rest, bytes = part ++ rest ∧ Maximal part rest ∧ readings bytes = none :: readings rest

theorem frontRead_of_stuck {front bytes : List UInt8} (hne : front ≠ []) (hbegins : Begins front ∨ front.length = 1)
    (hstuck : ∀ rest, rest.head? = bytes.head? → readings (front ++ rest) = none :: readings rest) :
    FrontRead (front ++ bytes) :=
  Or.inr ⟨front, bytes, rfl, maximal_of_stuck hne hbegins hstuck, hstuck bytes rfl⟩

theorem frontRead_of_unfit {front bytes : List UInt8} {more value low high : Nat} (hne : front ≠ [])
    (h : Reached front (.inside more value low high)) (hl : low ≤ high) (hh : high ≤ 0xBF)
    (hfits : ¬ ∃ b rest, bytes = b :: rest ∧ low ≤ b.toNat ∧ b.toNat ≤ high) : FrontRead (front ++ bytes) := by
  refine frontRead_of_stuck hne (Or.inl (begins_of_reached h hl hh)) fun rest hhead => ?_
  rw [h]
  cases rest with
  | nil => rfl
  | cons b rest =>
    obtain ⟨behind, rfl⟩ := List.head?_eq_some_iff.mp hhead.symm
    exact readingsFrom_refused rest fun hb => hfits ⟨b, behind, rfl, hb⟩

/-- In the middle of a character either the next byte fits or the scanner is stuck. -/
theorem frontRead_of_reached {more : Nat} : ∀ {front : List UInt8} {value low high : Nat}, front ≠ [] →
    Reached front (.inside more value low high) → low ≤ high → high ≤ 0xBF → ∀ bytes, FrontRead (front ++ bytes) := by
  induction more with
  | zero =>
    intro front value low high hne h hl hh bytes
    by_cases hfits : ∃ b rest, bytes = b :: rest ∧ low ≤ b.toNat ∧ b.toNat ≤ high
    · obtain ⟨b, rest, rfl, hb⟩ := hfits
      obtain ⟨whole, rest, heq, -, hwhole⟩ := readings_eq_cons ((h (b :: rest)).trans (readingsFrom_last rest hb.1 hb.2))
      exact Or.inl ⟨_, rest, hwhole _ rfl ▸ heq⟩
    · exact frontRead_of_unfit hne h hl hh hfits
  | succ more ih =>
    intro front value low high hne h hl hh bytes
    by_cases hfits : ∃ b rest, bytes = b :: rest ∧ low ≤ b.toNat ∧ b.toNat ≤ high
    · obtain ⟨b, rest, rfl, hb⟩ := hfits
      have hnext : Reached (front ++ [b]) (.inside more (value * 64 + (b.toNat - 0x80)) 0x80 0xBF) := by
        intro rest
        rw [List.append_assoc, List.singleton_append, h, readingsFrom_more rest hb.1 hb.2]
      have hread := ih (by simp) hnext (by omega) (by omega) rest
      rwa [List.append_assoc, List.singleton_append] at hread
    · exact frontRead_of_unfit hne h hl hh hfits

/-- After a lead byte some second byte fits. -/
theorem fits_of_ofLead? {a more value low high : Nat} (h : State.ofLead? a = some (.inside more value low high)) :
    low ≤ high ∧ high ≤ 0xBF := by
  unfold State.ofLead? at h
  repeat' split at h
  all_goals cases h
  all_goals decide

theorem frontRead {bytes : List UInt8} (hne : bytes ≠ []) : FrontRead bytes := by
  obtain ⟨a, rest, rfl⟩ := List.exists_cons_of_ne_nil hne
  by_cases hascii : a.toNat < 0x80
  · exact Or.inl ⟨Char.ofNat a.toNat, rest, by rw [encodeChar_one hascii]; rfl⟩
  cases hs : State.ofLead? a.toNat with
  | none =>
    have hstuck : ∀ more, readings ([a] ++ more) = none :: readings more := fun more => by
      simp [readings, readingsFrom, State.step, State.begin, hascii, hs]
    exact frontRead_of_stuck (List.cons_ne_nil a []) (Or.inr rfl) fun more _ => hstuck more
  | some s =>
    cases s with
    | start => cases leadOf_of_ofLead? hs
    | inside more value low high =>
      obtain ⟨hl, hh⟩ := fits_of_ofLead? hs
      have hreached : Reached [a] (.inside more value low high) := fun rest => readingsFrom_lead rest (by omega) hs
      exact frontRead_of_reached (List.cons_ne_nil a []) hreached hl hh rest

/-! ## One text for all bytes -/

theorem decodeLossy_char (c : Char) (rest : List UInt8) :
    decodeLossy (String.utf8EncodeChar c ++ rest) = c :: decodeLossy rest := by
  rw [decodeLossy, readings, readings_char]
  rfl

theorem decodeLossy_of_maximal {part rest : List UInt8} (h : Maximal part rest) :
    decodeLossy (part ++ rest) = replacement :: decodeLossy rest := by
  have hne : part ++ rest ≠ [] := List.append_ne_nil_of_left_ne_nil h.ne_nil rest
  rcases frontRead hne with ⟨c, behind, hc⟩ | ⟨part', rest', heq, hmax, hread⟩
  · exact absurd ⟨behind, hc.symm⟩ (h.no_char c)
  · obtain ⟨rfl, rfl⟩ := h.unique hmax heq
    rw [decodeLossy, hread]
    rfl

theorem decodes_decodeLossy (bytes : List UInt8) : Decodes bytes (decodeLossy bytes) := by
  induction hn : bytes.length using Nat.strongRecOn generalizing bytes with
  | _ n ih =>
    by_cases hnil : bytes = []
    · rw [hnil]
      exact .nil
    rcases frontRead hnil with ⟨c, rest, rfl⟩ | ⟨part, rest, rfl, hmax, -⟩
    · have hpos : 0 < (String.utf8EncodeChar c).length := by rw [String.length_utf8EncodeChar]; exact c.utf8Size_pos
      rw [decodeLossy_char]
      exact .char c (ih rest.length (by rw [← hn, List.length_append]; omega) rest rfl)
    · have hpos : 0 < part.length := List.length_pos_iff.mpr hmax.ne_nil
      rw [decodeLossy_of_maximal hmax]
      exact .illFormed hmax (ih rest.length (by rw [← hn, List.length_append]; omega) rest rfl)

theorem decodes_iff {bytes : List UInt8} {t : Text} : Decodes bytes t ↔ t = decodeLossy bytes := by
  constructor
  · intro h
    induction h with
    | nil => rfl
    | char c _ ih => rw [decodeLossy_char, ih]
    | illFormed hmax _ ih => rw [decodeLossy_of_maximal hmax, ih]
  · rintro rfl
    exact decodes_decodeLossy bytes

/-! ## Cuts -/

/-- The non-empty pieces of the bytes between occurrences of `b`, in order. -/
def segments (b : UInt8) (bytes : List UInt8) : List (List UInt8) :=
  (bytes.splitOn b).filter fun piece => !piece.isEmpty

theorem decodeLossy_eq_nil_iff {bytes : List UInt8} : decodeLossy bytes = [] ↔ bytes = [] := by
  constructor
  · intro h
    exact eq_nil_of_readings (List.map_eq_nil_iff.mp h)
  · rintro rfl
    rfl

/-- Decoding makes no piece empty, so the non-empty ones stay what they are. -/
theorem fields_decodeLossy {b : UInt8} (hb : b.toNat < 0x80) (bytes : List UInt8) :
    Text.fields (Char.ofNat b.toNat) (decodeLossy bytes) = (segments b bytes).map decodeLossy := by
  rw [Text.fields, splitOn_decodeLossy hb, List.filter_map, segments]
  have hempty : ∀ piece : List UInt8, (decodeLossy piece).isEmpty = piece.isEmpty := by
    intro piece
    rw [Bool.eq_iff_iff, List.isEmpty_iff, List.isEmpty_iff]
    exact decodeLossy_eq_nil_iff
  simp only [Function.comp_def, hempty]

/-- Decoding puts one U+FFFD for each maximal piece that is no character and leaves UTF-8 as it is. Whatever
    is ill-formed, a decoded file is cut into lines, a decoded line into tokens and a decoded command line
    into arguments exactly where the bytes are. -/
theorem boundaries_survive_decoding :
    (∀ files path, FileTree.readText files path = decodeLossy <$> FileTree.readBytes files path) ∧
    (∀ bytes t, Decodes bytes t ↔ t = decodeLossy bytes) ∧
    (∀ t, decodeLossy (encode t) = t) ∧
    (∀ bytes, Text.lines (decodeLossy bytes) = (segments 0x0A bytes).map decodeLossy) ∧
    (∀ bytes, Text.tokens (decodeLossy bytes) = (segments 0x20 bytes).map decodeLossy) ∧
    (∀ bytes, Format.ProcessFile.commandLine (decodeLossy bytes) =
      Text.joined [' '] ((segments 0x00 bytes).map decodeLossy)) := by
  refine ⟨?_, fun _ _ => decodes_iff, decodeLossy_encode, ?_, ?_, ?_⟩
  · intro files path
    unfold FileTree.readText
    cases files.readBytes path <;> rfl
  · exact fun bytes => fields_decodeLossy (b := 0x0A) (by decide) bytes
  · exact fun bytes => fields_decodeLossy (b := 0x20) (by decide) bytes
  · intro bytes
    rw [Format.ProcessFile.commandLine]
    exact congrArg (Text.joined [' ']) (fields_decodeLossy (b := 0x00) (by decide) bytes)

end HostTables.Utf8
