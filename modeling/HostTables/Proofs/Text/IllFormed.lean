/-
  HostTables.Proofs.Text.IllFormed — what is read from bytes that need not be UTF-8.

  The readings of bytes stand for pieces of them in order, and a character is read from its own bytes
  and from nothing else (`readings_eq_cons`). So bytes without an ill-formed sequence are the bytes of
  the text that is read (`decode?_eq_ok_iff`), and no ASCII character is read where its byte does not
  stand (`ascii_mem_decodeLossy`). An ASCII byte in turn belongs to no longer sequence: it closes an
  ill-formed one and is read by itself (`readingsFrom_append_ascii`). Hence bytes are cut at an ASCII byte
  where their text is cut at its character, whatever is ill-formed in them (`splitOn_decodeLossy`).
-/
import HostTables.Proofs.Text.Utf8
import Mathlib.Data.List.TakeWhile

namespace HostTables.Utf8

/-! ## Bytes of a character -/

theorem toNat_ofNat {n : Nat} (h : n < 0xD800 ∨ 0xDFFF < n ∧ n < 0x110000) : (Char.ofNat n).toNat = n := by
  rw [Char.ofNat, dif_pos h]
  rfl

theorem ofNat_eq {b : UInt8} {n : Nat} (h : b.toNat = n) : UInt8.ofNat n = b := by
  rw [← h, UInt8.ofNat_toNat]

theorem encodeChar_one {a : UInt8} (ha : a.toNat < 0x80) : String.utf8EncodeChar (Char.ofNat a.toNat) = [a] := by
  have hc : (Char.ofNat a.toNat).val.toNat = a.toNat := toNat_ofNat (by omega)
  rw [String.utf8EncodeChar, hc, if_pos (by omega), ofNat_eq rfl]

/-- The byte goes on with a character that a lead byte has begun. -/
abbrev Continues (b : UInt8) : Prop := 0x80 ≤ b.toNat ∧ b.toNat ≤ 0xBF

theorem encodeChar_two {a b : UInt8} (ha : 0xC2 ≤ a.toNat ∧ a.toNat ≤ 0xDF) (hb : Continues b) :
    String.utf8EncodeChar (Char.ofNat ((a.toNat - 0xC0) * 64 + (b.toNat - 0x80))) = [a, b] := by
  generalize hn : (a.toNat - 0xC0) * 64 + (b.toNat - 0x80) = n
  have hc : (Char.ofNat n).val.toNat = n := toNat_ofNat (by omega)
  rw [String.utf8EncodeChar, hc, if_neg (by omega), if_pos (by omega)]
  rw [ofNat_eq (b := a) (by omega), ofNat_eq (b := b) (by omega)]

/-- Neither overlong nor a surrogate. -/
theorem encodeChar_three {a b c : UInt8} (ha : 0xE0 ≤ a.toNat ∧ a.toNat ≤ 0xEF) (hb : Continues b) (hc : Continues c)
    (hlow : a.toNat = 0xE0 → 0xA0 ≤ b.toNat) (hhigh : a.toNat = 0xED → b.toNat ≤ 0x9F) :
    String.utf8EncodeChar (Char.ofNat (((a.toNat - 0xE0) * 64 + (b.toNat - 0x80)) * 64 + (c.toNat - 0x80))) =
      [a, b, c] := by
  generalize hn : ((a.toNat - 0xE0) * 64 + (b.toNat - 0x80)) * 64 + (c.toNat - 0x80) = n
  have hchar : (Char.ofNat n).val.toNat = n := toNat_ofNat (by omega)
  rw [String.utf8EncodeChar, hchar, if_neg (by omega), if_neg (by omega), if_pos (by omega)]
  rw [ofNat_eq (b := a) (by omega), ofNat_eq (b := b) (by omega), ofNat_eq (b := c) (by omega)]

/-- Neither overlong nor above U+10FFFF. -/
theorem encodeChar_four {a b c d : UInt8} (ha : 0xF0 ≤ a.toNat ∧ a.toNat ≤ 0xF4) (hb : Continues b) (hc : Continues c)
    (hd : Continues d) (hlow : a.toNat = 0xF0 → 0x90 ≤ b.toNat) (hhigh : a.toNat = 0xF4 → b.toNat ≤ 0x8F) :
    String.utf8EncodeChar (Char.ofNat
      ((((a.toNat - 0xF0) * 64 + (b.toNat - 0x80)) * 64 + (c.toNat - 0x80)) * 64 + (d.toNat - 0x80))) = [a, b, c, d] := by
  generalize hn : (((a.toNat - 0xF0) * 64 + (b.toNat - 0x80)) * 64 + (c.toNat - 0x80)) * 64 + (d.toNat - 0x80) = n
  have hchar : (Char.ofNat n).val.toNat = n := toNat_ofNat (by omega)
  rw [String.utf8EncodeChar, hchar, if_neg (by omega), if_neg (by omega), if_neg (by omega)]
  rw [ofNat_eq (b := a) (by omega), ofNat_eq (b := b) (by omega), ofNat_eq (b := c) (by omega),
    ofNat_eq (b := d) (by omega)]

/-! ## The first reading -/

/-- What has to follow a lead byte. -/
inductive LeadOf (a : Nat) : State → Prop
  | two (ha : 0xC2 ≤ a ∧ a ≤ 0xDF) : LeadOf a (.inside 0 (a - 0xC0) 0x80 0xBF)
  | three (low high : Nat) (ha : 0xE0 ≤ a ∧ a ≤ 0xEF) (hl : 0x80 ≤ low) (hh : high ≤ 0xBF)
      (hlow : a = 0xE0 → 0xA0 ≤ low) (hhigh : a = 0xED → high ≤ 0x9F) : LeadOf a (.inside 1 (a - 0xE0) low high)
  | four (low high : Nat) (ha : 0xF0 ≤ a ∧ a ≤ 0xF4) (hl : 0x80 ≤ low) (hh : high ≤ 0xBF)
      (hlow : a = 0xF0 → 0x90 ≤ low) (hhigh : a = 0xF4 → high ≤ 0x8F) : LeadOf a (.inside 2 (a - 0xF0) low high)

theorem leadOf_of_ofLead? {a : Nat} {s : State} (h : State.ofLead? a = some s) : LeadOf a s := by
  unfold State.ofLead? at h
  split at h
  · cases h
    exact .two ‹_›
  split at h
  · rename_i ha
    subst ha
    cases h
    exact .three 0xA0 0xBF (by omega) (by omega) (by omega) (by omega) (by omega)
  split at h
  · rename_i ha
    subst ha
    cases h
    exact .three 0x80 0x9F (by omega) (by omega) (by omega) (by omega) (by omega)
  split at h
  · cases h
    exact .three 0x80 0xBF (by omega) (by omega) (by omega) (by omega) (by omega)
  split at h
  · rename_i ha
    subst ha
    cases h
    exact .four 0x90 0xBF (by omega) (by omega) (by omega) (by omega) (by omega)
  split at h
  · cases h
    exact .four 0x80 0xBF (by omega) (by omega) (by omega) (by omega) (by omega)
  split at h
  · rename_i ha
    subst ha
    cases h
    exact .four 0x80 0x8F (by omega) (by omega) (by omega) (by omega) (by omega)
  · cases h

/-- A byte that does not fit closes the sequence and is read anew. -/
theorem readingsFrom_refused {b : UInt8} {more value low high : Nat} (rest : List UInt8)
    (hb : ¬ (low ≤ b.toNat ∧ b.toNat ≤ high)) :
    readingsFrom (.inside more value low high) (b :: rest) = none :: readings (b :: rest) := by
  simp [readings, readingsFrom, State.step, hb]

/-- Inside a sequence either the next byte fits, or the sequence is ill-formed and what follows is read anew. -/
theorem readingsFrom_inside (more value low high : Nat) (bytes : List UInt8) :
    readingsFrom (.inside more value low high) bytes = none :: readings bytes ∨
      ∃ b rest, bytes = b :: rest ∧ low ≤ b.toNat ∧ b.toNat ≤ high := by
  cases bytes with
  | nil => exact Or.inl rfl
  | cons b rest =>
    by_cases hb : low ≤ b.toNat ∧ b.toNat ≤ high
    · exact Or.inr ⟨b, rest, rfl, hb⟩
    · exact Or.inl (readingsFrom_refused rest hb)

/-- What the first reading is read from, and that the others are read from what follows. -/
def Opens (reading : Option Char) (more : List (Option Char)) (bytes : List UInt8) : Prop :=
  ∃ front rest, bytes = front ++ rest ∧ readings rest = more ∧ ∀ c ∈ reading, front = String.utf8EncodeChar c

variable {reading : Option Char} {more : List (Option Char)}

theorem opens_of_none (front : List UInt8) {rest : List UInt8} (h : none :: readings rest = reading :: more) :
    Opens reading more (front ++ rest) := by
  cases h
  exact ⟨front, rest, rfl, rfl, nofun⟩

theorem opens_of_char {c : Char} (front : List UInt8) {rest : List UInt8} (hc : String.utf8EncodeChar c = front)
    (h : some c :: readings rest = reading :: more) : Opens reading more (front ++ rest) := by
  cases h
  refine ⟨front, rest, rfl, rfl, ?_⟩
  rintro _ ⟨⟩
  exact hc.symm

/-- A character is read from its own bytes. -/
theorem readings_eq_cons {bytes : List UInt8} (h : readings bytes = reading :: more) : Opens reading more bytes := by
  cases bytes with
  | nil => cases h
  | cons a rest =>
    by_cases hascii : a.toNat < 0x80
    · rw [readings, readingsFrom_ascii rest hascii] at h
      exact opens_of_char [a] (encodeChar_one hascii) h
    cases hs : State.ofLead? a.toNat with
    | none =>
      have hstep : readings (a :: rest) = none :: readings rest := by
        simp [readings, readingsFrom, State.step, State.begin, hascii, hs]
      rw [hstep] at h
      exact opens_of_none [a] h
    | some s =>
      rw [readings, readingsFrom_lead rest (by omega) hs] at h
      cases leadOf_of_ofLead? hs with
      | two ha =>
        rcases readingsFrom_inside 0 (a.toNat - 0xC0) 0x80 0xBF rest with hill | ⟨b, rest, rfl, hb⟩
        · rw [hill] at h
          exact opens_of_none [a] h
        · rw [readingsFrom_last rest hb.1 hb.2] at h
          exact opens_of_char [a, b] (encodeChar_two ha hb) h
      | three low high ha hl hh hlow hhigh =>
        rcases readingsFrom_inside 1 (a.toNat - 0xE0) low high rest with hill | ⟨b, rest, rfl, hb⟩
        · rw [hill] at h
          exact opens_of_none [a] h
        rw [readingsFrom_more rest hb.1 hb.2] at h
        rcases readingsFrom_inside 0 _ 0x80 0xBF rest with hill | ⟨c, rest, rfl, hc⟩
        · rw [hill] at h
          exact opens_of_none [a, b] h
        · rw [readingsFrom_last rest hc.1 hc.2] at h
          exact opens_of_char [a, b, c] (encodeChar_three ha (by omega) hc (by omega) (by omega)) h
      | four low high ha hl hh hlow hhigh =>
        rcases readingsFrom_inside 2 (a.toNat - 0xF0) low high rest with hill | ⟨b, rest, rfl, hb⟩
        · rw [hill] at h
          exact opens_of_none [a] h
        rw [readingsFrom_more rest hb.1 hb.2] at h
        rcases readingsFrom_inside 1 _ 0x80 0xBF rest with hill | ⟨c, rest, rfl, hc⟩
        · rw [hill] at h
          exact opens_of_none [a, b] h
        rw [readingsFrom_more rest hc.1 hc.2] at h
        rcases readingsFrom_inside 0 _ 0x80 0xBF rest with hill | ⟨d, rest, rfl, hd⟩
        · rw [hill] at h
          exact opens_of_none [a, b, c] h
        · rw [readingsFrom_last rest hd.1 hd.2] at h
          exact opens_of_char [a, b, c, d] (encodeChar_four ha (by omega) hc hd (by omega) (by omega)) h

/-! ## Well-formed bytes -/

/-- A sequence that has been begun is read in some way. -/
theorem readingsFrom_inside_ne_nil {more value low high : Nat} (bytes : List UInt8) :
    readingsFrom (.inside more value low high) bytes ≠ [] := by
  induction more generalizing value low high bytes with
  | zero =>
    rcases readingsFrom_inside 0 value low high bytes with hill | ⟨b, rest, rfl, hb⟩
    · simp [hill]
    · simp [readingsFrom_last rest hb.1 hb.2]
  | succ more ih =>
    rcases readingsFrom_inside (more + 1) value low high bytes with hill | ⟨b, rest, rfl, hb⟩
    · simp [hill]
    · rw [readingsFrom_more rest hb.1 hb.2]
      exact ih rest

theorem eq_nil_of_readings {bytes : List UInt8} (h : readings bytes = []) : bytes = [] := by
  cases bytes with
  | nil => rfl
  | cons a rest =>
    exfalso
    by_cases hascii : a.toNat < 0x80
    · rw [readings, readingsFrom_ascii rest hascii] at h
      cases h
    cases hs : State.ofLead? a.toNat with
    | none => simp [readings, readingsFrom, State.step, State.begin, hascii, hs] at h
    | some s =>
      rw [readings, readingsFrom_lead rest (by omega) hs] at h
      cases leadOf_of_ofLead? hs <;> exact readingsFrom_inside_ne_nil rest h

/-- What is read as a text are its bytes, whatever is read behind it. -/
theorem exists_encode_append {t : Text} : ∀ {bytes : List UInt8}, readings bytes = t.map some ++ more →
    ∃ rest, bytes = encode t ++ rest ∧ readings rest = more := by
  induction t with
  | nil =>
    intro bytes h
    exact ⟨bytes, rfl, h⟩
  | cons c t ih =>
    intro bytes h
    obtain ⟨front, rest, rfl, hrest, hfront⟩ := readings_eq_cons h
    obtain ⟨behind, rfl, hbehind⟩ := ih hrest
    exact ⟨behind, by rw [encode_cons, hfront c rfl, List.append_assoc], hbehind⟩

/-- Bytes in which nothing is ill-formed are the bytes of the text that is read. -/
theorem encode_of_readings {t : Text} {bytes : List UInt8} (h : readings bytes = t.map some) : encode t = bytes := by
  obtain ⟨rest, rfl, hrest⟩ := exists_encode_append (h.trans (List.append_nil _).symm)
  rw [eq_nil_of_readings hrest, List.append_nil]

theorem decode?_eq_ok_iff {bytes : List UInt8} {t : Text} : decode? bytes = .ok t ↔ encode t = bytes := by
  constructor
  · intro h
    have hall : (readings bytes).all Option.isSome = true ∧ (readings bytes).filterMap id = t := by
      unfold decode? at h
      dsimp only at h
      split at h
      · cases h
        exact ⟨‹_›, rfl⟩
      · cases h
    refine encode_of_readings ?_
    have hsome : (readings bytes).filter Option.isSome = readings bytes :=
      List.filter_eq_self.mpr (List.all_eq_true.mp hall.1)
    rw [← hall.2, List.map_filterMap_some_eq_filter_map_isSome, List.map_id, hsome]
  · rintro rfl
    exact decode?_encode t

/-- The bytes are those of a text. -/
def WellFormed (bytes : List UInt8) : Prop := ∃ t, encode t = bytes

theorem wellFormed_append {a b : List UInt8} (ha : WellFormed a) (hb : WellFormed b) : WellFormed (a ++ b) := by
  obtain ⟨t, rfl⟩ := ha
  obtain ⟨u, rfl⟩ := hb
  exact ⟨t ++ u, encode_append t u⟩

/-- So many bytes at the front are well-formed, and no more. -/
structure WellFormedFor (bytes : List UInt8) (n : Nat) : Prop where
  front : ∃ part, part <+: bytes ∧ WellFormed part ∧ part.length = n
  longest : ∀ part, part <+: bytes → WellFormed part → part.length ≤ n

theorem WellFormedFor.unique {bytes : List UInt8} {n m : Nat} (hn : WellFormedFor bytes n) (hm : WellFormedFor bytes m) :
    n = m := by
  obtain ⟨part, hpart, hwell, rfl⟩ := hn.front
  obtain ⟨part', hpart', hwell', rfl⟩ := hm.front
  exact Nat.le_antisymm (hm.longest part hpart hwell) (hn.longest part' hpart' hwell')

/-- The text that is read up to the first ill-formed sequence is the longest one there is. -/
theorem wellFormedFor_of_readings {bytes : List UInt8} {t : Text}
    (h : (readings bytes).takeWhile Option.isSome = t.map some) : WellFormedFor bytes (encode t).length := by
  have hsplit : readings bytes = t.map some ++ (readings bytes).dropWhile Option.isSome := by
    rw [← h, List.takeWhile_append_dropWhile]
  obtain ⟨rest, hbytes, -⟩ := exists_encode_append hsplit
  refine ⟨⟨encode t, hbytes ▸ List.prefix_append _ rest, ⟨t, rfl⟩, rfl⟩, ?_⟩
  rintro _ ⟨behind, hbehind⟩ ⟨u, rfl⟩
  have hsome : ∀ reading ∈ u.map some, reading.isSome = true := by simp
  rw [← hbehind, readings_encode_append, List.takeWhile_append_of_pos hsome] at h
  -- What is read of the other text comes first, so it is the front of this one.
  obtain ⟨v, w, rfl, hv, -⟩ := List.map_eq_append_iff.mp h.symm
  rw [List.map_inj_right (fun _ _ => Option.some.inj) |>.mp hv, encode_append, List.length_append]
  exact Nat.le_add_right _ _

theorem decode?_eq_error_iff {bytes : List UInt8} {n : Nat} :
    decode? bytes = .error n ↔ ¬ WellFormed bytes ∧ WellFormedFor bytes n := by
  have hfront : ∀ {m : Nat}, decode? bytes = .error m → WellFormedFor bytes m := by
    intro m h
    unfold decode? at h
    dsimp only at h
    split at h
    · cases h
    · cases h
      refine wellFormedFor_of_readings ?_
      rw [List.map_filterMap_some_eq_filter_map_isSome, List.map_id, List.filter_eq_self.mpr]
      exact fun reading hreading => List.mem_takeWhile_imp hreading
  constructor
  · intro h
    refine ⟨?_, hfront h⟩
    rintro ⟨t, rfl⟩
    rw [decode?_encode] at h
    cases h
  · rintro ⟨hill, hn⟩
    cases h : decode? bytes with
    | ok t => exact absurd ⟨t, decode?_eq_ok_iff.mp h⟩ hill
    | error m => rw [(hfront h).unique hn]

/-- The bytes with U+FFFD in place of each ill-formed sequence. -/
def repair (bytes : List UInt8) : List UInt8 := encode (decodeLossy bytes)

theorem repair_of_wellFormed {bytes : List UInt8} (h : WellFormed bytes) : repair bytes = bytes := by
  obtain ⟨t, rfl⟩ := h
  rw [repair, decodeLossy_encode]

theorem repair_eq_self_iff {bytes : List UInt8} : repair bytes = bytes ↔ WellFormed bytes :=
  ⟨fun h => ⟨decodeLossy bytes, h⟩, repair_of_wellFormed⟩

instance (bytes : List UInt8) : Decidable (WellFormed bytes) := decidable_of_iff _ repair_eq_self_iff

/-- Every byte of a character that is read stands among the bytes. -/
theorem mem_of_mem_readings {c : Char} {b : UInt8} (hb : b ∈ String.utf8EncodeChar c) :
    ∀ {bytes : List UInt8}, some c ∈ readings bytes → b ∈ bytes := by
  intro bytes
  generalize h : readings bytes = all
  induction all generalizing bytes with
  | nil => nofun
  | cons reading more ih =>
    intro hmem
    obtain ⟨front, rest, rfl, hrest, hfront⟩ := readings_eq_cons h
    rcases List.mem_cons.mp hmem with heq | hmem
    · rw [hfront c heq.symm]
      exact List.mem_append_left rest hb
    · exact List.mem_append_right front (ih hrest hmem)

/-- No ASCII character is read where its byte does not stand. -/
theorem ascii_mem_decodeLossy {b : UInt8} {bytes : List UInt8} (hb : b.toNat < 0x80)
    (h : Char.ofNat b.toNat ∈ decodeLossy bytes) : b ∈ bytes := by
  obtain ⟨reading, hmem, hread⟩ := List.mem_map.mp h
  cases reading with
  | none =>
    have hsame : replacement = Char.ofNat b.toNat := hread
    have hvalue : replacement.toNat = b.toNat := by rw [hsame, toNat_ofNat (by omega)]
    have hreplacement : replacement.toNat = 0xFFFD := rfl
    omega
  | some c =>
    have hc : c = Char.ofNat b.toNat := hread
    refine mem_of_mem_readings ?_ hmem
    rw [hc, encodeChar_one hb]
    exact List.mem_singleton_self b

/-! ## ASCII bytes -/

/-- What can still follow lies above ASCII. -/
def State.AboveAscii : State → Prop
  | .start => True
  | .inside _ _ low _ => 0x80 ≤ low

theorem State.aboveAscii_begin (b : Nat) : (State.begin b).2.AboveAscii := by
  unfold State.begin
  split
  · trivial
  · cases hs : State.ofLead? b with
    | none => trivial
    | some s => cases leadOf_of_ofLead? hs <;> first | exact Nat.le_refl _ | assumption

theorem State.aboveAscii_step (s : State) (b : Nat) : (s.step b).2.AboveAscii := by
  cases s with
  | start => exact State.aboveAscii_begin b
  | inside more value low high =>
    by_cases hb : low ≤ b ∧ b ≤ high
    · cases more with
      | zero => simp [State.step, hb, State.AboveAscii]
      | succ more => simp [State.step, hb, State.AboveAscii]
    · simpa [State.step, hb] using State.aboveAscii_begin b

theorem readingsFrom_cons (s : State) (b : UInt8) (rest : List UInt8) :
    readingsFrom s (b :: rest) = (s.step b.toNat).1 ++ readingsFrom (s.step b.toNat).2 rest := by
  cases s <;> rfl

/-- An ASCII byte ends whatever stands before it and is read by itself. -/
theorem readingsFrom_append_ascii {b : UInt8} (hb : b.toNat < 0x80) (rest : List UInt8) : ∀ (a : List UInt8) {s : State},
    s.AboveAscii → readingsFrom s (a ++ b :: rest) = readingsFrom s a ++ some (Char.ofNat b.toNat) :: readings rest := by
  intro a
  induction a with
  | nil =>
    intro s hs
    cases s with
    | start => exact readingsFrom_ascii rest hb
    | inside more value low high =>
      have hlow : 0x80 ≤ low := hs
      rw [List.nil_append, readingsFrom_refused rest (by omega), readings, readingsFrom_ascii rest hb]
      rfl
  | cons x a ih =>
    intro s _
    rw [List.cons_append, readingsFrom_cons, readingsFrom_cons, ih (s.aboveAscii_step x.toNat), List.append_assoc]

theorem decodeLossy_append_ascii {b : UInt8} (hb : b.toNat < 0x80) (a rest : List UInt8) :
    decodeLossy (a ++ b :: rest) = decodeLossy a ++ Char.ofNat b.toNat :: decodeLossy rest := by
  have hreadings : readings (a ++ b :: rest) = readings a ++ some (Char.ofNat b.toNat) :: readings rest :=
    readingsFrom_append_ascii hb rest a trivial
  simp [decodeLossy, hreadings]

/-- The pieces of the text are the texts of the pieces. -/
theorem splitOn_decodeLossy {b : UInt8} (hb : b.toNat < 0x80) (bytes : List UInt8) :
    (decodeLossy bytes).splitOn (Char.ofNat b.toNat) = (bytes.splitOn b).map decodeLossy :=
  Text.splitOn_map (decodeLossy_append_ascii hb) (fun _ h => ascii_mem_decodeLossy hb h) bytes

/-- The lines of repaired bytes are the repaired lines. -/
theorem splitOn_repair (bytes : List UInt8) : (repair bytes).splitOn 0x0A = (bytes.splitOn 0x0A).map repair := by
  have hlines : (decodeLossy bytes).splitOn '\n' = (bytes.splitOn 0x0A).map decodeLossy :=
    splitOn_decodeLossy (b := 0x0A) (by decide) bytes
  rw [repair, splitOn_encode, hlines, List.map_map]
  rfl

end HostTables.Utf8
