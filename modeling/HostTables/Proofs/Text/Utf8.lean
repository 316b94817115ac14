/-
  HostTables.Proofs.Text.Utf8 — text survives being written as UTF-8 and read back.

  The machine reads the bytes of a character to their end and is then between two characters
  again (`readings_char`): the lead byte tells how many bytes follow and how far the second one
  may range (`ofLead?_two`, `ofLead?_three`, `ofLead?_four`), and each later byte adds six bits.
  Hence the bytes of a text are read as that text (`readings_encode`, `decode?_encode`, `decodeLossy_encode`). The byte
  of an ASCII character is in no other character (`ascii_mem_encodeChar`), so bytes are cut into lines where
  the text is (`splitOn_encode`).
-/
import HostTables.Proofs.Text.Fields
import HostTables.Text.Utf8

namespace HostTables.Utf8

/-! ## Single steps -/

theorem readingsFrom_ascii {b : UInt8} (rest : List UInt8) (hb : b.toNat < 0x80) :
    readingsFrom .start (b :: rest) = some (Char.ofNat b.toNat) :: readingsFrom .start rest := by
  simp [readingsFrom, State.step, State.begin, hb]

theorem readingsFrom_lead {b : UInt8} {s : State} (rest : List UInt8) (hb : 0x80 ≤ b.toNat)
    (hs : State.ofLead? b.toNat = some s) : readingsFrom .start (b :: rest) = readingsFrom s rest := by
  simp [readingsFrom, State.step, State.begin, hs, Nat.not_lt.mpr hb]

theorem readingsFrom_last {b : UInt8} {value low high : Nat} (rest : List UInt8) (hl : low ≤ b.toNat)
    (hh : b.toNat ≤ high) :
    readingsFrom (.inside 0 value low high) (b :: rest) =
      some (Char.ofNat (value * 64 + (b.toNat - 0x80))) :: readingsFrom .start rest := by
  simp [readingsFrom, State.step, hl, hh]

theorem readingsFrom_more {b : UInt8} {more value low high : Nat} (rest : List UInt8) (hl : low ≤ b.toNat)
    (hh : b.toNat ≤ high) :
    readingsFrom (.inside (more + 1) value low high) (b :: rest) =
      readingsFrom (.inside more (value * 64 + (b.toNat - 0x80)) 0x80 0xBF) rest := by
  simp [readingsFrom, State.step, hl, hh]

/-! ## Lead bytes -/

theorem ofLead?_two {v : Nat} (hl : 0x80 ≤ v) (hh : v ≤ 0x7FF) :
    State.ofLead? (v / 64 % 0x20 + 0xC0) = some (.inside 0 (v / 64) 0x80 0xBF) := by
  have hvalue : v / 64 % 0x20 + 0xC0 - 0xC0 = v / 64 := by omega
  rw [State.ofLead?, if_pos (by omega), hvalue]

/-- The second byte of three fits the range of its lead byte: no overlong form, no surrogate. -/
theorem ofLead?_three {v : Nat} (hl : 0x800 ≤ v) (hh : v ≤ 0xFFFF) (hs : v < 0xD800 ∨ 0xDFFF < v) :
    ∃ low high, State.ofLead? (v / 4096 % 0x10 + 0xE0) = some (.inside 1 (v / 4096) low high) ∧
      low ≤ v / 64 % 0x40 + 0x80 ∧ v / 64 % 0x40 + 0x80 ≤ high := by
  unfold State.ofLead?
  rw [if_neg (by omega)]
  by_cases h0 : v / 4096 = 0
  · refine ⟨0xA0, 0xBF, ?_, by omega, by omega⟩
    rw [if_pos (by omega), h0]
  · rw [if_neg (by omega)]
    by_cases hd : v / 4096 = 0xD
    · refine ⟨0x80, 0x9F, ?_, by omega, by omega⟩
      rw [if_pos (by omega), hd]
    · have hvalue : v / 4096 % 0x10 + 0xE0 - 0xE0 = v / 4096 := by omega
      refine ⟨0x80, 0xBF, ?_, by omega, by omega⟩
      rw [if_neg (by omega), if_pos (by omega), hvalue]

/-- The second byte of four fits the range of its lead byte: no overlong form, nothing too large. -/
theorem ofLead?_four {v : Nat} (hl : 0x10000 ≤ v) (hh : v < 0x110000) :
    ∃ low high, State.ofLead? (v / 262144 % 0x08 + 0xF0) = some (.inside 2 (v / 262144) low high) ∧
      low ≤ v / 4096 % 0x40 + 0x80 ∧ v / 4096 % 0x40 + 0x80 ≤ high := by
  unfold State.ofLead?
  rw [if_neg (by omega), if_neg (by omega), if_neg (by omega), if_neg (by omega)]
  by_cases h0 : v / 262144 = 0
  · refine ⟨0x90, 0xBF, ?_, by omega, by omega⟩
    rw [if_pos (by omega), h0]
  · rw [if_neg (by omega)]
    by_cases h4 : v / 262144 = 4
    · refine ⟨0x80, 0x8F, ?_, by omega, by omega⟩
      rw [if_neg (by omega), if_pos (by omega), h4]
    · have hvalue : v / 262144 % 0x08 + 0xF0 - 0xF0 = v / 262144 := by omega
      refine ⟨0x80, 0xBF, ?_, by omega, by omega⟩
      rw [if_pos (by omega), hvalue]

/-! ## Characters and texts -/

theorem toNat_valid (c : Char) : c.toNat < 0xD800 ∨ 0xDFFF < c.toNat ∧ c.toNat < 0x110000 := c.valid

/-- The bytes of a character are read as it, whatever follows them. -/
theorem readings_char (c : Char) (rest : List UInt8) :
    readingsFrom .start (String.utf8EncodeChar c ++ rest) = some c :: readingsFrom .start rest := by
  have hvalid := toNat_valid c
  have hc : Char.ofNat c.toNat = c := Char.ofNat_toNat c
  have hbyte : ∀ n, n < 256 → (UInt8.ofNat n).toNat = n := fun n hn => UInt8.toNat_ofNat_of_lt hn
  rw [String.utf8EncodeChar, show c.val.toNat = c.toNat from rfl]
  generalize c.toNat = v at hvalid hc
  have hlast := hbyte (v % 0x40 + 0x80) (by omega)
  have hsecond := hbyte (v / 64 % 0x40 + 0x80) (by omega)
  by_cases h1 : v ≤ 0x7F
  · have hone := hbyte v (by omega)
    rw [if_pos h1, List.singleton_append, readingsFrom_ascii rest (by omega), hone, hc]
  rw [if_neg h1]
  by_cases h2 : v ≤ 0x7FF
  · have hlead := hbyte (v / 64 % 0x20 + 0xC0) (by omega)
    have hvalue : v / 64 * 64 + (v % 0x40 + 0x80 - 0x80) = v := by omega
    rw [if_pos h2, List.cons_append, List.singleton_append]
    rw [readingsFrom_lead _ (by omega) (hlead ▸ ofLead?_two (by omega) h2)]
    rw [readingsFrom_last rest (by omega) (by omega), hlast, hvalue, hc]
  rw [if_neg h2]
  by_cases h3 : v ≤ 0xFFFF
  · have hlead := hbyte (v / 4096 % 0x10 + 0xE0) (by omega)
    have hvalue : (v / 4096 * 64 + (v / 64 % 0x40 + 0x80 - 0x80)) * 64 + (v % 0x40 + 0x80 - 0x80) = v := by omega
    obtain ⟨low, high, hs, hlow, hhigh⟩ := ofLead?_three (v := v) (by omega) h3 (by omega)
    rw [if_pos h3, List.cons_append, List.cons_append, List.singleton_append]
    rw [readingsFrom_lead _ (by omega) (hlead ▸ hs), readingsFrom_more _ (by omega) (by omega)]
    rw [readingsFrom_last rest (by omega) (by omega), hsecond, hlast, hvalue, hc]
  · have hlead := hbyte (v / 262144 % 0x08 + 0xF0) (by omega)
    have hthird := hbyte (v / 4096 % 0x40 + 0x80) (by omega)
    have hvalue : ((v / 262144 * 64 + (v / 4096 % 0x40 + 0x80 - 0x80)) * 64 + (v / 64 % 0x40 + 0x80 - 0x80)) * 64 +
        (v % 0x40 + 0x80 - 0x80) = v := by omega
    obtain ⟨low, high, hs, hlow, hhigh⟩ := ofLead?_four (v := v) (by omega) (by omega)
    rw [if_neg h3, List.cons_append, List.cons_append, List.cons_append, List.singleton_append]
    rw [readingsFrom_lead _ (by omega) (hlead ▸ hs), readingsFrom_more _ (by omega) (by omega)]
    rw [readingsFrom_more _ (by omega) (by omega), readingsFrom_last rest (by omega) (by omega)]
    rw [hthird, hsecond, hlast, hvalue, hc]

theorem encode_cons (c : Char) (t : Text) : encode (c :: t) = String.utf8EncodeChar c ++ encode t := List.flatMap_cons

theorem encode_append (t u : Text) : encode (t ++ u) = encode t ++ encode u := List.flatMap_append

theorem readings_encode_append (t : Text) (rest : List UInt8) :
    readings (encode t ++ rest) = t.map some ++ readings rest := by
  induction t with
  | nil => rfl
  | cons c t ih =>
    rw [encode_cons, List.append_assoc, readings, readings_char]
    exact congrArg (some c :: ·) ih

theorem readings_encode (t : Text) : readings (encode t) = t.map some := by
  have hreadings := readings_encode_append t []
  rwa [List.append_nil, show readings [] = [] from rfl, List.append_nil] at hreadings

theorem decode?_encode (t : Text) : decode? (encode t) = .ok t := by
  have hall : (t.map some).all Option.isSome = true := by simp
  have htext : (t.map some).filterMap id = t := by simp
  simp only [decode?, readings_encode, hall, htext, if_true]

theorem decodeLossy_encode (t : Text) : decodeLossy (encode t) = t := by
  simp [decodeLossy, readings_encode, Function.comp_def]

/-! ## ASCII -/

theorem encodeChar_of_ascii {c : Char} (h : c.toNat < 0x80) : String.utf8EncodeChar c = [UInt8.ofNat c.toNat] := by
  rw [String.utf8EncodeChar, show c.val.toNat = c.toNat from rfl, if_pos (by omega)]

/-- Beyond ASCII all bytes lie above 0x7F. -/
theorem le_of_mem_encodeChar {c : Char} {b : UInt8} (hc : 0x80 ≤ c.toNat) (hb : b ∈ String.utf8EncodeChar c) :
    0x80 ≤ b.toNat := by
  have hbyte : ∀ n, 0x80 ≤ n → n < 256 → b = UInt8.ofNat n → 0x80 ≤ b.toNat := by
    rintro n hle hlt rfl
    rwa [UInt8.toNat_ofNat_of_lt' hlt]
  rw [String.utf8EncodeChar, show c.val.toNat = c.toNat from rfl, if_neg (by omega)] at hb
  split at hb
  · simp only [List.mem_cons, List.not_mem_nil, or_false] at hb
    rcases hb with hb | hb
    all_goals exact hbyte _ (by omega) (by omega) hb
  · split at hb
    all_goals simp only [List.mem_cons, List.not_mem_nil, or_false] at hb
    · rcases hb with hb | hb | hb
      all_goals exact hbyte _ (by omega) (by omega) hb
    · rcases hb with hb | hb | hb | hb
      all_goals exact hbyte _ (by omega) (by omega) hb

/-- The byte of an ASCII character is in no other character. -/
theorem ascii_mem_encodeChar {a c : Char} (ha : a.toNat < 0x80) :
    UInt8.ofNat a.toNat ∈ String.utf8EncodeChar c ↔ c = a := by
  have hsize : 0x80 ≤ UInt8.size := by decide
  have hbyte : (UInt8.ofNat a.toNat).toNat = a.toNat := UInt8.toNat_ofNat_of_lt' (by omega)
  constructor
  · intro h
    rcases Nat.lt_or_ge c.toNat 0x80 with hc | hc
    · rw [encodeChar_of_ascii hc, List.mem_singleton] at h
      rw [h, UInt8.toNat_ofNat_of_lt' (by omega)] at hbyte
      exact Char.toNat_inj.mp hbyte
    · have hle := le_of_mem_encodeChar hc h
      omega
  · rintro rfl
    rw [encodeChar_of_ascii ha]
    exact List.mem_singleton_self _

/-! ## Lines -/

theorem lineFeed_mem_char (c : Char) : 0x0A ∈ String.utf8EncodeChar c ↔ c = '\n' :=
  ascii_mem_encodeChar (show '\n'.toNat < 0x80 by decide)

theorem lineFeed_mem_encode (t : Text) : 0x0A ∈ encode t ↔ '\n' ∈ t := by
  simp [encode, List.mem_flatMap, lineFeed_mem_char]

/-- The lines of the bytes are the bytes of the lines. -/
theorem splitOn_encode (t : Text) : (encode t).splitOn 0x0A = (t.splitOn '\n').map encode := by
  have hjoin : ∀ a rest : Text, encode (a ++ '\n' :: rest) = encode a ++ 0x0A :: encode rest := by
    intro a rest
    rw [encode_append, encode_cons]
    rfl
  exact Text.splitOn_map hjoin (fun a => (lineFeed_mem_encode a).mp) t

end HostTables.Utf8
