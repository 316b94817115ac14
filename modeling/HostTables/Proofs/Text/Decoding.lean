/-
  HostTables.Proofs.Text.Decoding — what any quoted value is decoded to, and why it is refused.

  A value is read from left to right in pieces (`Piece`): a character, or a backslash with what belongs to it. The
  decoder comes to a place when all pieces in front of it are complete (`Reads`). It stops where the value ends
  (`Ending`) or at an escape that cannot be read (`Fault`), and there is always such a place
  (`exists_stop`). A piece is turned into its bytes and a fault into its report
  (`bytesFrom_piece`, `bytesFrom_fault`), so the pieces in front of the place where the decoder stops give their
  bytes in order (`bytesFrom_reads`), and a fault is reported before anything is said about these bytes.

  `escapes_decoded_exactly`: the outcome for every input, as a relation that does not mention the decoder
  (`Outcome`); that bytes which are no UTF-8 come from an escape for a byte of 0x80 or more; and that without a
  backslash only the quotes around the value go.
-/
import HostTables.Proofs.Outcome
import HostTables.Proofs.Text.IllFormed
import HostTables.Proofs.Text.Quoted
import HostTables.Proofs.Text.Words

namespace HostTables.Quoted

/-! ## Reading from left to right -/

/-- The letters that ask for digits, and for how many. -/
def digitEscapes : List (Char × Nat) := [('x', 2), ('u', 4), ('U', 8)]

/-- A character or a complete escape, with the bytes it stands for. A letter that neither names a character
    nor asks for digits keeps its backslash. -/
inductive Piece : Text → List UInt8 → Prop
  | literal {c : Char} : c ≠ '\\' → Piece [c] (String.utf8EncodeChar c)
  | named {letter c : Char} : (letter, c) ∈ escapes → Piece ['\\', letter] (String.utf8EncodeChar c)
  | unknown {c : Char} : (∀ p ∈ escapes, p.1 ≠ c) → (∀ p ∈ digitEscapes, p.1 ≠ c) →
      Piece ['\\', c] (Utf8.encode ['\\', c])
  | byte {b : UInt8} {digits : Text} : Numeral 2 b.toNat digits → Piece ('\\' :: 'x' :: digits) [b]
  | short {c : Char} {digits : Text} : Numeral 4 c.toNat digits → Piece ('\\' :: 'u' :: digits) (String.utf8EncodeChar c)
  | long {c : Char} {digits : Text} : Numeral 8 c.toNat digits → Piece ('\\' :: 'U' :: digits) (String.utf8EncodeChar c)

/-- What is left of the text behind some complete pieces, which stand for the bytes. A quote at the very end closes
    the value and is no piece of it. -/
inductive Reads : Text → List UInt8 → Text → Prop
  | here (t : Text) : Reads t [] t
  | piece {s t rest : Text} {front bytes : List UInt8} : Piece s front → s ++ t ≠ ['"'] → Reads t bytes rest →
      Reads (s ++ t) (front ++ bytes) rest

/-- There is nothing more to read: a backslash at the very end is dropped. -/
inductive Ending : Text → Prop
  | nothing : Ending []
  | quote : Ending ['"']
  | backslash : Ending ['\\']

/-- The escape in front of the text is no piece: digits are missing, or they are those of a surrogate or of a number
    above all code points. -/
inductive Fault : Text → EscapeError → Prop
  | shortHex {letter : Char} {width : Nat} {rest : Text} : (letter, width) ∈ digitEscapes →
      (∀ value digits more, rest = digits ++ more → ¬ Numeral width value digits) →
      Fault ('\\' :: letter :: rest) (.shortHex letter width)
  | codePoint {letter : Char} {width value : Nat} {digits more : Text} : (letter, width) ∈ digitEscapes →
      letter ≠ 'x' → Numeral width value digits → (0xD800 ≤ value ∧ value ≤ 0xDFFF) ∨ 0x10FFFF < value →
      Fault ('\\' :: letter :: (digits ++ more)) (.invalidCodePoint value)

/-- One quote in front is no part of the value. -/
inductive Opened : Text → Text → Prop
  | quote (body : Text) : Opened ('"' :: body) body
  | bare {body : Text} : body.head? ≠ some '"' → Opened body body

/-- One quote at the end is no part of the value. -/
inductive Closed : Text → Text → Prop
  | quote (t : Text) : Closed (t ++ ['"']) t
  | bare {t : Text} : t.getLast? ≠ some '"' → Closed t t

/-- What decoding comes to. A fault is reported whatever the bytes in front of it are. -/
inductive Outcome (input : Text) : Except EscapeError Text → Prop
  | fault {body rest : Text} {bytes : List UInt8} {e : EscapeError} :
      Opened input body → Reads body bytes rest → Fault rest e → Outcome input (.error e)
  | illFormed {body rest : Text} {bytes : List UInt8} {offset : Nat} :
      Opened input body → Reads body bytes rest → Ending rest → ¬ Utf8.WellFormed bytes →
      Utf8.WellFormedFor bytes offset → Outcome input (.error (.invalidUtf8 offset))
  | text {body rest t : Text} : Opened input body → Reads body (Utf8.encode t) rest → Ending rest → Outcome input (.ok t)

variable {input body t rest s : Text} {front bytes : List UInt8}

/-! ## Letters and digits -/

theorem digit_of_hexDigit? {c : Char} {value : Nat} (h : hexDigit? c = some value) : Digit c value := by
  have hlow : c.toNat < 128 := by
    have hzero : '9'.toNat = 57 := rfl
    have hlower : 'f'.toNat = 102 := rfl
    have hupper : 'F'.toNat = 70 := rfl
    unfold hexDigit? at h
    simp only [Char.le_def, UInt32.le_iff_toNat_le] at h
    simp only [Char.toNat] at *
    split at h
    · omega
    split at h
    · omega
    split at h
    · omega
    · cases h
  have hall : ∀ n < 128, ∀ value ∈ (hexDigit? (Char.ofNat n)).toList,
      lowerDigits[value]? = some (Char.ofNat n) ∨ upperDigits[value]? = some (Char.ofNat n) := by decide
  have hdigit := Text.forall_ascii (P := fun c => ∀ value ∈ (hexDigit? c).toList, Digit c value) hall hlow
  exact hdigit value (Option.mem_toList.mpr h)

theorem mem_escapes_of_named? {letter c : Char} (h : named? letter = some c) : (letter, c) ∈ escapes := by
  unfold named? at h
  split at h
  all_goals cases h
  all_goals decide

theorem letter_of_ofLetter? {letter : Char} {kind : HexEscape} (h : HexEscape.ofLetter? letter = some kind) :
    letter = kind.letter := by
  unfold HexEscape.ofLetter? at h
  split at h
  all_goals cases h
  all_goals rfl

theorem mem_digitEscapes (kind : HexEscape) : (kind.letter, kind.digits) ∈ digitEscapes := by
  cases kind <;> decide

/-- The letters that ask for digits are those of the escapes with digits. -/
theorem exists_kind {letter : Char} {width : Nat} (h : (letter, width) ∈ digitEscapes) :
    ∃ kind : HexEscape, letter = kind.letter ∧ width = kind.digits := by
  simp only [digitEscapes, List.mem_cons, Prod.mk.injEq, List.not_mem_nil, or_false] at h
  rcases h with ⟨rfl, rfl⟩ | ⟨rfl, rfl⟩ | ⟨rfl, rfl⟩
  · exact ⟨.byte, rfl, rfl⟩
  · exact ⟨.short, rfl, rfl⟩
  · exact ⟨.long, rfl, rfl⟩

/-! ## One step -/

/-- A piece in front is turned into its bytes. -/
theorem bytesFrom_piece (h : Piece s front) (hopen : s ++ t ≠ ['"']) :
    bytesFrom .literal (s ++ t) = (front ++ ·) <$> bytesFrom .literal t := by
  cases h with
  | @literal c hc =>
    have hquote : ¬ (c = '"' ∧ t = []) := by
      rintro ⟨rfl, rfl⟩
      exact hopen rfl
    simp only [List.singleton_append, bytesFrom, hquote, hc, if_false]
    cases bytesFrom .literal t <;> rfl
  | @named letter c hl =>
    obtain ⟨hletter, hnamed, -⟩ := named_of_mem _ hl
    have hplain : plainEscape letter = String.utf8EncodeChar c := by simp [plainEscape, hnamed, Utf8.encode]
    rw [← hplain]
    exact bytesFrom_plain hletter t
  | @unknown c hname hdigits =>
    have hletter : HexEscape.ofLetter? c = none := by
      refine Option.eq_none_iff_forall_ne_some.mpr fun kind hkind => ?_
      exact hdigits _ (mem_digitEscapes kind) (letter_of_ofLetter? hkind).symm
    have hnamed : named? c = none :=
      Option.eq_none_iff_forall_ne_some.mpr fun d hd => hname _ (mem_escapes_of_named? hd) rfl
    have hplain : plainEscape c = Utf8.encode ['\\', c] := by simp [plainEscape, hnamed]
    rw [← hplain]
    exact bytesFrom_plain hletter t
  | @byte b _ hb => exact bytesFrom_hex_ok .byte hb (bytes_of_byte b) t
  | @short c _ hc => exact bytesFrom_hex_ok .short hc (bytes_of_char (by decide) c) t
  | @long c _ hc => exact bytesFrom_hex_ok .long hc (bytes_of_char (by decide) c) t

/-- Where a digit is missing, however many are there, the escape is short. -/
theorem bytesFrom_short (kind : HexEscape) {missing : Nat} : ∀ {before : Nat} {t : Text},
    (∀ value digits more, t = digits ++ more → ¬ Numeral (missing + 1) value digits) →
    bytesFrom (.hex kind missing before) t = .error (.shortHex kind.letter kind.digits) := by
  induction missing with
  | zero =>
    intro before t h
    cases t with
    | nil => rfl
    | cons c t =>
      have hdigit : hexDigit? c = none := by
        refine Option.eq_none_iff_forall_ne_some.mpr fun digit hdigit => ?_
        exact h _ [c] t rfl (.cons (digit_of_hexDigit? hdigit) .nil)
      simp only [bytesFrom, hdigit]
  | succ missing ih =>
    intro before t h
    cases t with
    | nil => rfl
    | cons c t =>
      cases hdigit : hexDigit? c with
      | none => simp only [bytesFrom, hdigit]
      | some digit =>
        simp only [bytesFrom, hdigit]
        refine ih fun value digits more ht hdigits => ?_
        exact h _ (c :: digits) more (ht ▸ rfl) (.cons (digit_of_hexDigit? hdigit) hdigits)

theorem bytesFrom_fault {e : EscapeError} (h : Fault t e) : bytesFrom .literal t = .error e := by
  cases h with
  | shortHex hmem hshort =>
    obtain ⟨kind, rfl, rfl⟩ := exists_kind hmem
    have hdigits : kind.digits - 1 + 1 = kind.digits := by cases kind <;> rfl
    rw [bytesFrom_escape]
    exact bytesFrom_short kind (hdigits.symm ▸ hshort)
  | @codePoint _ _ value digits more hmem hletter hnumeral hvalue =>
    obtain ⟨kind, rfl, rfl⟩ := exists_kind hmem
    have hinvalid : ¬ value.isValidChar := by
      unfold Nat.isValidChar
      omega
    have hbytes : kind.bytes value = .error (.invalidCodePoint value) := by
      cases kind with
      | byte => exact absurd rfl hletter
      | short => simp [HexEscape.bytes, hinvalid]
      | long => simp [HexEscape.bytes, hinvalid]
    have hhex := bytesFrom_hex kind hnumeral more
    rw [hbytes] at hhex
    exact hhex

theorem bytesFrom_ending (h : Ending t) : bytesFrom .literal t = .ok [] := by
  cases h <;> rfl

/-! ## Runs -/

/-- The pieces in front give their bytes, whatever is behind them. -/
theorem bytesFrom_reads (h : Reads t bytes rest) : bytesFrom .literal t = (bytes ++ ·) <$> bytesFrom .literal rest := by
  induction h with
  | here t => cases bytesFrom .literal t <;> rfl
  | piece hpiece hopen _ ih =>
    rw [bytesFrom_piece hpiece hopen, ih, Functor.map_map]
    simp only [List.append_assoc]

theorem digit_lt {c : Char} {value : Nat} (h : Digit c value) : value < 16 := by
  rcases h with h | h
  · exact (List.getElem?_eq_some_iff.mp h).1
  · exact (List.getElem?_eq_some_iff.mp h).1

theorem numeral_lt {width value : Nat} {digits : Text} (h : Numeral width value digits) : value < 16 ^ width := by
  induction h with
  | nil => decide
  | @cons c digit width value t hd _ ih =>
    have hdigit : digit ≤ 15 := Nat.le_of_lt_succ (digit_lt hd)
    calc digit * 16 ^ width + value < 15 * 16 ^ width + 16 ^ width :=
          Nat.add_lt_add_of_le_of_lt (Nat.mul_le_mul_right _ hdigit) ih
      _ = 16 ^ (width + 1) := by rw [Nat.pow_succ]; omega

theorem length_numeral {width value : Nat} {digits : Text} (h : Numeral width value digits) : digits.length = width := by
  induction h with
  | nil => rfl
  | cons _ _ ih => rw [List.length_cons, ih]

/-- An escape that asks for digits is complete or cannot be read. -/
theorem exists_hex {letter : Char} {width : Nat} (hmem : (letter, width) ∈ digitEscapes) (t : Text) :
    (∃ e, Fault ('\\' :: letter :: t) e) ∨
      ∃ digits front more, t = digits ++ more ∧ Piece ('\\' :: letter :: digits) front := by
  by_cases hdigits : ∃ value digits more, t = digits ++ more ∧ Numeral width value digits
  · obtain ⟨value, digits, more, rfl, hnumeral⟩ := hdigits
    by_cases hvalue : value.isValidChar
    · have hc : (Char.ofNat value).toNat = value := Utf8.toNat_ofNat hvalue
      rw [← hc] at hnumeral
      obtain ⟨kind, rfl, rfl⟩ := exists_kind hmem
      cases kind with
      | byte =>
        have hb : (UInt8.ofNat value).toNat = value := UInt8.toNat_ofNat_of_lt (hc ▸ numeral_lt hnumeral)
        exact Or.inr ⟨digits, _, more, rfl, .byte (hb.symm ▸ hc ▸ hnumeral)⟩
      | short => exact Or.inr ⟨digits, _, more, rfl, .short hnumeral⟩
      | long => exact Or.inr ⟨digits, _, more, rfl, .long hnumeral⟩
    · unfold Nat.isValidChar at hvalue
      refine Or.inl ⟨_, .codePoint hmem ?_ hnumeral (by omega)⟩
      -- A byte is below the surrogates.
      rintro rfl
      obtain ⟨kind, hkind, rfl⟩ := exists_kind hmem
      have hlt := numeral_lt hnumeral
      cases kind with
      | byte => exact absurd hlt (by show ¬ value < 256; omega)
      | short => cases hkind
      | long => cases hkind
  · refine Or.inl ⟨_, .shortHex hmem fun value digits more ht hnumeral => ?_⟩
    exact hdigits ⟨value, digits, more, ht, hnumeral⟩

/-- In front of a text there is a piece, unless it ends or an escape cannot be read. -/
theorem exists_front (t : Text) : Ending t ∨ (∃ e, Fault t e) ∨
    ∃ s front more, t = s ++ more ∧ s ≠ [] ∧ s ++ more ≠ ['"'] ∧ Piece s front := by
  by_cases hquote : t = ['"']
  · exact Or.inl (hquote ▸ .quote)
  match t with
  | [] => exact Or.inl .nothing
  | c :: more =>
    by_cases hc : c = '\\'
    · subst hc
      match more with
      | [] => exact Or.inl .backslash
      | letter :: more =>
        by_cases hdigits : ∃ width, (letter, width) ∈ digitEscapes
        · obtain ⟨width, hmem⟩ := hdigits
          rcases exists_hex hmem more with hfault | ⟨digits, front, more, rfl, hpiece⟩
          · exact Or.inr (Or.inl hfault)
          · exact Or.inr (Or.inr ⟨'\\' :: letter :: digits, front, more, rfl, List.cons_ne_nil _ _, hquote, hpiece⟩)
        · have hpiece : ∃ front, Piece ['\\', letter] front := by
            by_cases hnamed : ∃ c, (letter, c) ∈ escapes
            · obtain ⟨c, hc⟩ := hnamed
              exact ⟨_, .named hc⟩
            · refine ⟨_, .unknown ?_ ?_⟩
              · rintro ⟨_, c⟩ hmem rfl
                exact hnamed ⟨c, hmem⟩
              · rintro ⟨_, width⟩ hmem rfl
                exact hdigits ⟨width, hmem⟩
          obtain ⟨front, hpiece⟩ := hpiece
          exact Or.inr (Or.inr ⟨['\\', letter], front, more, rfl, List.cons_ne_nil _ _, hquote, hpiece⟩)
    · exact Or.inr (Or.inr ⟨[c], _, more, rfl, List.cons_ne_nil _ _, hquote, .literal hc⟩)

/-- The decoder comes to the end of the value or to a fault. -/
theorem exists_stop (t : Text) : ∃ bytes rest, Reads t bytes rest ∧ (Ending rest ∨ ∃ e, Fault rest e) := by
  induction hn : t.length using Nat.strongRecOn generalizing t with
  | _ n ih =>
    rcases exists_front t with hend | hfault | ⟨s, front, more, rfl, hne, hopen, hpiece⟩
    · exact ⟨[], t, .here t, Or.inl hend⟩
    · exact ⟨[], t, .here t, Or.inr hfault⟩
    · have hpos : 0 < s.length := List.length_pos_iff.mpr hne
      obtain ⟨bytes, rest, hreads, hstop⟩ := ih more.length (by rw [← hn, List.length_append]; omega) more rfl
      exact ⟨front ++ bytes, rest, .piece hpiece hopen hreads, hstop⟩

/-! ## Bytes that are no UTF-8 -/

/-- No escape for a byte stands for one beyond ASCII. -/
def AsciiEscapes (t : Text) : Prop := ∀ (before : List UInt8) (b : UInt8) (digits more : Text),
  Reads t before ('\\' :: 'x' :: digits ++ more) → Numeral 2 b.toNat digits → b.toNat < 0x80

/-- All other pieces give the bytes of characters. -/
theorem wellFormed_of_reads (h : Reads t bytes rest) (hascii : AsciiEscapes t) : Utf8.WellFormed bytes := by
  induction h with
  | here t => exact ⟨[], rfl⟩
  | @piece s t rest front bytes hpiece hopen _ ih =>
    have hmore : Utf8.WellFormed bytes :=
      ih fun before b digits more hreads => hascii _ b digits more (.piece hpiece hopen hreads)
    have hchar : ∀ c : Char, Utf8.WellFormed (String.utf8EncodeChar c) := fun c => ⟨[c], List.flatMap_singleton _ _⟩
    refine Utf8.wellFormed_append ?_ hmore
    cases hpiece with
    | @literal c _ => exact hchar c
    | @named _ c _ => exact hchar c
    | @unknown c _ _ => exact ⟨['\\', c], rfl⟩
    | @byte b _ hb => exact Utf8.encodeChar_one (hascii [] b _ t (.here _) hb) ▸ hchar _
    | @short c _ _ => exact hchar c
    | @long c _ _ => exact hchar c

/-! ## Outcomes -/

theorem dropOpening_of_opened (h : Opened input body) : dropOpening input = body := by
  cases h with
  | quote => rfl
  | bare hhead =>
    unfold dropOpening
    split
    · exact absurd rfl hhead
    · rfl

theorem opened_dropOpening (input : Text) : Opened input (dropOpening input) := by
  unfold dropOpening
  split
  · exact .quote _
  · rename_i hhead
    refine .bare fun h => ?_
    obtain ⟨rest, rfl⟩ := List.head?_eq_some_iff.mp h
    exact hhead rest rfl

theorem mem_of_opened {c : Char} (h : Opened input body) (hc : c ∈ body) : c ∈ input := by
  cases h with
  | quote => exact List.mem_cons_of_mem _ hc
  | bare => exact hc

theorem decode_of_fault {e : EscapeError} (hopened : Opened input body) (hreads : Reads body bytes rest)
    (h : Fault rest e) : decode input = .error e := by
  rw [decode, Quoted.bytes, dropOpening_of_opened hopened, bytesFrom_reads hreads, bytesFrom_fault h]
  rfl

theorem decode_of_ending (hopened : Opened input body) (hreads : Reads body bytes rest) (h : Ending rest) :
    decode input = (Utf8.decode? bytes).mapError EscapeError.invalidUtf8 := by
  have hbytes : Quoted.bytes input = .ok bytes := by
    rw [Quoted.bytes, dropOpening_of_opened hopened, bytesFrom_reads hreads, bytesFrom_ending h]
    simp [Functor.map, Except.map]
  rw [decode, hbytes, ok_bind]
  cases Utf8.decode? bytes <;> rfl

theorem decode_of_outcome {result : Except EscapeError Text} (h : Outcome input result) : decode input = result := by
  cases h with
  | fault hopened hreads hfault => exact decode_of_fault hopened hreads hfault
  | illFormed hopened hreads hend hill hoffset =>
    rw [decode_of_ending hopened hreads hend, Utf8.decode?_eq_error_iff.mpr ⟨hill, hoffset⟩]
    rfl
  | text hopened hreads hend =>
    rw [decode_of_ending hopened hreads hend, Utf8.decode?_encode]
    rfl

theorem exists_outcome (input : Text) : ∃ result, Outcome input result := by
  have hopened := opened_dropOpening input
  obtain ⟨bytes, rest, hreads, hend | ⟨e, hfault⟩⟩ := exists_stop (dropOpening input)
  · cases h : Utf8.decode? bytes with
    | ok t =>
      rw [← Utf8.decode?_eq_ok_iff.mp h] at hreads
      exact ⟨_, .text hopened hreads hend⟩
    | error offset =>
      obtain ⟨hill, hoffset⟩ := Utf8.decode?_eq_error_iff.mp h
      exact ⟨_, .illFormed hopened hreads hend hill hoffset⟩
  · exact ⟨_, .fault hopened hreads hfault⟩

theorem decode_eq_iff {result : Except EscapeError Text} : decode input = result ↔ Outcome input result := by
  constructor
  · rintro rfl
    obtain ⟨result, h⟩ := exists_outcome input
    rwa [decode_of_outcome h]
  · exact decode_of_outcome

/-- Without a backslash every character is a piece, but for a quote that closes the value. -/
theorem reads_of_not_mem (hback : '\\' ∉ t) (hlast : rest = [] → t.getLast? ≠ some '"') :
    Reads (t ++ rest) (Utf8.encode t) rest := by
  induction t with
  | nil => exact .here rest
  | cons c t ih =>
    obtain ⟨hc, hback⟩ := List.ne_and_not_mem_of_not_mem_cons hback
    have hopen : [c] ++ (t ++ rest) ≠ ['"'] := by
      intro h
      simp only [List.singleton_append, List.cons.injEq, List.append_eq_nil_iff] at h
      obtain ⟨rfl, rfl, hrest⟩ := h
      exact hlast hrest rfl
    have hmore : Reads (t ++ rest) (Utf8.encode t) rest := by
      refine ih hback fun hrest hquote => hlast hrest ?_
      rw [List.getLast?_cons, hquote]
      rfl
    rw [Utf8.encode_cons]
    show Reads ([c] ++ (t ++ rest)) _ rest
    exact .piece (.literal (Ne.symm hc)) hopen hmore

theorem exists_closed (body : Text) : ∃ t, Closed body t := by
  by_cases hquote : body.getLast? = some '"'
  · obtain ⟨t, rfl⟩ := List.getLast?_eq_some_iff.mp hquote
    exact ⟨t, .quote t⟩
  · exact ⟨body, .bare hquote⟩

theorem outcome_of_closed (hopened : Opened input body) (hclosed : Closed body t) (hback : '\\' ∉ body) :
    Outcome input (.ok t) := by
  cases hclosed with
  | quote t =>
    have ht : '\\' ∉ t := fun h => hback (List.mem_append_left _ h)
    exact .text hopened (reads_of_not_mem ht nofun) .quote
  | bare hlast =>
    have hreads : Reads (body ++ []) (Utf8.encode body) [] := reads_of_not_mem hback fun _ => hlast
    rw [List.append_nil] at hreads
    exact .text hopened hreads .nothing

/-- Every input has one outcome: the leftmost escape that cannot be read is reported, whatever the bytes
    in front of it are; without one, the bytes of all pieces have to be UTF-8. They are, unless some escape for
    a byte stands for one beyond ASCII. Without a backslash the value is what stands between its quotes. -/
theorem escapes_decoded_exactly :
    (∀ input result, decode input = result ↔ Outcome input result) ∧
    (∀ input body offset, Opened input body → AsciiEscapes body → decode input ≠ .error (.invalidUtf8 offset)) ∧
    (∀ input, '\\' ∉ input → ∃ body t, Opened input body ∧ Closed body t ∧ decode input = .ok t) := by
  refine ⟨fun _ _ => decode_eq_iff, ?_, ?_⟩
  · intro input body offset hopened hascii h
    cases decode_eq_iff.mp h with
    | fault _ _ hfault => cases hfault
    | illFormed hopened' hreads _ hill _ =>
      rw [← dropOpening_of_opened hopened', dropOpening_of_opened hopened] at hreads
      exact hill (wellFormed_of_reads hreads hascii)
  · intro input hback
    obtain ⟨t, hclosed⟩ := exists_closed (dropOpening input)
    have hopened := opened_dropOpening input
    have hbody : '\\' ∉ dropOpening input := fun h => hback (mem_of_opened hopened h)
    exact ⟨dropOpening input, t, hopened, hclosed, decode_of_outcome (outcome_of_closed hopened hclosed hbody)⟩

theorem suffix_of_reads (h : Reads t bytes rest) : rest <:+ t := by
  induction h with
  | here t => exact List.suffix_refl t
  | piece _ _ _ ih => exact ih.trans (List.suffix_append _ _)

/-- A byte that is no UTF-8, and then a code point of which two digits are missing. -/
def tornValue : Text := "\"\\xff\\u12é".toList

/-- A backslash in front of a character of two bytes, and the last byte of ASCII. -/
def keptBackslash : Text := "\"\\é\\x7f".toList

theorem keptBackslash_ascii : AsciiEscapes "\\é\\x7f".toList := by
  intro before b digits more hreads hb
  have hdigits : digits ++ more = ['7', 'f'] := by
    simpa [List.suffix_cons_iff] using suffix_of_reads hreads
  generalize b.toNat = value at hb ⊢
  cases hb with
  | @cons c high _ _ _ hhigh hb =>
    cases hb with
    | cons hlow hb =>
      cases hb
      obtain ⟨rfl, -⟩ := List.cons.inj hdigits
      have hseven : some 7 = some high := hexDigit?_of_digit hhigh
      have hlast := digit_lt hlow
      cases hseven
      omega

/-- The missing digits are reported and not the byte; a backslash that is kept does no harm; and of three quotes at the
    ends one is taken off on each side. -/
theorem awkward_values_decoded :
    decode tornValue = .error (.shortHex 'u' 4) ∧
    (AsciiEscapes "\\é\\x7f".toList ∧ ∀ offset, decode keptBackslash ≠ .error (.invalidUtf8 offset)) ∧
    ('\\' ∉ "\"say \"hi\"\"".toList ∧
      ∃ body t, Opened "\"say \"hi\"\"".toList body ∧ Closed body t ∧ decode "\"say \"hi\"\"".toList = .ok t) := by
  obtain ⟨outcomes, ascii, bare⟩ := escapes_decoded_exactly
  refine ⟨(outcomes _ _).mpr ?_, ⟨keptBackslash_ascii, ?_⟩, by decide, bare _ (by decide)⟩
  · have hbyte : Numeral 2 (0xFF : UInt8).toNat ['f', 'f'] :=
      show Numeral 2 (15 * 16 ^ 1 + (15 * 16 ^ 0 + 0)) _ from .cons (.inl rfl) (.cons (.inl rfl) .nil)
    have hreads : Reads "\\xff\\u12é".toList [0xFF] "\\u12é".toList :=
      .piece (.byte hbyte) (by decide) (.here _)
    refine .fault (.quote _) hreads (.shortHex (by decide) ?_)
    intro value digits more ht hdigits
    have hlength := congrArg List.length ht
    rw [List.length_append, length_numeral hdigits] at hlength
    exact absurd hlength (by show ¬ 3 = 4 + more.length; omega)
  · intro offset
    exact ascii _ _ offset (.quote _) keptBackslash_ascii

end HostTables.Quoted
