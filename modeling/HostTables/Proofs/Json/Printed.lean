/-
  HostTables.Proofs.Json.Printed — the printer writes JSON, in every layout.

  A printed value stands in front of any text that a bare word may not go on into, and is cut
  into the tokens of what it stands for (`Json.Prints`). One lemma for each kind of value, so a
  value built from parts is settled by its parts:
  - integers: the shortest numeral is a JSON number (`number?_ofInt`) and no other word;
  - strings: every character is read back from its escape (`character?_escapeChar`);
  - arrays and objects: by induction on the items, the layout adding blanks only.

  `Prints.denotes`: with a line feed behind it the printed value denotes what it stands for.
-/
import HostTables.Json.Basic
import HostTables.Proofs.Json.Grammar
import HostTables.Proofs.Number.Decimal
import Mathlib.Data.List.Forall2
import Mathlib.Data.List.TakeWhile

namespace HostTables

/-! ## Numbers -/

namespace JsonText

theorem isWhole_ofNat (n : Nat) : isWhole (Decimal.ofNat n) = true := by
  rcases Nat.eq_zero_or_pos n with rfl | hpos
  · rfl
  · have hne : Decimal.ofNat n ≠ [] := Nat.toDigits_ne_nil
    simp [isWhole, hne, Decimal.head?_ofNat hpos]

theorem magnitude?_ofNat (n : Nat) : magnitude? (Decimal.ofNat n) = some (n : ℚ) := by
  have hdigits : ∀ c ∈ Decimal.ofNat n, c.isDigit = true := fun _ hc => Decimal.isDigit_of_mem_ofNat hc
  have hwhole : (Decimal.ofNat n).takeWhile Char.isDigit = Decimal.ofNat n := List.takeWhile_eq_self_iff.mpr hdigits
  have hrest : (Decimal.ofNat n).dropWhile Char.isDigit = [] := List.dropWhile_eq_nil_iff.mpr hdigits
  have hvalue : Decimal.value (Decimal.ofNat n) = n := Nat.ofDigitChars_ten_toDigits
  simp [magnitude?, hwhole, hrest, fraction?, exponent?, isWhole_ofNat, hvalue]

theorem number?_ofInt (n : Int) : number? (Decimal.ofInt n) = some (n : ℚ) := by
  cases n with
  | ofNat n =>
    have hplain : number? (Decimal.ofNat n) = magnitude? (Decimal.ofNat n) := by
      unfold number?
      split
      · rename_i heq
        exact absurd heq (Decimal.ofNat_ne_cons rfl n _)
      · rfl
    rw [Decimal.ofInt, hplain, magnitude?_ofNat]
    rfl
  | negSucc n =>
    have hminus : number? ('-' :: Decimal.ofNat (n + 1)) = Neg.neg <$> magnitude? (Decimal.ofNat (n + 1)) := rfl
    rw [Decimal.ofInt, hminus, magnitude?_ofNat]
    simp [Int.negSucc_eq]

/-- A numeral has no letter, so it is none of the words. -/
theorem word?_ofInt (n : Int) : word? (Decimal.ofInt n) = some (.number n) := by
  have hword : ∀ {c : Char} {word : Text}, c ∈ word → 'A'.toNat ≤ c.toNat → Decimal.ofInt n ≠ word := by
    intro c word hmem hc heq
    have hlt := (Decimal.range_of_mem_ofInt (heq ▸ hmem)).2
    omega
  have hnull : Decimal.ofInt n ≠ "null".toList := hword (c := 'n') (by decide) (by decide)
  have htrue : Decimal.ofInt n ≠ "true".toList := hword (c := 't') (by decide) (by decide)
  have hfalse : Decimal.ofInt n ≠ "false".toList := hword (c := 'f') (by decide) (by decide)
  rw [word?, if_neg hnull, if_neg htrue, if_neg hfalse, number?_ofInt]
  rfl

theorem isBare_ofNat : ∀ n < 58, 48 ≤ n → isBare (Char.ofNat n) = true := by decide

theorem isBare_of_mem_ofInt {n : Int} {c : Char} (h : c ∈ Decimal.ofInt n) : isBare c = true := by
  rcases Decimal.mem_ofInt h with rfl | hdigit
  · rfl
  · have hrange := Char.isDigit_iff_toNat.mp hdigit
    have hbare := isBare_ofNat c.toNat (Nat.lt_succ_of_le hrange.2) hrange.1
    rwa [Char.ofNat_toNat] at hbare

/-! ## Strings -/

/-- A digit is read as what it was written for. -/
theorem hexDigit?_digitChar : ∀ d < 16, Quoted.hexDigit? (Nat.digitChar d) = some d := by decide

theorem escapedUnits?_hexByte {n : Nat} (h : n < 0x20) (rest : Text) :
    escapedUnits? ('0' :: '0' :: Json.hexByte n ++ rest) = some (Char.ofNat n, rest) := by
  have hunit : codeUnit? ('0' :: '0' :: Json.hexByte n ++ rest) = some (n, rest) := by
    have hzero : Quoted.hexDigit? '0' = some 0 := by decide
    have hhigh := hexDigit?_digitChar (n / 16 % 16) (Nat.mod_lt _ (by decide))
    have hlow := hexDigit?_digitChar (n % 16) (Nat.mod_lt _ (by decide))
    have hsum : ((0 * 16 + 0) * 16 + n / 16 % 16) * 16 + n % 16 = n := by omega
    simp only [Json.hexByte, List.cons_append, List.nil_append, codeUnit?, hzero, hhigh, hlow, Option.bind_eq_bind,
      Option.bind_some, hsum]
    rfl
  have hplain : n < 0xD800 ∨ 0xE000 ≤ n := Or.inl (by omega)
  rw [escapedUnits?, hunit]
  exact if_pos hplain

theorem character?_escapeChar (c : Char) (rest : Text) : character? (Json.escapeChar c ++ rest) = some (c, rest) := by
  unfold Json.escapeChar
  split_ifs with hquote hslash hb hf hn hr ht hcontrol
  · subst hquote; rfl
  · subst hslash; rfl
  · subst hb; rfl
  · subst hf; rfl
  · subst hn; rfl
  · subst hr; rfl
  · subst ht; rfl
  · have hunits : character? ('\\' :: 'u' :: '0' :: '0' :: Json.hexByte c.toNat ++ rest) =
        escapedUnits? ('0' :: '0' :: Json.hexByte c.toNat ++ rest) := rfl
    rw [List.append_assoc] at *
    exact hunits.trans ((escapedUnits?_hexByte hcontrol rest).trans (by rw [Char.ofNat_toNat]))
  · have hplain : c ≠ '"' ∧ c ≠ '\\' ∧ 0x20 ≤ c.toNat := ⟨hquote, hslash, Nat.le_of_not_lt hcontrol⟩
    have hself : character? (c :: rest) = if c ≠ '"' ∧ c ≠ '\\' ∧ 0x20 ≤ c.toNat then some (c, rest) else none := by
      unfold character?
      split
      · rename_i heq; cases heq
      · rename_i heq; cases heq; exact absurd rfl hslash
      · rename_i heq; cases heq; exact absurd rfl hslash
      · rename_i heq; cases heq; rfl
    exact hself.trans (if_pos hplain)

theorem content_escaped (value rest : Text) :
    Content (value.flatMap Json.escapeChar ++ '"' :: rest) value rest := by
  induction value with
  | nil => exact .close rest
  | cons c value ih =>
    rw [List.flatMap_cons, List.append_assoc]
    exact .cons (character?_escapeChar c _) ih

/-! ## Cutting printed text -/

/-- A bare word may end in front of this text. -/
def Bounded (rest : Text) : Prop := ∀ c ∈ rest.head?, isBare c = false

theorem bounded_cons {c : Char} (h : isBare c = false) (rest : Text) : Bounded (c :: rest) := by
  intro d hd
  cases hd
  exact h

theorem Bounded.takeWhile_eq {rest : Text} (h : Bounded rest) : rest.takeWhile isBare = [] := by
  cases rest with
  | nil => rfl
  | cons c rest => exact List.takeWhile_cons_of_neg (by simp [h c rfl])

theorem Bounded.dropWhile_eq {rest : Text} (h : Bounded rest) : rest.dropWhile isBare = rest := by
  cases rest with
  | nil => rfl
  | cons c rest => exact List.dropWhile_cons_of_neg (by simp [h c rfl])

theorem not_blank_of_bare {c : Char} (h : isBare c = true) : isBlank c = false := by
  simp only [isBare, Bool.and_eq_true, Bool.not_eq_true'] at h
  exact h.1.1

theorem skip_of_not_blank {c : Char} (h : isBlank c = false) (t : Text) : skip (c :: t) = c :: t :=
  List.dropWhile_cons_of_neg (by simp [h])

theorem lexes_blanks {blanks t : Text} {tokens : List Token} (hb : ∀ c ∈ blanks, isBlank c = true)
    (h : Lexes t tokens) : Lexes (blanks ++ t) tokens := by
  have hskip : skip (blanks ++ t) = skip t := List.dropWhile_append_of_pos hb
  cases h with
  | done hend => exact .done (hskip.trans hend)
  | next hl h => exact .next (hskip ▸ hl) h

theorem not_blank_of_mark {c : Char} {token : Token} (h : mark? c = some token) : isBlank c = false := by
  unfold mark? at h
  split at h <;> first | rfl | cases h

theorem lexes_mark {c : Char} {token : Token} {t : Text} {tokens : List Token} (hm : mark? c = some token)
    (h : Lexes t tokens) : Lexes (c :: t) (token :: tokens) := by
  refine .next ?_ h
  rw [skip_of_not_blank (not_blank_of_mark hm)]
  exact .mark hm

theorem lexes_word {word rest : Text} {value : Scalar} {tokens : List Token} (hbare : ∀ c ∈ word, isBare c = true)
    (hw : word? word = some value) (hrest : Bounded rest) (h : Lexes rest tokens) :
    Lexes (word ++ rest) (.scalar value :: tokens) := by
  have htake : (word ++ rest).takeWhile isBare = word := by
    rw [List.takeWhile_append_of_pos hbare, hrest.takeWhile_eq, List.append_nil]
  have hdrop : (word ++ rest).dropWhile isBare = rest := by
    rw [List.dropWhile_append_of_pos hbare, hrest.dropWhile_eq]
  have hskip : skip (word ++ rest) = word ++ rest := by
    cases word with
    | nil => cases hw
    | cons c word => exact skip_of_not_blank (not_blank_of_bare (hbare c List.mem_cons_self)) _
  have hlexeme : Lexeme (word ++ rest) (.scalar value) rest := by
    have hl : word? ((word ++ rest).takeWhile isBare) = some value := by rw [htake, hw]
    have hfirst := Lexeme.word hl
    rwa [hdrop] at hfirst
  exact .next (by rwa [hskip]) h

theorem lexes_quote {value rest : Text} {tokens : List Token} (h : Lexes rest tokens) :
    Lexes (Json.quote value ++ rest) (.scalar (.string value) :: tokens) := by
  have hquote : Json.quote value ++ rest = '"' :: (value.flatMap Json.escapeChar ++ '"' :: rest) := by
    simp [Json.quote]
  refine .next ?_ h
  rw [hquote, skip_of_not_blank (by decide)]
  exact .string (content_escaped value rest)

end JsonText

/-! ## Printed values -/

namespace Json

open JsonText

/-- In front of a text that a bare word may not go on into, the printed value is cut into the tokens of
    what it stands for. -/
def Prints (json : Json) (value : JsonValue) : Prop :=
  ∀ (layout : Layout) (rest : Text) (tokens : List Token), Bounded rest → Lexes rest tokens →
    Lexes (json.print layout ++ rest) (value.tokens ++ tokens)

theorem prints_null : Prints .null (.scalar .null) := by
  intro layout rest tokens hrest h
  rw [print]
  have hbare : ∀ c ∈ "null".toList, isBare c = true := List.all_eq_true.mp rfl
  exact lexes_word hbare rfl hrest h

theorem prints_integer (n : Int) : Prints (.integer n) (.scalar (.number n)) := by
  intro layout rest tokens hrest h
  rw [print]
  exact lexes_word (fun c hc => isBare_of_mem_ofInt hc) (word?_ofInt n) hrest h

theorem prints_string (t : Text) : Prints (.string t) (.scalar (.string t)) := by
  intro layout rest tokens hrest h
  rw [print]
  exact lexes_quote h

example : quote ['"', '\\', '\n', '\x01', 'é'] = "\"\\\"\\\\\\n\\u0001é\"".toList := by decide

theorem blank_of_mem_lineStart {layout : Layout} : ∀ c ∈ layout.lineStart, isBlank c = true := by
  intro c hc
  cases layout with
  | compact => cases hc
  | indented depth =>
    rcases List.mem_cons.mp hc with rfl | hspace
    · rfl
    · rw [List.eq_of_mem_replicate hspace]
      rfl

theorem lexes_colon {layout : Layout} {t : Text} {tokens : List Token} (h : Lexes t tokens) :
    Lexes (layout.colon ++ t) (.colon :: tokens) := by
  cases layout with
  | compact => exact lexes_mark rfl h
  | indented depth =>
    have hspace : ∀ c ∈ [' '], isBlank c = true := List.all_eq_true.mp rfl
    exact lexes_mark rfl (lexes_blanks hspace h)

/-- A closing bracket on a line of its own. -/
theorem lexes_closing (layout : Layout) {c : Char} {token : Token} {rest : Text} {tokens : List Token}
    (hm : mark? c = some token) (h : Lexes rest tokens) :
    Lexes (layout.lineStart ++ c :: rest) (token :: tokens) ∧ Bounded (layout.lineStart ++ c :: rest) := by
  refine ⟨lexes_blanks blank_of_mem_lineStart (lexes_mark hm h), ?_⟩
  cases layout with
  | compact => exact bounded_cons (not_bare_of_mark hm) rest
  | indented depth => exact bounded_cons rfl _

theorem lexes_items (layout outer : Layout) {rest : Text} {tokens : List Token} (h : Lexes rest tokens)
    {items : List Json} {values : List JsonValue} (hall : List.Forall₂ Prints items values) (hne : items ≠ []) :
    Lexes (printItems layout items ++ (outer.lineStart ++ ']' :: rest)) (JsonValue.insideArray values ++ tokens) := by
  induction hall with
  | nil => exact absurd rfl hne
  | cons hitem hall ih =>
    simp only [printItems, JsonValue.insideArray, List.append_assoc]
    refine lexes_blanks blank_of_mem_lineStart ?_
    cases hall with
    | nil =>
      obtain ⟨hclose, hbound⟩ := lexes_closing outer (c := ']') rfl h
      exact hitem _ _ _ hbound hclose
    | cons _ _ => exact hitem _ _ _ (bounded_cons rfl _) (lexes_mark rfl (ih (List.cons_ne_nil _ _)))

/-- The name and the value stand for the member of an object. -/
def PrintsMember (member : Text × Json) (value : Text × JsonValue) : Prop :=
  member.1 = value.1 ∧ Prints member.2 value.2

theorem lexes_members (layout outer : Layout) {rest : Text} {tokens : List Token} (h : Lexes rest tokens)
    {members : List (Text × Json)} {values : List (Text × JsonValue)}
    (hall : List.Forall₂ PrintsMember members values) (hne : members ≠ []) :
    Lexes (printMembers layout members ++ (outer.lineStart ++ '\x7d' :: rest))
      (JsonValue.insideObject values ++ tokens) := by
  induction hall with
  | nil => exact absurd rfl hne
  | @cons member value members values hmember hall ih =>
    obtain ⟨name, json⟩ := member
    obtain ⟨name', value⟩ := value
    obtain ⟨rfl, hvalue⟩ := hmember
    simp only [printMembers, JsonValue.insideObject, List.cons_append, List.append_assoc]
    refine lexes_blanks blank_of_mem_lineStart (lexes_quote (lexes_colon ?_))
    cases hall with
    | nil =>
      obtain ⟨hclose, hbound⟩ := lexes_closing outer (c := '\x7d') rfl h
      exact hvalue _ _ _ hbound hclose
    | cons _ _ => exact hvalue _ _ _ (bounded_cons rfl _) (lexes_mark rfl (ih (List.cons_ne_nil _ _)))

theorem prints_array {items : List Json} {values : List JsonValue} (hall : List.Forall₂ Prints items values) :
    Prints (.array items) (.array values) := by
  intro layout rest tokens _ h
  cases hall with
  | nil => exact lexes_mark rfl (lexes_mark rfl h)
  | cons hitem hall =>
    have hitems := lexes_items layout.deeper layout h (.cons hitem hall) (List.cons_ne_nil _ _)
    have hopen := lexes_mark (c := '[') rfl hitems
    simpa only [print, List.isEmpty_cons, Bool.false_eq_true, if_false, List.cons_append, List.append_assoc,
      List.nil_append, JsonValue.tokens] using hopen

theorem prints_object {members : List (Text × Json)} {values : List (Text × JsonValue)}
    (hall : List.Forall₂ PrintsMember members values) : Prints (.object members) (.object values) := by
  intro layout rest tokens _ h
  cases hall with
  | nil => exact lexes_mark rfl (lexes_mark rfl h)
  | cons hmember hall =>
    have hmembers := lexes_members layout.deeper layout h (.cons hmember hall) (List.cons_ne_nil _ _)
    have hopen := lexes_mark (c := '\x7b') rfl hmembers
    simpa only [print, List.isEmpty_cons, Bool.false_eq_true, if_false, List.cons_append, List.append_assoc,
      List.nil_append, JsonValue.tokens] using hopen

/-- Printed item by item. -/
theorem prints_mapped {α : Type} {json : α → Json} {value : α → JsonValue} (h : ∀ item, Prints (json item) (value item))
    (items : List α) : Prints (.array (items.map json)) (.array (items.map value)) := by
  refine prints_array ?_
  rw [List.forall₂_map_left_iff, List.forall₂_map_right_iff, List.forall₂_same]
  exact fun item _ => h item

/-- A printed value and a line feed denote what the value stands for. -/
theorem Prints.denotes {json : Json} {value : JsonValue} (h : Prints json value) (layout : Layout) :
    Denotes (json.print layout ++ ['\n']) value := by
  have hlexes := h layout ['\n'] [] (bounded_cons rfl []) (.done rfl)
  rwa [List.append_nil] at hlexes

end Json

end HostTables
