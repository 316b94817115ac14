/-
  HostTables.Proofs.Json.Grammar — what a JSON text denotes.

  The grammar of JSON, said without the printer. A text is cut into tokens (`Lexes`): the six
  marks, strings between quotes, and bare words, which run up to the next blank, mark or quote
  and are `null`, `true`, `false` or a number. A value is spelled by one sequence of tokens
  (`JsonValue.tokens`), and a text denotes the value whose tokens it is cut into (`Denotes`).

  - `lexes_unique`: a text is cut in at most one way.
  - `tokens_inj`: no tokens spell two values, also with more tokens behind them.
  - `denotes_unique`: so a text denotes at most one value.
-/
import HostTables.Number.Decimal
import HostTables.Text.Quoted
import Mathlib.Algebra.Field.Rat

namespace HostTables

namespace JsonText

/-- A value without parts. -/
inductive Scalar where
  | null
  | bool (value : Bool)
  | number (value : ℚ)
  | string (value : Text)
  deriving DecidableEq

end JsonText

/-- What a JSON text denotes; the members of an object are in the order of the text. -/
inductive JsonValue where
  | scalar (value : JsonText.Scalar)
  | array (items : List JsonValue)
  | object (members : List (Text × JsonValue))

namespace JsonText

/-! ## Numbers -/

/-- Digits without a needless zero in front. -/
def isWhole (digits : Text) : Bool := !digits.isEmpty && (digits.head? != some '0' || digits == ['0'])

/-- The digits behind a point, of which there is at least one, and what follows them. -/
def fraction? : Text → Option (Text × Text)
  | '.' :: t =>
    if t.takeWhile Char.isDigit = [] then none else some (t.takeWhile Char.isDigit, t.dropWhile Char.isDigit)
  | t => some ([], t)

/-- The exponent at the end of a number, zero if it has none. -/
def exponent? : Text → Option Int
  | [] => some 0
  | c :: t => if c = 'e' ∨ c = 'E' then Decimal.integer? t else none

/-- The value of a number without a minus. -/
def magnitude? (t : Text) : Option ℚ := do
  let whole := t.takeWhile Char.isDigit
  let (fraction, rest) ← fraction? (t.dropWhile Char.isDigit)
  let exponent ← exponent? rest
  if isWhole whole then return Decimal.value (whole ++ fraction) * 10 ^ (exponent - fraction.length) else none

/-- The value of a number. -/
def number? : Text → Option ℚ
  | '-' :: t => Neg.neg <$> magnitude? t
  | t => magnitude? t

/-! ## Strings -/

/-- The code unit of four hexadecimal digits, and what follows them. -/
def codeUnit? : Text → Option (Nat × Text)
  | a :: b :: c :: d :: rest => do
    let a ← Quoted.hexDigit? a
    let b ← Quoted.hexDigit? b
    let c ← Quoted.hexDigit? c
    let d ← Quoted.hexDigit? d
    return (((a * 16 + b) * 16 + c) * 16 + d, rest)
  | _ => none

/-- The second half of a surrogate pair, and what follows it. -/
def lowSurrogate? : Text → Option (Nat × Text)
  | '\\' :: 'u' :: t => (codeUnit? t).filter fun (unit, _) => 0xDC00 ≤ unit ∧ unit < 0xE000
  | _ => none

/-- The character of one escaped code unit, or of two that are a surrogate pair. -/
def escapedUnits? (t : Text) : Option (Char × Text) := do
  let (unit, rest) ← codeUnit? t
  if unit < 0xD800 ∨ 0xE000 ≤ unit then return (Char.ofNat unit, rest)
  else if unit < 0xDC00 then
    let (low, rest) ← lowSurrogate? rest
    return (Char.ofNat (0x10000 + (unit - 0xD800) * 0x400 + (low - 0xDC00)), rest)
  else none

/-- The character behind a backslash, other than a code unit. -/
def named? : Char → Option Char
  | '"' => some '"'
  | '\\' => some '\\'
  | '/' => some '/'
  | 'b' => some '\x08'
  | 'f' => some '\x0c'
  | 'n' => some '\n'
  | 'r' => some '\r'
  | 't' => some '\t'
  | _ => none

/-- The character that stands first in a string, and what follows it; none at the closing quote. -/
def character? : Text → Option (Char × Text)
  | [] => none
  | '\\' :: 'u' :: t => escapedUnits? t
  | '\\' :: c :: t => (named? c).map fun d => (d, t)
  | c :: t => if c ≠ '"' ∧ c ≠ '\\' ∧ 0x20 ≤ c.toNat then some (c, t) else none

/-- The string up to the closing quote, and what follows the quote. -/
inductive Content : Text → Text → Text → Prop
  | close (rest : Text) : Content ('"' :: rest) [] rest
  | cons {t more value rest : Text} {c : Char} :
      character? t = some (c, more) → Content more value rest → Content t (c :: value) rest

/-! ## Tokens -/

inductive Token where
  | openArray
  | closeArray
  | openObject
  | closeObject
  | comma
  | colon
  | scalar (value : Scalar)
  deriving DecidableEq

def mark? : Char → Option Token
  | '[' => some .openArray
  | ']' => some .closeArray
  | '\x7b' => some .openObject
  | '\x7d' => some .closeObject
  | ',' => some .comma
  | ':' => some .colon
  | _ => none

def isBlank (c : Char) : Bool := c == ' ' || c == '\n' || c == '\r' || c == '\t'

/-- The text behind leading blanks. -/
def skip (t : Text) : Text := t.dropWhile isBlank

/-- Inside a bare word. -/
def isBare (c : Char) : Bool := !isBlank c && mark? c == none && c != '"'

/-- What a bare word stands for. -/
def word? (t : Text) : Option Scalar :=
  if t = "null".toList then some .null
  else if t = "true".toList then some (.bool true)
  else if t = "false".toList then some (.bool false)
  else Scalar.number <$> number? t

/-- The token that stands first, and what follows it. -/
inductive Lexeme : Text → Token → Text → Prop
  | mark {c : Char} {rest : Text} {token : Token} : mark? c = some token → Lexeme (c :: rest) token rest
  | string {t value rest : Text} : Content t value rest → Lexeme ('"' :: t) (.scalar (.string value)) rest
  | word {t : Text} {value : Scalar} :
      word? (t.takeWhile isBare) = some value → Lexeme t (.scalar value) (t.dropWhile isBare)

/-- The text is these tokens, with any blanks around them. -/
inductive Lexes : Text → List Token → Prop
  | done {t : Text} : skip t = [] → Lexes t []
  | next {t rest : Text} {token : Token} {tokens : List Token} :
      Lexeme (skip t) token rest → Lexes rest tokens → Lexes t (token :: tokens)

end JsonText

namespace JsonValue

open JsonText

mutual

/-- The tokens that spell a value. -/
def tokens : JsonValue → List Token
  | .scalar value => [.scalar value]
  | .array items => .openArray :: insideArray items
  | .object members => .openObject :: insideObject members

/-- The tokens behind an opening bracket. -/
def insideArray : List JsonValue → List Token
  | [] => [.closeArray]
  | item :: rest => tokens item ++ moreItems rest

/-- The tokens behind an opening brace. -/
def insideObject : List (Text × JsonValue) → List Token
  | [] => [.closeObject]
  | (name, value) :: rest => .scalar (.string name) :: .colon :: (tokens value ++ moreMembers rest)

/-- The tokens behind an item of an array. -/
def moreItems : List JsonValue → List Token
  | [] => [.closeArray]
  | item :: rest => .comma :: (tokens item ++ moreItems rest)

/-- The tokens behind a member of an object. -/
def moreMembers : List (Text × JsonValue) → List Token
  | [] => [.closeObject]
  | (name, value) :: rest => .comma :: .scalar (.string name) :: .colon :: (tokens value ++ moreMembers rest)

end

end JsonValue

/-- The text is JSON and denotes the value. -/
def JsonText.Denotes (t : Text) (value : JsonValue) : Prop := Lexes t value.tokens

/-! ## A text denotes at most one value -/

namespace JsonText

theorem content_unique {t value value' rest rest' : Text} (h : Content t value rest) (h' : Content t value' rest') :
    value = value' ∧ rest = rest' := by
  induction h generalizing value' with
  | close rest =>
    cases h' with
    | close => exact ⟨rfl, rfl⟩
    | cons hc _ => cases hc
  | cons hc _ ih =>
    cases h' with
    | close => cases hc
    | cons hc' h' =>
      cases hc.symm.trans hc'
      obtain ⟨rfl, hrest⟩ := ih h'
      exact ⟨rfl, hrest⟩

/-- A word that would be empty is none. -/
theorem word?_of_not_bare {c : Char} (h : isBare c = false) (t : Text) : word? ((c :: t).takeWhile isBare) = none := by
  rw [List.takeWhile_cons_of_neg (by simp [h])]
  rfl

theorem not_bare_of_mark {c : Char} {token : Token} (h : mark? c = some token) : isBare c = false := by
  simp [isBare, h]

theorem lexeme_unique {t rest rest' : Text} {token token' : Token} (h : Lexeme t token rest)
    (h' : Lexeme t token' rest') : token = token' ∧ rest = rest' := by
  cases h with
  | mark hm =>
    cases h' with
    | mark hm' => exact ⟨Option.some.inj (hm.symm.trans hm'), rfl⟩
    | string _ => cases hm
    | word hw => cases (word?_of_not_bare (not_bare_of_mark hm) _).symm.trans hw
  | string hs =>
    cases h' with
    | mark hm => cases hm
    | string hs' =>
      obtain ⟨rfl, hrest⟩ := content_unique hs hs'
      exact ⟨rfl, hrest⟩
    | word hw => cases (word?_of_not_bare (c := '"') rfl _).symm.trans hw
  | word hw =>
    cases h' with
    | mark hm => cases (word?_of_not_bare (not_bare_of_mark hm) _).symm.trans hw
    | string _ => cases (word?_of_not_bare (c := '"') rfl _).symm.trans hw
    | word hw' =>
      cases hw.symm.trans hw'
      exact ⟨rfl, rfl⟩

/-- Behind the last token there is none. -/
theorem not_lexeme_nil {token : Token} {rest : Text} : ¬ Lexeme [] token rest := by
  intro h
  cases h with
  | word hw => cases hw

theorem lexes_unique {t : Text} {tokens tokens' : List Token} (h : Lexes t tokens) (h' : Lexes t tokens') :
    tokens = tokens' := by
  induction h generalizing tokens' with
  | done hend =>
    cases h' with
    | done _ => rfl
    | next hl _ => exact absurd (hend ▸ hl) not_lexeme_nil
  | next hl _ ih =>
    cases h' with
    | done hend => exact absurd (hend ▸ hl) not_lexeme_nil
    | next hl' h' =>
      obtain ⟨rfl, rfl⟩ := lexeme_unique hl hl'
      rw [ih h']

end JsonText

namespace JsonValue

open JsonText

/-- No value starts with a closing bracket. -/
theorem tokens_ne_close (value : JsonValue) (r s : List Token) : value.tokens ++ r ≠ .closeArray :: s := by
  intro h
  cases value with
  | scalar value => cases h
  | array items => cases h
  | object members => cases h

mutual

/-- Tokens spell at most one value, also with more tokens behind them. -/
theorem tokens_inj : ∀ (v w : JsonValue) {r s : List Token}, v.tokens ++ r = w.tokens ++ s → v = w ∧ r = s
  | .scalar _, .scalar _, _, _, h => by
    cases h
    exact ⟨rfl, rfl⟩
  | .array vs, .array ws, _, _, h => by
    obtain ⟨rfl, hrest⟩ := insideArray_inj vs ws (List.cons.inj h).2
    exact ⟨rfl, hrest⟩
  | .object ms, .object ns, _, _, h => by
    obtain ⟨rfl, hrest⟩ := insideObject_inj ms ns (List.cons.inj h).2
    exact ⟨rfl, hrest⟩
  | .scalar _, .array _, _, _, h
  | .scalar _, .object _, _, _, h
  | .array _, .scalar _, _, _, h
  | .array _, .object _, _, _, h
  | .object _, .scalar _, _, _, h
  | .object _, .array _, _, _, h => by cases h

theorem insideArray_inj : ∀ (vs ws : List JsonValue) {r s : List Token},
    insideArray vs ++ r = insideArray ws ++ s → vs = ws ∧ r = s
  | [], [], _, _, h => by
    cases h
    exact ⟨rfl, rfl⟩
  | v :: vs, w :: ws, _, _, h => by
    simp only [insideArray, List.append_assoc] at h
    obtain ⟨rfl, hmore⟩ := tokens_inj v w h
    obtain ⟨rfl, hrest⟩ := moreItems_inj vs ws hmore
    exact ⟨rfl, hrest⟩
  | [], w :: ws, _, _, h => by
    simp only [insideArray, List.append_assoc] at h
    exact absurd h.symm (tokens_ne_close w _ _)
  | v :: vs, [], _, _, h => by
    simp only [insideArray, List.append_assoc] at h
    exact absurd h (tokens_ne_close v _ _)

theorem moreItems_inj : ∀ (vs ws : List JsonValue) {r s : List Token},
    moreItems vs ++ r = moreItems ws ++ s → vs = ws ∧ r = s
  | [], [], _, _, h => by
    cases h
    exact ⟨rfl, rfl⟩
  | v :: vs, w :: ws, _, _, h => by
    simp only [moreItems, List.cons_append, List.append_assoc, List.cons.injEq, true_and] at h
    obtain ⟨rfl, hmore⟩ := tokens_inj v w h
    obtain ⟨rfl, hrest⟩ := moreItems_inj vs ws hmore
    exact ⟨rfl, hrest⟩
  | [], _ :: _, _, _, h
  | _ :: _, [], _, _, h => by cases h

theorem insideObject_inj : ∀ (ms ns : List (Text × JsonValue)) {r s : List Token},
    insideObject ms ++ r = insideObject ns ++ s → ms = ns ∧ r = s
  | [], [], _, _, h => by
    cases h
    exact ⟨rfl, rfl⟩
  | (m, v) :: ms, (n, w) :: ns, _, _, h => by
    simp only [insideObject, List.cons_append, List.append_assoc, List.cons.injEq, true_and, Token.scalar.injEq,
      Scalar.string.injEq] at h
    obtain ⟨rfl, h⟩ := h
    obtain ⟨rfl, hmore⟩ := tokens_inj v w h
    obtain ⟨rfl, hrest⟩ := moreMembers_inj ms ns hmore
    exact ⟨rfl, hrest⟩
  | [], _ :: _, _, _, h
  | _ :: _, [], _, _, h => by cases h

theorem moreMembers_inj : ∀ (ms ns : List (Text × JsonValue)) {r s : List Token},
    moreMembers ms ++ r = moreMembers ns ++ s → ms = ns ∧ r = s
  | [], [], _, _, h => by
    cases h
    exact ⟨rfl, rfl⟩
  | (m, v) :: ms, (n, w) :: ns, _, _, h => by
    simp only [moreMembers, List.cons_append, List.append_assoc, List.cons.injEq, true_and, Token.scalar.injEq,
      Scalar.string.injEq] at h
    obtain ⟨rfl, h⟩ := h
    obtain ⟨rfl, hmore⟩ := tokens_inj v w h
    obtain ⟨rfl, hrest⟩ := moreMembers_inj ms ns hmore
    exact ⟨rfl, hrest⟩
  | [], _ :: _, _, _, h
  | _ :: _, [], _, _, h => by cases h

end

end JsonValue

/-- A text denotes at most one value. -/
theorem JsonText.denotes_unique {t : Text} {v w : JsonValue} (hv : Denotes t v) (hw : Denotes t w) : v = w :=
  (JsonValue.tokens_inj v w (congrArg (· ++ []) (lexes_unique hv hw))).1

end HostTables
