/-
  HostTables.Proofs.Outcome — a chain of steps that can fail, taken apart.

  A chain goes on with a value and stops at an error (`ok_bind`, `error_bind`). It succeeds when
  every step of it does (`bind_eq_ok`, `map_eq_ok`, `mapError_eq_ok`) and fails when one does
  (`bind_eq_error`, `map_eq_error`, `mapError_eq_error`, `mapM_eq_error`). What holds of the values
  and of the errors of every step holds of the chain (`Ends`). A
  numbered reading of a list succeeds item by item (`forall₂_of_eachNumbered`, `eachNumbered_eq_ok`,
  `eachNumbered_eq_ok_iff`, `eachNumbered_eq_ok_iff_at`) and fails at its first fault
  (`eachNumbered_eq_error`, `eachNumbered_eq_error_iff_at`, `eachNumbered_drop_eq_error_iff` behind a
  header, and `eachNumbered_of_first` where the items were written from others); it goes through two lists one behind the other as through one
  (`eachNumbered_append`). With these no later proof opens a chain by hand.
-/
import HostTables.Format.Lines
import Mathlib.Data.List.Forall2

namespace HostTables

variable {α β ε ε' : Type}

/-! ## Two steps -/

theorem ok_bind (a : α) (f : α → Except ε β) : (Except.ok a : Except ε α) >>= f = f a := rfl

theorem error_bind (e : ε) (f : α → Except ε β) : (Except.error e : Except ε α) >>= f = .error e := rfl

theorem bind_eq_ok {x : Except ε α} {f : α → Except ε β} {b : β} :
    x >>= f = .ok b ↔ ∃ a, x = .ok a ∧ f a = .ok b := by
  cases x with
  | error e => simp [bind, Except.bind]
  | ok a => simp [bind, Except.bind]

theorem bind_eq_error {x : Except ε α} {f : α → Except ε β} {e : ε} :
    x >>= f = .error e ↔ x = .error e ∨ ∃ a, x = .ok a ∧ f a = .error e := by
  cases x with
  | error e' => simp [bind, Except.bind]
  | ok a => simp [bind, Except.bind]

theorem map_eq_ok {x : Except ε α} {f : α → β} {b : β} :
    f <$> x = .ok b ↔ ∃ a, x = .ok a ∧ f a = b := by
  cases x with
  | error e => simp [Functor.map, Except.map]
  | ok a => simp [Functor.map, Except.map]

theorem map_eq_error {x : Except ε α} {f : α → β} {e : ε} : f <$> x = .error e ↔ x = .error e := by
  cases x with
  | error e' => simp [Functor.map, Except.map]
  | ok a => simp [Functor.map, Except.map]

theorem mapError_eq_ok {x : Except ε α} {f : ε → ε'} {a : α} : x.mapError f = .ok a ↔ x = .ok a := by
  cases x with
  | error e => simp [Except.mapError]
  | ok b => simp [Except.mapError]

theorem mapError_eq_error {x : Except ε α} {f : ε → ε'} {e : ε'} :
    x.mapError f = .error e ↔ ∃ cause, x = .error cause ∧ f cause = e := by
  cases x with
  | error cause => simp [Except.mapError]
  | ok a => simp [Except.mapError]

theorem isOk_iff {x : Except ε α} : x.isOk = true ↔ ∃ a, x = .ok a := by
  cases x with
  | error e => simp [Except.isOk, Except.toBool]
  | ok a => simp [Except.isOk, Except.toBool]

theorem mapM_eq_error {f : α → Except ε β} {items : List α} {e : ε} (h : items.mapM f = .error e) :
    ∃ a ∈ items, f a = .error e := by
  induction items with
  | nil => cases h
  | cons a rest ih =>
    rw [List.mapM_cons] at h
    rcases bind_eq_error.mp h with h | ⟨here, -, h⟩
    · exact ⟨a, List.mem_cons_self, h⟩
    · rcases bind_eq_error.mp h with h | ⟨more, -, h⟩
      · obtain ⟨b, hb, hf⟩ := ih h
        exact ⟨b, List.mem_cons_of_mem _ hb, hf⟩
      · cases h

theorem mapM_eq_ok_iff {f : α → Except ε β} {items : List α} :
    ∀ {out : List β}, items.mapM f = .ok out ↔ List.Forall₂ (fun a b => f a = .ok b) items out := by
  induction items with
  | nil =>
    intro out
    rw [List.forall₂_nil_left_iff]
    exact ⟨fun h => (Except.ok.inj h).symm, fun h => h ▸ rfl⟩
  | cons a rest ih =>
    intro out
    simp only [List.mapM_cons, bind_eq_ok, ih, List.forall₂_cons_left_iff]
    constructor
    · intro h
      obtain ⟨here, hhere, more, hmore, hout⟩ := h
      exact ⟨here, more, hhere, hmore, (Except.ok.inj hout).symm⟩
    · intro h
      obtain ⟨here, more, hhere, hmore, rfl⟩ := h
      exact ⟨here, hhere, more, hmore, rfl⟩

/-- What is done to every result is done to all of them. -/
theorem mapM_mapped {γ : Type} (f : α → Except ε β) (g : β → γ) (items : List α) :
    items.mapM (fun a => g <$> f a) = List.map g <$> items.mapM f := by
  induction items with
  | nil => rfl
  | cons a rest ih =>
    rw [List.mapM_cons, List.mapM_cons, ih]
    cases f a with
    | error e => rfl
    | ok b => cases rest.mapM f <;> rfl

/-! ## Both ends -/

/-- A value has the first property, an error the second. -/
def Ends (P : α → Prop) (Q : ε → Prop) : Except ε α → Prop
  | .ok a => P a
  | .error e => Q e

namespace Ends

variable {P : α → Prop} {Q : ε → Prop} {R : β → Prop}

theorem bind {x : Except ε α} {f : α → Except ε β} (hx : Ends P Q x) (hf : ∀ a, P a → Ends R Q (f a)) :
    Ends R Q (x >>= f) := by
  cases x with
  | error e => exact hx
  | ok a => exact hf a hx

theorem map {x : Except ε α} {f : α → β} (hx : Ends P Q x) (hf : ∀ a, P a → R (f a)) : Ends R Q (f <$> x) := by
  cases x with
  | error e => exact hx
  | ok a => exact hf a hx

theorem of_ok {x : Except ε α} {a : α} (hx : Ends P Q x) (h : x = .ok a) : P a := by
  rw [h] at hx
  exact hx

theorem of_error {x : Except ε α} {e : ε} (hx : Ends P Q x) (h : x = .error e) : Q e := by
  rw [h] at hx
  exact hx

end Ends

/-! ## The first of many -/

/-- Item `i` is `a`, which has the property, and no item in front of it has. -/
structure First (P : α → Prop) (items : List α) (i : Nat) (a : α) : Prop where
  here : items[i]? = some a
  has : P a
  before : ∀ j < i, ∀ earlier, items[j]? = some earlier → ¬ P earlier

theorem first_cons_iff {P : α → Prop} {a c : α} {rest : List α} {i : Nat} : First P (a :: rest) i c ↔
    (P a ∧ i = 0 ∧ c = a) ∨ (¬ P a ∧ ∃ j, i = j + 1 ∧ First P rest j c) := by
  constructor
  · intro h
    cases i with
    | zero =>
      obtain rfl := Option.some.inj h.here
      exact Or.inl ⟨h.has, rfl, rfl⟩
    | succ j =>
      exact Or.inr ⟨h.before 0 (by omega) a rfl, j, rfl, h.here, h.has, fun k hk => h.before (k + 1) (by omega)⟩
  · intro h
    rcases h with ⟨ha, rfl, rfl⟩ | ⟨ha, j, rfl, hrest⟩
    · exact ⟨rfl, ha, nofun⟩
    · refine ⟨hrest.here, hrest.has, fun k hk earlier hearlier => ?_⟩
      cases k with
      | zero =>
        cases hearlier
        exact ha
      | succ k => exact hrest.before k (by omega) earlier hearlier

theorem exists_first {P : α → Prop} {items : List α} (h : ∃ a ∈ items, P a) : ∃ i a, First P items i a := by
  induction items with
  | nil =>
    obtain ⟨a, ha, -⟩ := h
    cases ha
  | cons b rest ih =>
    by_cases hb : P b
    · exact ⟨0, b, first_cons_iff.mpr (Or.inl ⟨hb, rfl, rfl⟩)⟩
    · have hrest : ∃ a ∈ rest, P a := by simpa [hb] using h
      obtain ⟨i, a, hfirst⟩ := ih hrest
      exact ⟨i + 1, a, first_cons_iff.mpr (Or.inr ⟨hb, i, rfl, hfirst⟩)⟩

/-- What is at a place in one list has its partner at the same place in the other. -/
theorem getElem?_of_forall₂ {R : α → β → Prop} {items : List α} {others : List β} (h : List.Forall₂ R items others) :
    ∀ {i : Nat} {a : α}, items[i]? = some a → ∃ b, others[i]? = some b ∧ R a b := by
  induction h with
  | nil => nofun
  | @cons a b items others hab _ ih =>
    intro i c hc
    cases i with
    | zero =>
      cases hc
      exact ⟨b, rfl, hab⟩
    | succ i => exact ih hc

/-! ## Numbered items -/

namespace Format

theorem eachNumbered_nil (read : Nat → α → Except ε β) (first : Nat) : eachNumbered read first [] = .ok [] := rfl

theorem eachNumbered_cons (read : Nat → α → Except ε β) (first : Nat) (a : α) (rest : List α) :
    eachNumbered read first (a :: rest) = (do
      let here ← read first a
      return here :: (← eachNumbered read (first + 1) rest)) := rfl

/-- A numbered reading that succeeds has read every item, each with some number. -/
theorem forall₂_of_eachNumbered {read : Nat → α → Except ε β} {items : List α} :
    ∀ {first : Nat} {out : List β}, eachNumbered read first items = .ok out →
      List.Forall₂ (fun a b => ∃ n, read n a = .ok b) items out := by
  induction items with
  | nil =>
    intro first out h
    cases h
    exact .nil
  | cons a rest ih =>
    intro first out h
    obtain ⟨here, hhere, h⟩ := bind_eq_ok.mp h
    obtain ⟨more, hmore, h⟩ := bind_eq_ok.mp h
    cases h
    exact .cons ⟨first, hhere⟩ (ih hmore)

theorem eachNumbered_length {read : Nat → α → Except ε β} {items : List α} {first : Nat} {out : List β}
    (h : eachNumbered read first items = .ok out) : out.length = items.length :=
  (forall₂_of_eachNumbered h).length_eq.symm

/-- Every result of a numbered reading comes from an item. -/
theorem mem_of_eachNumbered {read : Nat → α → Except ε β} {items : List α} {first : Nat} {out : List β}
    (h : eachNumbered read first items = .ok out) : ∀ b ∈ out, ∃ n, ∃ a ∈ items, read n a = .ok b := by
  intro b hb
  obtain ⟨i, hi, rfl⟩ := List.getElem_of_mem hb
  have hi' : i < items.length := eachNumbered_length h ▸ hi
  obtain ⟨n, hread⟩ := (forall₂_of_eachNumbered h).get hi' hi
  exact ⟨n, items[i], List.getElem_mem hi', hread⟩

/-- When each item is read as its partner in another list, whatever its number, that list is read. -/
theorem eachNumbered_eq_ok {read : Nat → α → Except ε β} {items : List α} {out : List β}
    (h : List.Forall₂ (fun a b => ∀ n, read n a = .ok b) items out) :
    ∀ {first : Nat}, eachNumbered read first items = .ok out := by
  induction h with
  | nil => intro first; rfl
  | cons ha _ ih =>
    intro first
    simp only [eachNumbered_cons, ha first, ih]
    rfl

/-- When what an item is read as does not depend on its number, all are read exactly when each can be. -/
theorem eachNumbered_eq_ok_iff {read : Nat → α → Except ε β} {P : α → Prop} {f : α → β}
    (h : ∀ n a b, read n a = .ok b ↔ P a ∧ b = f a) {items : List α} :
    ∀ {first : Nat} {out : List β},
      eachNumbered read first items = .ok out ↔ (∀ a ∈ items, P a) ∧ out = items.map f := by
  induction items with
  | nil =>
    intro first out
    simp [eachNumbered_nil, eq_comm]
  | cons a rest ih =>
    intro first out
    simp only [eachNumbered_cons, bind_eq_ok, h, ih, List.forall_mem_cons, List.map_cons]
    constructor
    · rintro ⟨here, ⟨ha, rfl⟩, more, ⟨hrest, rfl⟩, hout⟩
      cases hout
      exact ⟨⟨ha, hrest⟩, rfl⟩
    · rintro ⟨⟨ha, hrest⟩, rfl⟩
      exact ⟨f a, ⟨ha, rfl⟩, rest.map f, ⟨hrest, rfl⟩, rfl⟩

/-- When whether an item can be read does not depend on its number, the list can be read when all items can. -/
theorem exists_eachNumbered_iff {read : Nat → α → Except ε β} {P : α → Prop}
    (h : ∀ n a, (∃ b, read n a = .ok b) ↔ P a) {items : List α} :
    ∀ {first : Nat}, (∃ out, eachNumbered read first items = .ok out) ↔ ∀ a ∈ items, P a := by
  induction items with
  | nil =>
    intro first
    simp [eachNumbered_nil]
  | cons a rest ih =>
    intro first
    have hrest : (∃ more, eachNumbered read (first + 1) rest = .ok more) ↔ ∀ a ∈ rest, P a := ih
    simp only [eachNumbered_cons, bind_eq_ok, List.forall_mem_cons, ← h first a, ← hrest]
    constructor
    · intro hread
      obtain ⟨out, here, hhere, more, hmore, -⟩ := hread
      exact ⟨⟨here, hhere⟩, more, hmore⟩
    · intro hread
      obtain ⟨⟨here, hhere⟩, more, hmore⟩ := hread
      exact ⟨here :: more, here, hhere, more, hmore, rfl⟩

/-- The first fault ends the reading: all items before it have been read. -/
theorem eachNumbered_eq_error {read : Nat → α → Except ε β} {items : List α} :
    ∀ {first : Nat} {e : ε}, eachNumbered read first items = .error e ↔
      ∃ before item after, items = before ++ item :: after ∧ read (first + before.length) item = .error e ∧
        ∃ out, eachNumbered read first before = .ok out := by
  induction items with
  | nil =>
    intro first e
    simp [eachNumbered_nil]
  | cons a rest ih =>
    intro first e
    constructor
    · intro h
      rcases bind_eq_error.mp h with h | ⟨here, hhere, h⟩
      · exact ⟨[], a, rest, rfl, h, [], rfl⟩
      · rcases bind_eq_error.mp h with h | ⟨more, -, h⟩
        · obtain ⟨before, item, after, rfl, hitem, out, hout⟩ := ih.mp h
          refine ⟨a :: before, item, after, rfl, ?_, here :: out, ?_⟩
          · rwa [List.length_cons, Nat.add_comm before.length, ← Nat.add_assoc]
          · simp only [eachNumbered_cons, hhere, hout]
            rfl
        · cases h
    · rintro ⟨before, item, after, hl, hitem, out, hout⟩
      cases before with
      | nil =>
        cases hl
        exact bind_eq_error.mpr (Or.inl hitem)
      | cons b before =>
        cases hl
        obtain ⟨here, hhere, hout⟩ := bind_eq_ok.mp hout
        obtain ⟨more, hmore, -⟩ := bind_eq_ok.mp hout
        refine bind_eq_error.mpr (Or.inr ⟨here, hhere, bind_eq_error.mpr (Or.inl ?_)⟩)
        refine ih.mpr ⟨before, item, after, rfl, ?_, more, hmore⟩
        rwa [List.length_cons, Nat.add_comm before.length, ← Nat.add_assoc] at hitem

/-! Which item is read as which result, and which is the first that is not read, told by their positions. -/

theorem eachNumbered_eq_ok_iff_at {read : Nat → α → Except ε β} {items : List α} :
    ∀ {first : Nat} {out : List β}, eachNumbered read first items = .ok out ↔
      out.length = items.length ∧
        ∀ i a, items[i]? = some a → ∃ b, out[i]? = some b ∧ read (first + i) a = .ok b := by
  induction items with
  | nil =>
    intro first out
    simp [eachNumbered_nil, eq_comm]
  | cons a rest ih =>
    intro first out
    have hnumber : ∀ i, first + 1 + i = first + (i + 1) := by omega
    simp only [eachNumbered_cons, bind_eq_ok, ih, hnumber]
    constructor
    · intro h
      obtain ⟨here, hhere, more, ⟨hlength, hmore⟩, hout⟩ := h
      cases hout
      refine ⟨by simp [hlength], fun i b hb => ?_⟩
      cases i with
      | zero =>
        cases hb
        exact ⟨here, rfl, hhere⟩
      | succ i => exact hmore i b hb
    · intro h
      obtain ⟨hlength, hread⟩ := h
      cases out with
      | nil => cases hlength
      | cons here more =>
        obtain ⟨b, hb, hhere⟩ := hread 0 a rfl
        cases hb
        exact ⟨here, hhere, more, ⟨by simpa using hlength, fun i c hc => hread (i + 1) c hc⟩, rfl⟩

theorem eachNumbered_eq_error_iff_at {read : Nat → α → Except ε β} {items : List α} :
    ∀ {first : Nat} {e : ε}, eachNumbered read first items = .error e ↔
      ∃ i a, items[i]? = some a ∧ read (first + i) a = .error e ∧
        ∀ k < i, ∀ earlier, items[k]? = some earlier → ∃ b, read (first + k) earlier = .ok b := by
  induction items with
  | nil =>
    intro first e
    simp [eachNumbered_nil]
  | cons a rest ih =>
    intro first e
    have hnumber : ∀ i, first + 1 + i = first + (i + 1) := by omega
    simp only [eachNumbered_cons, bind_eq_error, ih, hnumber]
    constructor
    · intro h
      rcases h with h | ⟨here, hhere, h⟩
      · exact ⟨0, a, rfl, h, nofun⟩
      · rcases h with ⟨i, b, hb, hfault, hbefore⟩ | ⟨more, -, h⟩
        · refine ⟨i + 1, b, hb, hfault, fun k hk earlier hearlier => ?_⟩
          cases k with
          | zero =>
            cases hearlier
            exact ⟨here, hhere⟩
          | succ k => exact hbefore k (by omega) earlier hearlier
        · cases h
    · intro h
      obtain ⟨i, b, hb, hfault, hbefore⟩ := h
      cases i with
      | zero =>
        cases hb
        exact Or.inl hfault
      | succ i =>
        obtain ⟨here, hhere⟩ := hbefore 0 (by omega) a rfl
        refine Or.inr ⟨here, hhere, Or.inl ⟨i, b, hb, hfault, fun k hk earlier hearlier => ?_⟩⟩
        exact hbefore (k + 1) (by omega) earlier hearlier

/-- Items that are left out in front are counted all the same. -/
theorem eachNumbered_drop_eq_error_iff {read : Nat → α → Except ε β} {items : List α} {skipped first : Nat} {e : ε} :
    eachNumbered read (first + skipped) (items.drop skipped) = .error e ↔
      ∃ k a, items[k]? = some a ∧ skipped ≤ k ∧ read (first + k) a = .error e ∧
        ∀ j, skipped ≤ j → j < k → ∀ earlier, items[j]? = some earlier →
          ∃ b, read (first + j) earlier = .ok b := by
  simp only [eachNumbered_eq_error_iff_at, List.getElem?_drop, Nat.add_assoc]
  constructor
  · intro h
    obtain ⟨i, a, ha, hfault, hbefore⟩ := h
    refine ⟨skipped + i, a, ha, Nat.le_add_right skipped i, hfault, fun j hj hji earlier hearlier => ?_⟩
    obtain ⟨d, rfl⟩ := Nat.exists_eq_add_of_le hj
    exact hbefore d (by omega) earlier hearlier
  · intro h
    obtain ⟨k, a, ha, hk, hfault, hbefore⟩ := h
    obtain ⟨i, rfl⟩ := Nat.exists_eq_add_of_le hk
    exact ⟨i, a, ha, hfault, fun j hj => hbefore (skipped + j) (by omega) (by omega)⟩

/-- Items that stand for others fail at the first of these that stands for an item with a fault. -/
theorem eachNumbered_of_first {γ : Type} {R : γ → α → Prop} {P : γ → Prop} {read : Nat → α → Except ε β}
    {said : List γ} {items : List α} (h : List.Forall₂ R said items) {i : Nat} {c : γ} (hfirst : First P said i c)
    {first : Nat} {e : ε} (hfault : ∀ a, R c a → read (first + i) a = .error e)
    (hread : ∀ d a n, R d a → ¬ P d → ∃ b, read n a = .ok b) : eachNumbered read first items = .error e := by
  obtain ⟨a, ha, hc⟩ := getElem?_of_forall₂ h hfirst.here
  refine eachNumbered_eq_error_iff_at.mpr ⟨i, a, ha, hfault a hc, fun j hj earlier hearlier => ?_⟩
  obtain ⟨d, hd, hearlier⟩ := getElem?_of_forall₂ h.flip hearlier
  exact hread d earlier _ hearlier (hfirst.before j hj d hd)

/-- What each item ends in, the items end in together. -/
theorem eachNumbered_ends {P : β → Prop} {Q : ε → Prop} {read : Nat → α → Except ε β}
    (h : ∀ n a, Ends P Q (read n a)) (items : List α) :
    ∀ first, Ends (fun out => ∀ b ∈ out, P b) Q (eachNumbered read first items) := by
  induction items with
  | nil =>
    intro first b hb
    cases hb
  | cons a rest ih =>
    intro first
    refine .bind (h first a) fun here hhere => ?_
    refine .bind (ih (first + 1)) fun more hmore => ?_
    exact List.forall_mem_cons.mpr ⟨hhere, hmore⟩

/-- Two lists one behind the other are read one after the other; the numbers go on. -/
theorem eachNumbered_append (read : Nat → α → Except ε β) (items more : List α) :
    ∀ first, eachNumbered read first (items ++ more) =
      eachNumbered read first items >>= fun front =>
        (front ++ ·) <$> eachNumbered read (first + items.length) more := by
  induction items with
  | nil =>
    intro first
    show eachNumbered read first more = (fun back => back) <$> eachNumbered read first more
    rw [id_map']
  | cons a rest ih =>
    intro first
    have hnumber : first + 1 + rest.length = first + (rest.length + 1) := by omega
    simp only [List.cons_append, eachNumbered_cons, ih, List.length_cons, hnumber]
    cases read first a with
    | error e => rfl
    | ok here =>
      cases eachNumbered read (first + 1) rest with
      | error e => rfl
      | ok front =>
        cases eachNumbered read (first + (rest.length + 1)) more with
        | error e => rfl
        | ok back => rfl

/-- Numbers that are all larger by as much change the error only, if that is what they do for each item. -/
theorem eachNumbered_add {read : Nat → α → Except ε β} {k : Nat} {f : ε → ε}
    (h : ∀ n a, read (n + k) a = (read n a).mapError f) (items : List α) :
    ∀ first, eachNumbered read (first + k) items = (eachNumbered read first items).mapError f := by
  induction items with
  | nil => intro first; rfl
  | cons a rest ih =>
    intro first
    have hnumber : first + k + 1 = first + 1 + k := by omega
    simp only [eachNumbered_cons, h, hnumber, ih]
    cases read first a with
    | error e => rfl
    | ok here =>
      cases eachNumbered read (first + 1) rest with
      | error e => rfl
      | ok more => rfl

end Format

end HostTables
