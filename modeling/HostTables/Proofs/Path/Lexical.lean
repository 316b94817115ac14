/-
  HostTables.Proofs.Path.Lexical — where an absolute path leads when no link is followed.

  The components of a path are taken one by one: a name goes down, `..` goes up and stays at
  the root, `.` stays (`Location.follow`). `Path.lexical` is the location an absolute path ends
  in, and a path lies under another when its location is at or below the other's (`Path.Under`).

  What a list of components does to a location is a `Route`: from the root, or so many levels
  up from where it begins and then down some names (`foldl_follow`). So whether a route leads
  back under the location it began at can be read off the route (`under_arrive`), and a route
  without `..` that does not begin at the root always does (`staysUnder_of_no_parent`).
-/
import HostTables.Machine.FileTree
import HostTables.Proofs.Path.Join

namespace HostTables

/-! ## Following components -/

/-- The location one step further. -/
def Location.follow (here : Location) : Component → Location
  | .root => []
  | .current => here
  | .parent => here.dropLast
  | .normal name => here ++ [name]

namespace Path

/-- The location of an absolute path by its text alone. -/
def lexical (p : Path) : Location := p.components.foldl Location.follow []

/-- The path is absolute, and its text leads to the location of `root` or below it. -/
def Under (p root : Path) : Prop := p.isAbsolute = true ∧ root.lexical <+: p.lexical

instance (p root : Path) : Decidable (p.Under root) := inferInstanceAs (Decidable (_ ∧ _))

theorem lexical_of_absolute {p : Path} (h : p.isAbsolute = true) :
    p.lexical = (segments p.text).foldl Location.follow [] := by
  simp only [lexical, components_of_absolute h, List.foldl_cons]
  rfl

/-- Joining goes on from the base, and begins anew at the root if the text is absolute. -/
theorem lexical_join {p : Path} {t : Text} (hp : p.isAbsolute = true) :
    (p.join t).lexical = (components ⟨t⟩).foldl Location.follow p.lexical := by
  by_cases ht : t.head? = some '/'
  · have ha : isAbsolute ⟨t⟩ = true := by simp [isAbsolute, ht]
    rw [join_of_absolute ht, lexical_of_absolute ha, components_of_absolute ha, List.foldl_cons]
    rfl
  · have hne : p.text ≠ [] := fun h => by simp [isAbsolute, h] at hp
    rw [lexical_of_absolute (isAbsolute_join hp), segments_join hne ht, List.foldl_append,
      ← lexical_of_absolute hp]
    rcases components_of_relative ht with h | h
    · rw [h]
    · rw [h]; rfl

end Path

/-! ## Routes -/

/-- What a list of components does: it ends at a location of its own, or `up` levels above
    where it began and then down some names. -/
inductive Route where
  | fromRoot (down : Location)
  | fromHere (up : Nat) (down : Location)
  deriving DecidableEq

namespace Route

def step : Route → Component → Route
  | _, .root => .fromRoot []
  | r, .current => r
  | .fromRoot down, .parent => .fromRoot down.dropLast
  | .fromHere up down, .parent => if down = [] then .fromHere (up + 1) [] else .fromHere up down.dropLast
  | .fromRoot down, .normal name => .fromRoot (down ++ [name])
  | .fromHere up down, .normal name => .fromHere up (down ++ [name])

/-- The route of components that begin anywhere. -/
def of (components : List Component) : Route := components.foldl step (.fromHere 0 [])

/-- Where the route leads from a location. -/
def arrive (here : Location) : Route → Location
  | .fromRoot down => down
  | .fromHere up down => here.take (here.length - up) ++ down

/-- The route leads from `base` to `base` or below: whatever it climbs it comes down again by
    the same names. -/
def StaysUnder (base : Location) : Route → Prop
  | .fromRoot down => base <+: down
  | .fromHere up down => base.drop (base.length - up) <+: down

instance (base : Location) (r : Route) : Decidable (r.StaysUnder base) := by
  cases r <;> exact inferInstanceAs (Decidable (_ <+: _))

theorem arrive_step (here : Location) (r : Route) (c : Component) :
    (r.step c).arrive here = (r.arrive here).follow c := by
  cases r with
  | fromRoot down => cases c <;> rfl
  | fromHere up down =>
    cases c with
    | root => rfl
    | current => rfl
    | normal name => simp [step, arrive, Location.follow]
    | parent =>
      by_cases hd : down = []
      · simp only [step, hd, if_true, arrive, Location.follow, List.append_nil, List.dropLast_eq_take,
          List.take_take, List.length_take]
        congr 1; omega
      · simp [step, hd, arrive, Location.follow, List.dropLast_append_of_ne_nil]

theorem foldl_follow (here : Location) (components : List Component) :
    components.foldl Location.follow here = (of components).arrive here := by
  have h : ∀ r : Route, components.foldl Location.follow (r.arrive here) = (components.foldl step r).arrive here := by
    induction components with
    | nil => intro r; rfl
    | cons c cs ih => intro r; rw [List.foldl_cons, ← arrive_step, ih (r.step c), List.foldl_cons]
  have h0 := h (.fromHere 0 [])
  rw [show arrive here (.fromHere 0 []) = here by simp [arrive]] at h0
  exact h0

theorem under_arrive (base : Location) (r : Route) : base <+: r.arrive base ↔ r.StaysUnder base := by
  cases r with
  | fromRoot down => exact Iff.rfl
  | fromHere up down =>
    have h : base.take (base.length - up) ++ base.drop (base.length - up) <+: base.take (base.length - up) ++ down ↔
        base.drop (base.length - up) <+: down := List.prefix_append_right_inj _
    rw [List.take_append_drop] at h
    exact h

/-- Components that are neither `..` nor the root only go down. -/
theorem staysUnder_of_no_parent {components : List Component} (hp : Component.parent ∉ components)
    (hr : Component.root ∉ components) (base : Location) : (of components).StaysUnder base := by
  have h : ∀ down, ∃ down', components.foldl step (.fromHere 0 down) = .fromHere 0 down' := by
    induction components with
    | nil => intro down; exact ⟨down, rfl⟩
    | cons c cs ih =>
      intro down
      simp only [List.mem_cons, not_or] at hp hr
      cases c with
      | root => exact absurd rfl hr.1
      | parent => exact absurd rfl hp.1
      | current => exact ih hp.2 hr.2 down
      | normal name => exact ih hp.2 hr.2 (down ++ [name])
  obtain ⟨down, hd⟩ := h []
  simp only [of, hd, StaysUnder, Nat.sub_zero, List.drop_length]
  exact List.nil_prefix

end Route

end HostTables
