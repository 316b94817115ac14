/-
  HostTables.Path.Basic — slash separated paths as text.

  Paths are joined as text: nothing is normalised, an absolute path replaces what it is
  joined to. They are compared by components, which leave out repeated slashes and `.`
  segments.
-/
import HostTables.Text.Basic

namespace HostTables

/-- A path as it is written. -/
structure Path where
  text : Text
  deriving DecidableEq, Repr

/-- One step of a path. -/
inductive Component where
  | root
  | current
  | parent
  | normal (name : Text)
  deriving DecidableEq, Repr

/-- The step that a segment between slashes is; none for an empty segment and for `.`. -/
def Component.ofSegment? (segment : Text) : Option Component :=
  if segment = [] ∨ segment = ['.'] then none
  else if segment = ['.', '.'] then some .parent
  else some (.normal segment)

namespace Path

/-- The path of a literal. -/
def ofString (s : String) : Path := ⟨s.toList⟩

def shown (p : Path) : String := Text.shown p.text

def isAbsolute (p : Path) : Bool := p.text.head? == some '/'

/-- `p` followed by `t`: an absolute `t` replaces `p`, and a slash is put between the two
unless `p` is empty or ends with one. -/
def join (p : Path) (t : Text) : Path :=
  if t.head? = some '/' then ⟨t⟩
  else if p.text = [] ∨ p.text.getLast? = some '/' then ⟨p.text ++ t⟩
  else ⟨p.text ++ '/' :: t⟩

/-- The steps of the path. A leading `.` counts, a later one does not. -/
def components (p : Path) : List Component :=
  let segments := p.text.splitOn '/'
  let start :=
    if p.isAbsolute then [.root] else if segments.head? = some ['.'] then [.current] else []
  start ++ segments.filterMap Component.ofSegment?

/-- The two paths have the same components. -/
def same (p q : Path) : Bool := p.components == q.components

/-- The components of `p` begin with those of `q`. -/
def startsWith (p q : Path) : Bool := q.components.isPrefixOf p.components

end Path

end HostTables
