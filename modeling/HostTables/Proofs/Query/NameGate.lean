/-
  HostTables.Proofs.Query.NameGate — a name that a caller gives is judged before anything is read.

  The queries for a cgroup or a Downward API file take a name (`fileName?`), and the check of the name
  is the first thing they do. So a refused name is the whole answer: it does not tell whether
  the subsystem is on, what the files are or what the context says of them (`answer_of_refused`). An
  accepted name leads down from its directory and nowhere else. `name_gate` has the check, what it lets
  through and what it keeps out.
-/
import HostTables.Proofs.Path.Filename
import HostTables.Proofs.Query.SwitchedOff

namespace HostTables.Query

/-- The fault of a refused name is the answer, whatever the machine and the context are. -/
theorem answer_of_refused {query : Query} {name : Text} {cause : FilenameError} (hn : query.fileName? = some name)
    (hc : checkFilename name = .error cause) (machine : Machine) (context : Context) :
    query.answer machine context = .error (.accessDenied cause) := by
  have hrefused : (checkFilename name).mapError QueryError.accessDenied = .error (.accessDenied cause) :=
    mapError_eq_error.mpr ⟨cause, hc, rfl⟩
  cases query with
  | cgroupFile view given =>
    cases hn
    exact bind_eq_error.mpr (Or.inl (bind_eq_error.mpr (Or.inl hrefused)))
  | podinfoFile view given =>
    cases hn
    exact bind_eq_error.mpr (Or.inl (bind_eq_error.mpr (Or.inl hrefused)))
  | cgroupMode | cgroupPaths | cgroupProcessCount | variableText | variableBigint | procFile | children | fileSystem
  | pagesToBytes => cases hn

/-- A name is accepted when it is not empty, not absolute and has no segment `..`. An accepted name adds its own
    names to the components of any directory. A refused one is answered with the first of its faults by every
    query that takes it, in every state of the files and the context. -/
theorem name_gate :
    (∀ name : Text, checkFilename name = .ok () ↔
      name ≠ [] ∧ name.head? ≠ some '/' ∧ ['.', '.'] ∉ name.splitOn '/') ∧
    (∀ (root : Path) (name : Text), root.text ≠ [] → checkFilename name = .ok () →
      (root.join name).components = root.components ++ (Path.names name).map .normal ∧
      ['.', '.'] ∉ Path.names name ∧ root.text <+: (root.join name).text) ∧
    (∀ (name : Text) (cause : FilenameError), checkFilename name = .error cause →
      cause.FirstOf name ∧
      ∀ query : Query, query.fileName? = some name →
        ∀ (machine : Machine) (context : Context) (expected : Option Signature),
        (∀ columns ∈ expected, columns = query.signature) →
        query.execute machine context expected = .error (.accessDenied cause)) := by
  refine ⟨?_, ?_, ?_⟩
  · intro name
    rw [checkFilename_eq_ok_iff, parent_mem_components_iff]
  · intro root name hroot hc
    obtain ⟨-, hrelative, hparent⟩ := checkFilename_eq_ok_iff.mp hc
    rw [parent_mem_components_iff] at hparent
    refine ⟨Path.components_join_of_check hroot hc, ?_, Path.text_prefix_join hroot hrelative⟩
    exact fun hname => hparent (List.mem_filter.mp hname).1
  · intro name cause hc
    refine ⟨checkFilename_eq_error_iff.mp hc, ?_⟩
    intro query hn machine context expected hcolumns
    rw [execute_eq_answer hcolumns, answer_of_refused hn hc machine context]

/-- Dots in a name are no reference to the parent, and an absolute name is refused as such even if it has one. -/
theorem dotted_names_pass :
    checkFilename "a..b".toList = .ok () ∧
    (Path.join (.ofString "./podinfo/") "..data//./labels".toList).components =
      [.current, .normal "podinfo".toList, .normal "..data".toList, .normal "labels".toList] ∧
    Query.execute blankMachine blankContext (some (Reading.signature (.table .quotedPairs)))
      (.podinfoFile .keyValues "/a/../labels".toList) = .error (.accessDenied (.absolute "/a/../labels".toList)) := by
  obtain ⟨accepted, below, refused⟩ := name_gate
  refine ⟨?_, ?_, ?_⟩
  · exact (accepted _).mpr (by decide)
  · have hcheck : checkFilename "..data//./labels".toList = .ok () := (accepted _).mpr (by decide)
    rw [(below (.ofString "./podinfo/") _ (by decide) hcheck).1]
    decide
  · have hcheck : checkFilename "/a/../labels".toList = .error (.absolute "/a/../labels".toList) := by decide
    refine (refused _ _ hcheck).2 (.podinfoFile .keyValues "/a/../labels".toList) rfl _ _ _ ?_
    intro columns h
    cases h
    rfl

end HostTables.Query
