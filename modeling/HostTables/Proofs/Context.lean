/-
  HostTables.Proofs.Context — the directories that a context resolves names under.

  Under the empty path a name would be resolved in whatever directory the process is in. No
  context that is set up has such a directory (`ofConfig_anchored`): a subsystem is on only if
  its root has been found, and every directory of a path table is joined onto that root.
-/
import HostTables.Context
import HostTables.Proofs.Cgroup.Confinement
import HostTables.Proofs.Outcome

namespace HostTables

/-! ## The empty path -/

theorem FileTree.pathExists_of_empty {files : FileTree} {path : Path} (h : path.text = []) :
    files.pathExists path = .ok false := by
  have hshort : isTooLong path = false := by
    rw [isTooLong, h]
    rfl
  simp [pathExists, locate, canonical, hshort, h]

theorem Path.join_ne_empty {p : Path} (hp : p.text ≠ []) (t : Text) : (p.join t).text ≠ [] := by
  unfold join
  split
  · rename_i h
    intro ht
    rw [show t = [] from ht] at h
    cases h
  · split <;> simp [hp]

/-! ## Cgroup directories -/

namespace Cgroup

theorem directoryUnder_ne_empty {base : Path} (hb : base.text ≠ []) (path : Text) :
    (directoryUnder base path).text ≠ [] := by
  unfold directoryUnder
  split
  · exact hb
  · exact Path.join_ne_empty hb _

theorem legacyDirectory_ne_empty {root : Path} (hr : root.text ≠ []) (containerized : Bool) (m : Membership) :
    (legacyDirectory root containerized m).text ≠ [] := by
  unfold legacyDirectory
  split
  · exact Path.join_ne_empty hr _
  · exact directoryUnder_ne_empty (Path.join_ne_empty hr _) _

theorem unifiedDirectory_ne_empty {root : Path} (hr : root.text ≠ []) (path : Text) (containerized : Bool) :
    (PathTable.unifiedDirectory root path containerized).text ≠ [] := by
  unfold PathTable.unifiedDirectory
  split
  · exact hr
  · exact directoryUnder_ne_empty hr path

/-- The root of a mode that has been detected exists, so it is not the empty path. -/
theorem root_ne_empty_of_detectMode {files : FileTree} {mountTable root : Path} {mode : CgroupMode}
    (h : detectMode files mountTable root = .ok mode) : root.text ≠ [] := by
  intro hr
  rw [detectMode, FileTree.pathExists_of_empty hr] at h
  cases h

theorem pathTable_ne_empty {files : FileTree} {procRoot root : Path} {mode : CgroupMode}
    {members : List Membership} {containerized : Bool} {table : PathTable} (hr : root.text ≠ [])
    (h : pathTable files procRoot root mode members containerized = .ok table) :
    ∀ entry ∈ table.entries, entry.2.text ≠ [] := by
  intro entry he
  unfold pathTable at h
  split at h
  · cases h
    obtain ⟨name, m, -, hd⟩ := (PathTable.directory_ofLegacy_iff root members containerized entry.2).mp ⟨entry.1, he⟩
    rw [← hd]
    exact legacyDirectory_ne_empty hr containerized m
  · split at h
    · cases h
    · rename_i member _
      rw [(PathTable.directory_ofUnified_iff h entry.2).mp ⟨entry.1, he⟩]
      exact unifiedDirectory_ne_empty hr member.path containerized

/-- A resolved state has the mode that was surveyed and the table that the memberships give. -/
theorem resolve?_eq_ok {files : FileTree} {procRoot root : Path} {setting : Option Bool} {state : CgroupState}
    {notices : List Notice} (h : resolve? files procRoot root setting = (.ok state, notices)) :
    ∃ members, survey files procRoot root = .ok (state.mode, members) ∧ state.root = root ∧
      inContainer files setting (ownDirectory? root state.mode members) = (state.containerized, notices) ∧
      pathTable files procRoot root state.mode members state.containerized = .ok state.paths := by
  unfold resolve? at h
  split at h
  · cases h
  · rename_i mode members hsurvey
    obtain ⟨hstate, rfl⟩ := Prod.mk.inj h
    obtain ⟨table, htable, hmk⟩ := bind_eq_ok.mp hstate
    cases hmk
    exact ⟨members, hsurvey, rfl, rfl, htable⟩

theorem resolve_ne_empty (files : FileTree) (enabled : Bool) (procRoot root : Path) (setting : Option Bool) :
    ∀ entry ∈ (resolve files enabled procRoot root setting).1.paths.entries, entry.2.text ≠ [] := by
  have hoff : ∀ entry ∈ CgroupState.disabled.paths.entries, entry.2.text ≠ [] := fun _ he => by cases he
  unfold resolve
  split
  · split
    · rename_i state notices hs
      obtain ⟨members, hsurvey, -, -, htable⟩ := resolve?_eq_ok hs
      obtain ⟨mode, hmode, -⟩ := bind_eq_ok.mp hsurvey
      exact pathTable_ne_empty (root_ne_empty_of_detectMode hmode) htable
    · exact hoff
  · exact hoff

end Cgroup

/-! ## Contexts -/

/-- The directories that names are resolved under are not empty paths. -/
structure Context.Anchored (context : Context) : Prop where
  podinfo : context.podinfoEnabled = true → context.podinfoPath.text ≠ []
  cgroup : ∀ entry ∈ context.cgroup.paths.entries, entry.2.text ≠ []

/-- Every context that is set up is anchored, whatever the configuration says. -/
theorem Context.ofConfig_anchored (files : FileTree) (config : Config) : (ofConfig files config).1.Anchored where
  cgroup := Cgroup.resolve_ne_empty files _ _ _ _
  podinfo := by
    intro h hempty
    have hpath : config.podinfoPath.text = [] := hempty
    have hoff : (rootUsable files "kdapi" config.podinfoPath).1 = false := by
      rw [rootUsable, FileTree.pathExists_of_empty hpath]
    have hon : (if config.podinfoEnabled then rootUsable files "kdapi" config.podinfoPath
        else (false, [])).1 = true := h
    split at hon
    · rw [hoff] at hon
      cases hon
    · cases hon

end HostTables
