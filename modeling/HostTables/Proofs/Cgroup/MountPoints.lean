/-
  HostTables.Proofs.Cgroup.MountPoints — a root whose mount point the kernel does not write as it is.

  In a mount table a space, a tab, a line feed and a backslash stand as octal numbers behind a backslash
  (`Text.escaped`). Escapes leave slashes alone, so an escaped path has the components of the path, each escaped
  (`components_escaped`). A component without these characters is its own escape and no other's
  (`Component.escaped_eq_iff`), and one with them is not its own escape (`Component.escaped_ne`).

  Detection compares the written mount point with the root. For a root without these characters that is the same as
  comparing the mount point itself (`prefix_escaped_iff`); for any other, no mount at or below the root is
  seen to be there (`not_prefix_escaped`). Nor is there a mode for a root with any other blank, at which mount
  lines are cut (`solid_of_detectMode`). `roots_recognised` has the three cases; `escaped_root_not_recognised` is
  the second one for a root with a space, in both versions.
-/
import HostTables.Proofs.Cgroup.MountRows
import HostTables.Proofs.Path.Join

namespace HostTables

/-! ## Escapes -/

namespace Text

/-- The characters that the kernel escapes in a mount point. -/
def Special (c : Char) : Prop := c ∈ [' ', '\t', '\n', '\\']

instance (c : Char) : Decidable (Special c) := inferInstanceAs (Decidable (_ ∈ _))

def escapeChar (c : Char) : Text :=
  if c = ' ' then "\\040".toList
  else if c = '\t' then "\\011".toList
  else if c = '\n' then "\\012".toList
  else if c = '\\' then "\\134".toList
  else [c]

/-- The text as the kernel writes it in a mount point. -/
def escaped (t : Text) : Text := t.flatMap escapeChar

/-- The text is written as it is. -/
def Verbatim (t : Text) : Prop := ∀ c ∈ t, ¬ Special c

/-- The only blanks of the text are those with an escape. -/
def BlanksEscaped (t : Text) : Prop := ∀ c ∈ t, isBlank c = true → Special c

instance (t : Text) : Decidable t.Verbatim := List.decidableBAll _ t

instance (t : Text) : Decidable t.BlanksEscaped := List.decidableBAll _ t

variable {t u : Text} {c : Char}

theorem escapeChar_of_special (h : Special c) :
    (escapeChar c).length = 4 ∧ '\\' ∈ escapeChar c ∧ '/' ∉ escapeChar c ∧ (escapeChar c).Solid := by
  simp only [Special, List.mem_cons, List.not_mem_nil, or_false] at h
  rcases h with rfl | rfl | rfl | rfl <;> decide

theorem escapeChar_of_not_special (h : ¬ Special c) : escapeChar c = [c] := by
  simp only [Special, List.mem_cons, List.not_mem_nil, or_false, not_or] at h
  obtain ⟨hspace, htab, hfeed, hbackslash⟩ := h
  simp [escapeChar, hspace, htab, hfeed, hbackslash]

theorem escaped_cons (c : Char) (t : Text) : escaped (c :: t) = escapeChar c ++ escaped t := List.flatMap_cons

theorem length_escaped (t : Text) : (escaped t).length = t.length + 3 * t.countP (Special ·) := by
  induction t with
  | nil => rfl
  | cons c t ih =>
    rw [escaped_cons, List.length_append, ih, List.countP_cons, List.length_cons]
    by_cases h : Special c
    · simp only [h, decide_true, if_true, (escapeChar_of_special h).1]
      omega
    · simp only [h, decide_false, Bool.false_eq_true, if_false, escapeChar_of_not_special h, List.length_singleton]
      omega

theorem escaped_of_verbatim (h : t.Verbatim) : escaped t = t := by
  induction t with
  | nil => rfl
  | cons c t ih =>
    obtain ⟨hc, ht⟩ := List.forall_mem_cons.mp h
    rw [escaped_cons, escapeChar_of_not_special hc, ih ht, List.singleton_append]

theorem escaped_ne (h : ∃ c ∈ t, Special c) : escaped t ≠ t := by
  have hcount : 0 < t.countP (Special ·) := List.countP_pos_iff.mpr (by simpa using h)
  intro heq
  have hlength := length_escaped t
  rw [heq] at hlength
  omega

/-- A text without escapes is written for itself only. -/
theorem escaped_eq_iff (h : u.Verbatim) : escaped t = u ↔ t = u := by
  constructor
  · rintro rfl
    refine (escaped_of_verbatim fun c hc hspecial => ?_).symm
    have hmem : '\\' ∈ escaped t := List.mem_flatMap.mpr ⟨c, hc, (escapeChar_of_special hspecial).2.1⟩
    exact h _ hmem (by decide)
  · rintro rfl
    exact escaped_of_verbatim h

theorem slash_of_mem_escaped (h : '/' ∈ escaped t) : '/' ∈ t := by
  obtain ⟨c, hc, hslash⟩ := List.mem_flatMap.mp h
  by_cases hspecial : Special c
  · exact absurd hslash (escapeChar_of_special hspecial).2.2.1
  · rw [escapeChar_of_not_special hspecial, List.mem_singleton] at hslash
    rwa [hslash]

theorem escaped_append_slash (a b : Text) : escaped (a ++ '/' :: b) = escaped a ++ '/' :: escaped b := by
  rw [escaped, List.flatMap_append, List.flatMap_cons]
  rfl

theorem solid_escaped (h : t.BlanksEscaped) : (escaped t).Solid := by
  intro d hd
  obtain ⟨c, hc, hdc⟩ := List.mem_flatMap.mp hd
  by_cases hspecial : Special c
  · exact (escapeChar_of_special hspecial).2.2.2 d hdc
  · rw [escapeChar_of_not_special hspecial, List.mem_singleton] at hdc
    rw [hdc]
    exact Bool.eq_false_iff.mpr fun hblank => hspecial (h c hc hblank)

end Text

/-! ## Components -/

open Text (Special escaped)

namespace Component

def escaped : Component → Component
  | .normal name => .normal (Text.escaped name)
  | component => component

/-- The component is written without escapes. -/
def Plain : Component → Prop
  | .normal name => name.Verbatim
  | _ => True

variable {component other : Component}

theorem escaped_eq_iff (h : component.Plain) : other.escaped = component ↔ other = component := by
  cases other with
  | normal name =>
    cases component with
    | normal name' =>
      rw [escaped, normal.injEq, normal.injEq]
      exact Text.escaped_eq_iff h
    | _ => simp [escaped]
  | _ => exact Iff.rfl

theorem escaped_ne {name : Text} (h : ∃ c ∈ name, Special c) : (normal name).escaped ≠ .normal name := by
  rw [escaped, ne_eq, normal.injEq]
  exact Text.escaped_ne h

theorem ofSegment?_escaped (segment : Text) :
    ofSegment? (Text.escaped segment) = (ofSegment? segment).map escaped := by
  have hfixed : ∀ u : Text, u.Verbatim → (Text.escaped segment = u ↔ segment = u) :=
    fun u => Text.escaped_eq_iff
  simp only [ofSegment?, hfixed [] (by decide), hfixed ['.'] (by decide), hfixed ['.', '.'] (by decide)]
  split
  · rfl
  · split <;> rfl

end Component

namespace Path

theorem segments_escaped (t : Text) : segments (Text.escaped t) = (segments t).map Component.escaped := by
  have hcut : (Text.escaped t).splitOn '/' = (t.splitOn '/').map Text.escaped :=
    Text.splitOn_map Text.escaped_append_slash (fun _ => Text.slash_of_mem_escaped) t
  rw [segments, segments, hcut, List.filterMap_map, List.map_filterMap]
  exact List.filterMap_congr fun segment _ => Component.ofSegment?_escaped segment

theorem isAbsolute_iff {p : Path} : p.isAbsolute = true ↔ ∃ rest, p.text = '/' :: rest := by
  rw [isAbsolute, beq_iff_eq, List.head?_eq_some_iff]

theorem text_ne_nil_of_absolute {p : Path} (h : p.isAbsolute = true) : p.text ≠ [] := by
  obtain ⟨rest, hrest⟩ := isAbsolute_iff.mp h
  rw [hrest]
  exact List.cons_ne_nil _ _

/-- A slash is its own escape. -/
theorem isAbsolute_escaped {p : Path} (h : p.isAbsolute = true) :
    (Path.mk (Text.escaped p.text)).isAbsolute = true := by
  obtain ⟨rest, hrest⟩ := isAbsolute_iff.mp h
  exact isAbsolute_iff.mpr ⟨Text.escaped rest, congrArg Text.escaped hrest⟩

theorem components_escaped {p : Path} (h : p.isAbsolute = true) :
    (Path.mk (Text.escaped p.text)).components = p.components.map Component.escaped := by
  rw [components_of_absolute (isAbsolute_escaped h), components_of_absolute h, segments_escaped]
  rfl

theorem normal_mem_components {p : Path} {name : Text} :
    .normal name ∈ p.components ↔ Component.normal name ∈ segments p.text := by
  rw [components, List.mem_append, segments, or_iff_right_iff_imp]
  split
  · simp
  · split <;> simp

/-- A character of the text is a slash or a dot, or in the name of a component. -/
theorem exists_component {p : Path} {c : Char} (hc : c ∈ p.text) (hslash : c ≠ '/') (hdot : c ≠ '.') :
    ∃ name, .normal name ∈ p.components ∧ c ∈ name := by
  have hpiece : ∃ name ∈ p.text.splitOn '/', c ∈ name := by
    by_contra hnone
    push Not at hnone
    have hjoined : Text.joined ['/'] (p.text.splitOn '/') = p.text := List.intercalate_splitOn '/'
    exact Text.not_mem_joined hslash hnone (by rwa [hjoined])
  obtain ⟨name, hname, hcname⟩ := hpiece
  refine ⟨name, normal_mem_components.mpr (List.mem_filterMap.mpr ⟨name, hname, ?_⟩), hcname⟩
  have hne : ∀ u : Text, c ∉ u → name ≠ u := fun u hu heq => hu (heq ▸ hcname)
  simp [Component.ofSegment?, hne [] (by simp), hne ['.'] (by simp [hdot]), hne ['.', '.'] (by simp [hdot])]

/-- The name of a component is a part of the text. -/
theorem subset_of_component {p : Path} {name : Text} (h : .normal name ∈ p.components) : name ⊆ p.text := by
  obtain ⟨piece, hpiece, hsegment⟩ := List.mem_filterMap.mp (normal_mem_components.mp h)
  unfold Component.ofSegment? at hsegment
  split at hsegment
  · cases hsegment
  · rename_i hne
    split at hsegment
    · cases hsegment
    · cases hsegment
      have hfield : name ∈ Text.fields '/' p.text := List.mem_filter.mpr ⟨hpiece, by simpa using (not_or.mp hne).1⟩
      exact (Text.piece_of_spread (Text.spread_fields p.text) name hfield).2.2

theorem plain_components {p : Path} (h : p.text.Verbatim) : ∀ component ∈ p.components, component.Plain := by
  intro component hcomponent
  cases component with
  | normal name => exact fun c hc => h c (subset_of_component hcomponent hc)
  | _ => trivial

end Path

/-! ## Mounts and roots -/

section Comparison

variable {root path : List Component}

theorem prefix_escaped_iff (h : ∀ component ∈ root, component.Plain) :
    root <+: path.map Component.escaped ↔ root <+: path := by
  induction root generalizing path with
  | nil => simp
  | cons component root ih =>
    obtain ⟨hcomponent, hroot⟩ := List.forall_mem_cons.mp h
    cases path with
    | nil => rfl
    | cons other path =>
      rw [List.map_cons, List.cons_prefix_cons, List.cons_prefix_cons, ih hroot, eq_comm,
        Component.escaped_eq_iff hcomponent, eq_comm]

theorem map_escaped_eq_iff (h : ∀ component ∈ root, component.Plain) :
    path.map Component.escaped = root ↔ path = root := by
  have hlength : (path.map Component.escaped).length = path.length := List.length_map ..
  constructor
  · intro heq
    have hbelow : root <+: path := (prefix_escaped_iff h).mp (heq ▸ List.prefix_refl _)
    exact (hbelow.eq_of_length (by rw [← hlength, heq])).symm
  · rintro rfl
    have hbelow : path <+: path.map Component.escaped := (prefix_escaped_iff h).mpr (List.prefix_refl path)
    exact (hbelow.eq_of_length hlength.symm).symm

/-- What is at or below the root is not written so, when the root is not written as it is. -/
theorem not_prefix_escaped {name : Text} (hname : .normal name ∈ root) (hspecial : ∃ c ∈ name, Special c)
    (hbelow : root <+: path) : ¬ root <+: path.map Component.escaped := by
  obtain ⟨rest, rfl⟩ := hbelow
  rintro ⟨more, hmore⟩
  rw [List.map_append] at hmore
  have hsame : root.map id = root.map Component.escaped := by
    rw [List.map_id]
    exact (List.append_inj hmore (List.length_map ..).symm).1
  exact Component.escaped_ne hspecial (List.map_inj_left.mp hsame _ hname).symm

end Comparison

namespace Mount

/-- The mount is mounted at the path, which the table has as the kernel writes it. -/
def MountedAt (m : Mount) (p : Path) : Prop := p.isAbsolute = true ∧ m.mountPoint = escaped p.text

/-- A mount table that is read as it was written, with all its mount points. -/
structure Listing (mounts : List Mount) (content : Text) : Prop where
  written : ∀ m ∈ mounts, m.Written
  solid : ∀ m ∈ mounts, ∀ cell ∈ m.cells, cell.Solid
  mounted : ∀ m ∈ mounts, ∃ p, m.MountedAt p
  lines : Text.Spread '\n' (mounts.map line) content

def place (m : Mount) : MountPlace := ⟨m.mountPoint, m.fsType⟩

/-- A mount of this type at the path. -/
def ofType (fsType : Text) (p : Path) : Mount where
  mountId := "42".toList
  parentId := "35".toList
  major := ['0']
  minor := "39".toList
  root := ['/']
  mountPoint := escaped p.text
  mountOptions := "rw".toList
  optional := []
  fsType := fsType
  source := "none".toList
  superOptions := "rw".toList

/-- A path can be the mount point in a table that is read as it was written, unless it has a blank without an escape. -/
theorem listing_ofType {fsType : Text} {p : Path} (hne : fsType ≠ []) (htype : fsType.Solid)
    (habsolute : p.isAbsolute = true) (h : p.text.BlanksEscaped) :
    Listing [ofType fsType p] (ofType fsType p).line := by
  have hsolid : Text.Solid (escaped p.text) := Text.solid_escaped h
  have hclean : ∀ t : Text, t ≠ [] → t.Solid → t ≠ [] ∧ ' ' ∉ t ∧ '\t' ∉ t ∧ '\n' ∉ t := by
    intro t ht hsolid
    have hblank : ∀ c, Text.isBlank c = true → c ∉ t := fun c hc hm => by simp [hsolid c hm] at hc
    exact ⟨ht, hblank _ rfl, hblank _ rfl, hblank _ rfl⟩
  have hslash : ∃ rest, escaped p.text = '/' :: rest := Path.isAbsolute_iff.mp (Path.isAbsolute_escaped habsolute)
  obtain ⟨rest, hrest⟩ := hslash
  have hpoint : escaped p.text ≠ [] ∧ escaped p.text ≠ separator := by simp [hrest, separator]
  have hwritten : (ofType fsType p).Written := by
    refine ⟨?_, ?_, by simp [ofType]⟩
    · simp only [leading, trailing, device, ofType, List.append_nil, List.cons_append, List.nil_append,
        List.forall_mem_cons]
      exact ⟨by decide, by decide, by decide, by decide, hclean _ hpoint.1 hsolid, by decide, hclean _ hne htype,
        by decide, by decide, List.forall_mem_nil _⟩
    · simp only [leading, device, ofType, List.append_nil, List.forall_mem_cons]
      exact ⟨by decide, by decide, by decide, by decide, hpoint.2, by decide, List.forall_mem_nil _⟩
  refine ⟨List.forall_mem_singleton.mpr hwritten, List.forall_mem_singleton.mpr ?_,
    List.forall_mem_singleton.mpr ⟨p, habsolute, rfl⟩, .last (line_ne_nil hwritten) (newline_not_mem_line hwritten)⟩
  simp only [cells, ofType, List.forall_mem_cons]
  exact ⟨by decide, by decide, by decide, by decide, by decide, hsolid, by decide, htype, by decide, by decide,
    List.forall_mem_nil _⟩

theorem MountedAt.components {m : Mount} {p : Path} (h : m.MountedAt p) :
    (Path.mk m.place.mountPoint).components = p.components.map Component.escaped := by
  rw [place, h.2, Path.components_escaped h.1]

end Mount

namespace Cgroup

variable {files : FileTree} {origin root : Path} {mounts : List Mount} {content : Text}

/-- Detection on such a table. -/
theorem detectMode_of_listing (h : Mount.Listing mounts content) (hroot : files.pathExists root = .ok true)
    (hread : files.readBytes origin = .ok (Utf8.encode content)) :
    detectMode files origin root = modeAnswer origin root (modeAt? root (mounts.map Mount.place)) := by
  have hplaces : placesOf (mounts.map Mount.row) = mounts.map Mount.place := by
    rw [placesOf, List.filterMap_map, ← List.filterMap_eq_map]
    exact List.filterMap_congr fun m _ => rfl
  rw [detectMode_of_rows (Mount.rows_written h.written h.solid h.lines) hroot hread, hplaces]

/-- The mount is where a mount of the kind is under the root. -/
def Is (root : Path) (m : Mount) (kind : MountKind) : Prop := ∃ p, m.MountedAt p ∧ kind.At root ⟨p.text, m.fsType⟩

/-- Under a root without escapes a mount is seen to be of the kind that it is of. -/
theorem at_place_iff {m : Mount} {p : Path} (hm : m.MountedAt p) (habsolute : root.isAbsolute = true)
    (hplain : root.text.Verbatim) (kind : MountKind) :
    kind.At root m.place ↔ kind.At root ⟨p.text, m.fsType⟩ := by
  have hcomponents : ∀ component ∈ root.components, component.Plain := Path.plain_components hplain
  have hbeside : ∀ component ∈ (root.join unifiedName).components, component.Plain := by
    rw [Path.components_join (Path.text_ne_nil_of_absolute habsolute) (by decide)]
    have hname : ∀ component ∈ Path.segments unifiedName, component.Plain := by
      intro component hmem
      rw [show Path.segments unifiedName = [.normal unifiedName] by decide, List.mem_singleton] at hmem
      rw [hmem]
      exact (by decide : unifiedName.Verbatim)
    exact List.forall_mem_append.mpr ⟨hcomponents, hname⟩
  cases kind with
  | atRoot => exact and_congr_right fun _ => by rw [hm.components]; exact map_escaped_eq_iff hcomponents
  | beside => exact and_congr_right fun _ => by rw [hm.components]; exact map_escaped_eq_iff hbeside
  | below => exact and_congr_right fun _ => by rw [hm.components]; exact prefix_escaped_iff hcomponents

theorem exists_place_iff (h : Mount.Listing mounts content) (habsolute : root.isAbsolute = true)
    (hplain : root.text.Verbatim) (kind : MountKind) :
    (∃ place ∈ mounts.map Mount.place, kind.At root place) ↔ ∃ m ∈ mounts, Is root m kind := by
  constructor
  · rintro ⟨place, hplace, hkind⟩
    obtain ⟨m, hm, rfl⟩ := List.mem_map.mp hplace
    obtain ⟨p, hp⟩ := h.mounted m hm
    exact ⟨m, hm, p, hp, (at_place_iff hp habsolute hplain kind).mp hkind⟩
  · rintro ⟨m, hm, p, hp, hkind⟩
    exact ⟨m.place, List.mem_map_of_mem hm, (at_place_iff hp habsolute hplain kind).mpr hkind⟩

/-- What each answer says about the places. -/
theorem modeAt?_cases (root : Path) (places : List MountPlace) :
    (modeAt? root places = some .unified ↔
      (∃ place ∈ places, MountKind.atRoot.At root place) ∧ ¬ ∃ place ∈ places, MountKind.below.At root place) ∧
    (modeAt? root places = some .legacy ↔ (∃ place ∈ places, MountKind.below.At root place) ∧
      (¬ ∃ place ∈ places, MountKind.atRoot.At root place) ∧ ¬ ∃ place ∈ places, MountKind.beside.At root place) ∧
    (modeAt? root places = none ↔
      (¬ ∃ place ∈ places, MountKind.atRoot.At root place) ∧ ¬ ∃ place ∈ places, MountKind.below.At root place) := by
  unfold modeAt?
  by_cases hbelow : ∃ place ∈ places, MountKind.below.At root place
  · by_cases hroot : ∃ place ∈ places, MountKind.atRoot.At root place
    · simp [hbelow, hroot]
    · by_cases hbeside : ∃ place ∈ places, MountKind.beside.At root place
      · simp [hbelow, hroot, hbeside]
      · simp [hbelow, hroot, hbeside]
  · by_cases hroot : ∃ place ∈ places, MountKind.atRoot.At root place
    · simp [hbelow, hroot]
    · simp [hbelow, hroot]

/-! ## Detection -/

theorem modeAnswer_eq_ok_iff {found : Option CgroupMode} {mode : CgroupMode} :
    modeAnswer origin root found = .ok mode ↔ found = some mode := by
  cases found with
  | none => simp [modeAnswer]
  | some other => simp [modeAnswer]

/-- A root that the kernel writes as it is has the mode of the mounts where they are. -/
theorem detectMode_of_plain (h : Mount.Listing mounts content) (habsolute : root.isAbsolute = true)
    (hplain : root.text.Verbatim) (hroot : files.pathExists root = .ok true)
    (hread : files.readBytes origin = .ok (Utf8.encode content)) :
    (detectMode files origin root = .ok .unified ↔
      (∃ m ∈ mounts, Is root m .atRoot) ∧ ¬ ∃ m ∈ mounts, Is root m .below) ∧
    (detectMode files origin root = .ok .legacy ↔
      (∃ m ∈ mounts, Is root m .below) ∧ (¬ ∃ m ∈ mounts, Is root m .atRoot) ∧ ¬ ∃ m ∈ mounts, Is root m .beside) := by
  obtain ⟨hunified, hlegacy, -⟩ := modeAt?_cases root (mounts.map Mount.place)
  simp only [exists_place_iff h habsolute hplain] at hunified hlegacy
  simp only [detectMode_of_listing h hroot hread, modeAnswer_eq_ok_iff]
  exact ⟨hunified, hlegacy⟩

/-- No mount at or below any other root is seen to be there. -/
theorem detectMode_of_special (h : Mount.Listing mounts content) (hspecial : ∃ c ∈ root.text, Special c)
    (hroot : files.pathExists root = .ok true) (hread : files.readBytes origin = .ok (Utf8.encode content))
    (hbelow : ∀ m ∈ mounts, m.fsType = "cgroup".toList ∨ m.fsType = "cgroup2".toList →
      ∃ p, m.MountedAt p ∧ root.components <+: p.components) :
    detectMode files origin root = .error (.noCgroupMount root origin) := by
  obtain ⟨c, hc, hspecial⟩ := hspecial
  have hslash : c ≠ '/' := by rintro rfl; exact absurd hspecial (by decide)
  have hdot : c ≠ '.' := by rintro rfl; exact absurd hspecial (by decide)
  obtain ⟨name, hname, hcname⟩ := Path.exists_component hc hslash hdot
  have hunseen : ∀ place ∈ mounts.map Mount.place, place.fsType = "cgroup".toList ∨ place.fsType = "cgroup2".toList →
      ¬ root.components <+: (Path.mk place.mountPoint).components := by
    intro place hplace htype
    obtain ⟨m, hm, rfl⟩ := List.mem_map.mp hplace
    obtain ⟨p, hp, hunder⟩ := hbelow m hm htype
    rw [hp.components]
    exact not_prefix_escaped hname ⟨c, hcname, hspecial⟩ hunder
  have hnone : modeAt? root (mounts.map Mount.place) = none := by
    refine (modeAt?_cases root _).2.2.mpr ⟨?_, ?_⟩
    · rintro ⟨place, hplace, htype, hsame⟩
      exact hunseen place hplace (Or.inr htype) (hsame ▸ List.prefix_refl _)
    · rintro ⟨place, hplace, htype, hunder⟩
      exact hunseen place hplace (Or.inl htype) hunder
  rw [detectMode_of_listing h hroot hread, hnone]
  rfl

theorem solid_of_mountsOf {lines : List (List UInt8)} {found : List MountLine} (h : mountsOf origin lines = .ok found) :
    ∀ mount ∈ found, mount.mountPoint.Solid := by
  induction lines generalizing found with
  | nil =>
    cases h
    nofun
  | cons line rest ih =>
    obtain ⟨here, hhere, h⟩ := bind_eq_ok.mp h
    obtain ⟨more, hmore, h⟩ := bind_eq_ok.mp h
    cases h
    refine List.forall_mem_append.mpr ⟨fun mount hmount => ?_, ih hmore⟩
    unfold mountOf? at hhere
    split at hhere
    · cases hhere
    · split at hhere
      · cases hhere
        cases hmount
      · split at hhere
        · rename_i found hfound
          cases hhere
          cases List.mem_singleton.mp hmount
          exact MountLine.solid_of_ofText hfound _ (by simp)
        · cases hhere

/-- Some mount that was read is at the root or below it. -/
theorem exists_mount_of_detectMode {mode : CgroupMode} (h : detectMode files origin root = .ok mode) :
    ∃ mount : MountLine, mount.mountPoint.Solid ∧ root.components <+: (Path.mk mount.mountPoint).components := by
  unfold detectMode at h
  split at h
  · cases h
  · cases h
  · split at h
    · cases h
    · split at h
      · cases h
      · obtain ⟨found, hfound, h⟩ := bind_eq_ok.mp h
        have hsome : modeOf? root found ≠ none := by
          intro hnone
          rw [hnone] at h
          cases h
        have hkind : Has root .atRoot found ∨ Has root .below found := by
          rw [ne_eq, (modeOf?_cases root found).2.2.2, ← not_or, not_not] at hsome
          exact hsome
        rcases hkind with ⟨mount, hmount, -, hsame⟩ | ⟨mount, hmount, -, hunder⟩
        · exact ⟨mount, solid_of_mountsOf hfound mount hmount, hsame ▸ List.prefix_refl _⟩
        · exact ⟨mount, solid_of_mountsOf hfound mount hmount, hunder⟩

/-- A root with a mode has no blank, as no mount point that is read has one. -/
theorem solid_of_detectMode {mode : CgroupMode} (h : detectMode files origin root = .ok mode) : root.text.Solid := by
  obtain ⟨mount, hsolid, hunder⟩ := exists_mount_of_detectMode h
  intro c hc
  by_contra hblank
  have hslash : c ≠ '/' := by rintro rfl; exact hblank (by decide)
  have hdot : c ≠ '.' := by rintro rfl; exact hblank (by decide)
  obtain ⟨name, hname, hcname⟩ := Path.exists_component hc hslash hdot
  exact hblank (hsolid c (Path.subset_of_component (hunder.subset hname) hcname))

theorem is_below_of_controller {m : Mount} {controller : Text} (habsolute : root.isAbsolute = true)
    (hcontroller : controller.head? ≠ some '/') (htype : m.fsType = "cgroup".toList)
    (hm : m.MountedAt (root.join controller)) : Is root m .below := by
  refine ⟨_, hm, htype, ?_⟩
  rw [Path.components_join (Path.text_ne_nil_of_absolute habsolute) hcontroller]
  exact List.prefix_append ..

/-- Whether the mounts at a root are seen to be there is a matter of how the kernel writes the root. Without escapes
    they are: version 2 at the root and no version 1 is unified, and a version 1 controller below it without version
    2 is legacy. With an escape no mount at or below the root is seen, of which version ever, so that no table of
    such mounts has a mode; unless the root has another blank the table of a mount at the root is such a table. A
    root with any blank has no mode whatever is mounted. -/
theorem roots_recognised (origin root : Path) (habsolute : root.isAbsolute = true) :
    (root.text.Verbatim → ∀ (files : FileTree) (mounts : List Mount) (content : Text),
      Mount.Listing mounts content → files.pathExists root = .ok true →
      files.readBytes origin = .ok (Utf8.encode content) →
      ((∃ m ∈ mounts, m.fsType = "cgroup2".toList ∧ m.MountedAt root) → (¬ ∃ m ∈ mounts, Is root m .below) →
        detectMode files origin root = .ok .unified) ∧
      ∀ controller, controller.head? ≠ some '/' →
        (∃ m ∈ mounts, m.fsType = "cgroup".toList ∧ m.MountedAt (root.join controller)) →
        (¬ ∃ m ∈ mounts, Is root m .atRoot) → (¬ ∃ m ∈ mounts, Is root m .beside) →
        detectMode files origin root = .ok .legacy) ∧
    ((∃ c ∈ root.text, Special c) →
      (∀ (files : FileTree) (mounts : List Mount) (content : Text),
        Mount.Listing mounts content → files.pathExists root = .ok true →
        files.readBytes origin = .ok (Utf8.encode content) →
        (∀ m ∈ mounts, m.fsType = "cgroup".toList ∨ m.fsType = "cgroup2".toList →
          ∃ p, m.MountedAt p ∧ root.components <+: p.components) →
        detectMode files origin root = .error (.noCgroupMount root origin)) ∧
      (root.text.BlanksEscaped →
        ∀ fsType : Text, fsType ≠ [] → fsType.Solid →
          Mount.Listing [Mount.ofType fsType root] (Mount.ofType fsType root).line)) ∧
    ((∃ c ∈ root.text, Text.isBlank c = true) → ∀ (files : FileTree) (mode : CgroupMode),
      detectMode files origin root ≠ .ok mode) := by
  refine ⟨?_, ?_, ?_⟩
  · intro hplain files mounts content hlisting hroot hread
    obtain ⟨hunified, hlegacy⟩ := detectMode_of_plain hlisting habsolute hplain hroot hread
    refine ⟨?_, ?_⟩
    · rintro ⟨m, hm, htype, hmounted⟩ hnone
      exact hunified.mpr ⟨⟨m, hm, root, hmounted, htype, rfl⟩, hnone⟩
    · rintro controller hcontroller ⟨m, hm, htype, hmounted⟩ hroot hbeside
      exact hlegacy.mpr ⟨⟨m, hm, is_below_of_controller habsolute hcontroller htype hmounted⟩, hroot, hbeside⟩
  · intro hspecial
    exact ⟨fun files mounts content hlisting => detectMode_of_special hlisting hspecial,
      fun hblank fsType hne htype => Mount.listing_ofType hne htype habsolute hblank⟩
  · rintro ⟨c, hc, hblank⟩ files mode hmode
    rw [solid_of_detectMode hmode c hc] at hblank
    cases hblank

/-- A host with two directories for a cgroup root, and this mount table. -/
def rootedFiles (content : Text) : FileTree :=
  ⟨[(["cg".toList], .directory), (["my cg".toList], .directory),
    (["mountinfo".toList], .file (Utf8.encode content))], []⟩

theorem readBytes_rootedFiles (content : Text) :
    (rootedFiles content).readBytes (.ofString "/mountinfo") = .ok (Utf8.encode content) := rfl

/-- Version 2 at the path. -/
def unifiedAt (p : Path) : Mount := .ofType "cgroup2".toList p

/-- Version 1 at the path. -/
def legacyAt (p : Path) : Mount := .ofType "cgroup".toList p

/-- A disk whose mount point is written with an escape, an empty line, and version 2 at the root. -/
def diskMounts : List Mount := [.ofType "xfs".toList (.ofString "/my disk"), unifiedAt (.ofString "/cg")]

def diskContent : Text := Text.joined "\n\n".toList (diskMounts.map Mount.line)

theorem listing_diskContent : Mount.Listing diskMounts diskContent := by
  refine ⟨?_, by decide, ?_, .piece (by decide) (by decide) (.gap (.last (by decide) (by decide)))⟩
  · simp only [diskMounts, List.forall_mem_cons]
    exact ⟨⟨by decide, by decide, by decide⟩, ⟨by decide, by decide, by decide⟩, nofun⟩
  · simp only [diskMounts, List.forall_mem_cons]
    exact ⟨⟨.ofString "/my disk", rfl, rfl⟩, ⟨.ofString "/cg", rfl, rfl⟩, nofun⟩

theorem root_without_escapes_recognised :
    detectMode (rootedFiles diskContent) (.ofString "/mountinfo") (.ofString "/cg") = .ok .unified ∧
    detectMode (rootedFiles (legacyAt (.ofString "/cg/cpu")).line) (.ofString "/mountinfo") (.ofString "/cg") =
      .ok .legacy ∧
    detectMode (rootedFiles (unifiedAt (.ofString "/my cg")).line) (.ofString "/mountinfo") (.ofString "/my cg") =
      .error (.noCgroupMount (.ofString "/my cg") (.ofString "/mountinfo")) := by
  obtain ⟨plain, -, -⟩ := roots_recognised (.ofString "/mountinfo") (.ofString "/cg") rfl
  obtain ⟨-, special, -⟩ := roots_recognised (.ofString "/mountinfo") (.ofString "/my cg") rfl
  have hdisk : ∀ m ∈ diskMounts, m.fsType ≠ "cgroup".toList := by decide
  have hlegacy : ∀ m ∈ [legacyAt (.ofString "/cg/cpu")], m.fsType ≠ "cgroup2".toList := by decide
  refine ⟨?_, ?_, ?_⟩
  · refine (plain (by decide) _ _ _ listing_diskContent rfl (readBytes_rootedFiles _)).1
      ⟨_, List.mem_cons_of_mem _ List.mem_cons_self, rfl, rfl, rfl⟩ ?_
    rintro ⟨m, hm, p, -, htype, -⟩
    exact hdisk m hm htype
  · have hlisting : Mount.Listing [legacyAt (.ofString "/cg/cpu")] (legacyAt (.ofString "/cg/cpu")).line :=
      Mount.listing_ofType (by decide) (by decide) rfl (by decide)
    refine (plain (by decide) _ _ _ hlisting rfl (readBytes_rootedFiles _)).2 "cpu".toList
      (by decide) ⟨_, List.mem_cons_self, rfl, rfl, rfl⟩ ?_ ?_
    · rintro ⟨m, hm, p, -, htype, -⟩
      exact hlegacy m hm htype
    · rintro ⟨m, hm, p, -, htype, -⟩
      exact hlegacy m hm htype
  · obtain ⟨unseen, written⟩ := special ⟨' ', by decide, by decide⟩
    have hlisting : Mount.Listing [unifiedAt (.ofString "/my cg")] (unifiedAt (.ofString "/my cg")).line :=
      written (by decide) _ (by decide) (by decide)
    refine unseen _ _ _ hlisting rfl (readBytes_rootedFiles _) (List.forall_mem_singleton.mpr fun _ => ?_)
    exact ⟨.ofString "/my cg", ⟨rfl, rfl⟩, List.prefix_refl _⟩

/-- A root with a space, and version 2 at it or version 1 below it: the table has the mount, and detection says that
    there is none. -/
theorem escaped_root_not_recognised :
    (unifiedAt (.ofString "/my cg")).line = "42 35 0:39 / /my\\040cg rw - cgroup2 none rw".toList ∧
    (legacyAt (.ofString "/my cg/cpu")).line = "42 35 0:39 / /my\\040cg/cpu rw - cgroup none rw".toList ∧
    ∀ m ∈ [unifiedAt (.ofString "/my cg"), legacyAt (.ofString "/my cg/cpu")],
      Mount.Listing [m] m.line ∧
      (rootedFiles m.line).pathExists (.ofString "/my cg") = .ok true ∧
      (rootedFiles m.line).readBytes (.ofString "/mountinfo") = .ok (Utf8.encode m.line) ∧
      detectMode (rootedFiles m.line) (.ofString "/mountinfo") (.ofString "/my cg") =
        .error (.noCgroupMount (.ofString "/my cg") (.ofString "/mountinfo")) := by
  refine ⟨by decide, by decide, ?_⟩
  simp only [List.forall_mem_cons]
  refine ⟨⟨?_, rfl, readBytes_rootedFiles _, by decide +kernel⟩, ⟨?_, rfl, readBytes_rootedFiles _, by decide +kernel⟩,
    nofun⟩
  · exact Mount.listing_ofType (by decide) (by decide) rfl (by decide)
  · exact Mount.listing_ofType (by decide) (by decide) rfl (by decide)

end Cgroup

end HostTables
