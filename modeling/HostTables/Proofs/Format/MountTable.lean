/-
  HostTables.Proofs.Format.MountTable — which mounts are read back from a mount table as they were written.

  A line of the table holds the fields of a mount with single spaces between them (`Mount.line`).
  A field is written without spaces, tabs and line feeds, and none in front of the separator
  looks like it (`Mount.Written`); other blanks stay as they are. So the line has its fields as
  tokens (`tokens_line`), and its first separator is the one it was written with
  (`splitSeparator?_line`). But on both sides of it fields are cut at every blank.
  `written_mounts_read_iff`: a table gives the rows of its mounts exactly when no cell of them has
  a blank, whatever the optional fields are. `mount_point_with_blank`: a mount point with a
  no-break space is cut in two.
-/
import HostTables.Format
import HostTables.Proofs.Outcome
import HostTables.Proofs.Text.Words

namespace HostTables

/-! ## Lines cut back into fields -/

namespace MountLine

open Text (joined joined_singleton joined_cons)

theorem dropLineFeeds_of_not_mem {t : Text} (h : '\n' ∉ t) : dropLineFeeds t = t := by
  have hdrop : t.reverse.dropWhile (· == '\n') = t.reverse := by
    cases hreverse : t.reverse with
    | nil => rfl
    | cons c rest =>
      have hm : c ∈ t := List.mem_reverse.mp (hreverse ▸ List.mem_cons_self)
      have hc : c ≠ '\n' := fun hfeed => h (hfeed ▸ hm)
      simp [hc]
  rw [dropLineFeeds, hdrop, List.reverse_reverse]

/-- No separator begins in a text without spaces. -/
theorem splitSeparator?_append {t : Text} (h : ' ' ∉ t) (rest : Text) :
    splitSeparator? (t ++ rest) = (splitSeparator? rest).map fun (before, after) => (t ++ before, after) := by
  induction t with
  | nil => simp
  | cons c t ih =>
    have hc : ' ' ≠ c := List.ne_of_not_mem_cons h
    have ht : ' ' ∉ t := List.not_mem_of_not_mem_cons h
    rw [List.cons_append, splitSeparator?]
    · rw [ih ht, Option.map_map]
      rfl
    · intro _ hspace
      exact absurd hspace.symm hc

theorem splitSeparator?_space {t : Text} (h : ∀ rest, t ≠ '-' :: ' ' :: rest) :
    splitSeparator? (' ' :: t) = (splitSeparator? t).map fun (before, after) => (' ' :: before, after) := by
  rw [splitSeparator?]
  intro rest _ ht
  exact h rest ht

/-- A field that is not the separator does not make one with the space behind it. -/
theorem field_append_ne {field : Text} (hspace : ' ' ∉ field) (hdash : field ≠ ['-']) (more rest : Text) :
    field ++ ' ' :: more ≠ '-' :: ' ' :: rest := by
  intro heq
  match field with
  | [] => cases heq
  | [c] =>
    cases heq
    exact hdash rfl
  | c :: d :: field =>
    obtain ⟨-, heq⟩ := List.cons.inj heq
    obtain ⟨rfl, -⟩ := List.cons.inj heq
    exact hspace (by simp)

/-- Behind fields none of which is the separator, the first separator is the next. -/
theorem splitSeparator?_joined {fields : List Text} (hne : fields ≠ [])
    (h : ∀ field ∈ fields, ' ' ∉ field ∧ field ≠ ['-']) (after : Text) :
    splitSeparator? (joined [' '] fields ++ ' ' :: '-' :: ' ' :: after) = some (joined [' '] fields, after) := by
  induction fields with
  | nil => exact absurd rfl hne
  | cons field rest ih =>
    obtain ⟨⟨hspace, -⟩, hrest⟩ := List.forall_mem_cons.mp h
    cases rest with
    | nil =>
      rw [joined_singleton, splitSeparator?_append hspace]
      simp [splitSeparator?]
    | cons next rest =>
      obtain ⟨⟨hnspace, hdash⟩, -⟩ := List.forall_mem_cons.mp hrest
      -- The space in front of the next field begins no separator, as that field is not one.
      have hnext : ∃ more, joined [' '] (next :: rest) ++ ' ' :: '-' :: ' ' :: after = next ++ ' ' :: more := by
        cases rest with
        | nil => exact ⟨_, by rw [joined_singleton]⟩
        | cons third rest => exact ⟨_, by rw [joined_cons next (by simp), List.append_assoc, List.cons_append]⟩
      obtain ⟨more, hmore⟩ := hnext
      have hstart : ∀ tail, joined [' '] (next :: rest) ++ ' ' :: '-' :: ' ' :: after ≠ '-' :: ' ' :: tail := by
        intro tail
        rw [hmore]
        exact field_append_ne hnspace hdash more tail
      rw [joined_cons field (by simp), List.append_assoc, List.cons_append, splitSeparator?_append hspace,
        splitSeparator?_space hstart, ih (by simp) hrest]
      rfl

end MountLine

/-! ## Mounts -/

/-- What a line of the table says of a mount. -/
structure Mount where
  mountId : Text
  parentId : Text
  major : Text
  minor : Text
  root : Text
  mountPoint : Text
  mountOptions : Text
  optional : List Text
  fsType : Text
  source : Text
  superOptions : Text
  deriving DecidableEq, Repr

namespace Mount

open Text (joined)

def device (m : Mount) : Text := m.major ++ ':' :: m.minor

/-- The fields that every line has in front of the separator. -/
def leading (m : Mount) : List Text := [m.mountId, m.parentId, m.device, m.root, m.mountPoint, m.mountOptions]

def trailing (m : Mount) : List Text := [m.fsType, m.source, m.superOptions]

def separator : Text := ['-']

def line (m : Mount) : Text := joined [' '] (m.leading ++ m.optional ++ separator :: m.trailing)

/-- The table of the mounts, every line with its line feed. -/
def table (mounts : List Mount) : Text := mounts.flatMap fun m => m.line ++ ['\n']

/-- What the table is to say of the mount; the optional fields are left out. -/
def cells (m : Mount) : List Text :=
  [m.mountId, m.parentId, m.major, m.minor, m.root, m.mountPoint, m.mountOptions, m.fsType, m.source, m.superOptions]

def row (m : Mount) : Row := Format.tokenRow m.cells

/-- The fields are written as they are written for a mount: none is empty, spaces, tabs and line feeds
    are escaped, none in front of the separator looks like it, and the device has its own colon. -/
structure Written (m : Mount) : Prop where
  escaped : ∀ field ∈ m.leading ++ m.optional ++ m.trailing, field ≠ [] ∧ ' ' ∉ field ∧ '\t' ∉ field ∧ '\n' ∉ field
  noSeparator : ∀ field ∈ m.leading ++ m.optional, field ≠ separator
  colon : ':' ∉ m.major

variable {m : Mount} {mounts : List Mount}

theorem leading_append_ne_nil (m : Mount) : m.leading ++ m.optional ≠ [] := nofun

/-- The separator, like the fields, is written without spaces. -/
theorem Written.piece (h : m.Written) :
    ∀ piece ∈ m.leading ++ m.optional ++ separator :: m.trailing, piece ≠ [] ∧ ' ' ∉ piece ∧ '\n' ∉ piece := by
  intro piece hp
  rcases List.mem_append.mp hp with hp | hp
  · obtain ⟨hne, hspace, -, hfeed⟩ := h.escaped piece (List.mem_append_left _ hp)
    exact ⟨hne, hspace, hfeed⟩
  · rcases List.mem_cons.mp hp with rfl | hp
    · decide
    · obtain ⟨hne, hspace, -, hfeed⟩ := h.escaped piece (List.mem_append_right _ hp)
      exact ⟨hne, hspace, hfeed⟩

theorem tokens_line (h : m.Written) : Text.tokens m.line = m.leading ++ m.optional ++ separator :: m.trailing :=
  Text.fields_of_spread (Text.spread_joined fun piece hp => ⟨(h.piece piece hp).1, (h.piece piece hp).2.1⟩)

theorem line_ne_nil (h : m.Written) : m.line ≠ [] := by
  intro hnil
  have htokens := tokens_line h
  rw [hnil] at htokens
  cases htokens

theorem newline_not_mem_line (h : m.Written) : '\n' ∉ m.line :=
  Text.not_mem_joined (by decide) fun piece hp => (h.piece piece hp).2.2

theorem line_eq (m : Mount) :
    m.line = joined [' '] (m.leading ++ m.optional) ++ ' ' :: '-' :: ' ' :: joined [' '] m.trailing := by
  have htrailing : m.trailing ≠ [] := List.cons_ne_nil _ _
  rw [line, Text.joined_append m.leading_append_ne_nil (List.cons_ne_nil _ _), Text.joined_cons separator htrailing]
  rfl

theorem splitSeparator?_line (h : m.Written) :
    MountLine.splitSeparator? m.line = some (joined [' '] (m.leading ++ m.optional), joined [' '] m.trailing) := by
  rw [line_eq]
  refine MountLine.splitSeparator?_joined m.leading_append_ne_nil ?_ _
  intro field hf
  exact ⟨(h.escaped field (List.mem_append_left _ hf)).2.1, h.noSeparator field hf⟩

/-! ## Rows -/

/-- The mount is read back, with the words of its optional fields. -/
theorem ofText_line (h : m.Written) (hsolid : ∀ field ∈ m.leading ++ m.trailing, field.Solid) :
    MountLine.ofText m.line = .ok
      ⟨m.mountId, m.parentId, m.device, m.root, m.mountPoint, m.mountOptions, Text.words (joined [' '] m.optional),
        m.fsType, m.source, m.superOptions⟩ := by
  have hne : ∀ field ∈ m.leading ++ m.trailing, field ≠ [] := by
    intro field hf
    refine (h.escaped field ?_).1
    rcases List.mem_append.mp hf with hf | hf
    · exact List.mem_append_left _ (List.mem_append_left _ hf)
    · exact List.mem_append_right _ hf
  have hleading : Text.words (joined [' '] (m.leading ++ m.optional)) = m.leading ++ Text.words (joined [' '] m.optional) :=
    Text.words_joined_append (fun field hf => ⟨hne _ (List.mem_append_left _ hf), hsolid _ (List.mem_append_left _ hf)⟩) _
  have htrailing : Text.words (joined [' '] m.trailing) = m.trailing :=
    Text.words_joined fun field hf => ⟨hne _ (List.mem_append_right _ hf), hsolid _ (List.mem_append_right _ hf)⟩
  rw [MountLine.ofText, MountLine.dropLineFeeds_of_not_mem (newline_not_mem_line h), splitSeparator?_line h]
  simp only [hleading, htrailing]
  rfl

/-- The device is solid when its two numbers are. -/
theorem solid_fields (h : ∀ cell ∈ m.cells, cell.Solid) : ∀ field ∈ m.leading ++ m.trailing, field.Solid := by
  simp only [cells, List.forall_mem_cons] at h
  obtain ⟨hid, hparent, hmajor, hminor, hroot, hpoint, hoptions, htype, hsource, hsuper, -⟩ := h
  have hdevice : m.device.Solid := by
    intro c hc
    rcases List.mem_append.mp hc with hc | hc
    · exact hmajor c hc
    · rcases List.mem_cons.mp hc with rfl | hc
      · rfl
      · exact hminor c hc
  simp only [leading, trailing, List.cons_append, List.nil_append, List.forall_mem_cons]
  exact ⟨hid, hparent, hdevice, hroot, hpoint, hoptions, htype, hsource, hsuper, nofun⟩

theorem row_line (h : m.Written) (hsolid : ∀ cell ∈ m.cells, cell.Solid) (n : Nat) :
    Format.Mountinfo.row n m.line = .ok m.row := by
  have hcount : ¬ (Text.tokens m.line).length < Format.Mountinfo.leastTokens := by
    rw [tokens_line h]
    simp [leading, trailing, Format.Mountinfo.leastTokens]
  have hdevice : Text.splitOnce? ':' m.device = some (m.major, m.minor) :=
    Text.splitOnce?_eq_some_iff.mpr ⟨rfl, h.colon⟩
  rw [Format.Mountinfo.row]
  simp only [hcount, if_false, ofText_line h (solid_fields hsolid), hdevice]
  rfl

end Mount

/-! ## Blanks -/

/-- The fields of a line that is read are words of it. -/
theorem MountLine.solid_of_ofText {t : Text} {mount : MountLine} (h : ofText t = .ok mount) :
    ∀ field ∈ [mount.mountId, mount.parentId, mount.device, mount.root, mount.mountPoint, mount.mountOptions,
      mount.fsType, mount.source, mount.superOptions], field.Solid := by
  simp only [ofText] at h
  cases hseparator : splitSeparator? (dropLineFeeds t) with
  | none =>
    rw [hseparator] at h
    cases h
  | some parts =>
    obtain ⟨before, after⟩ := parts
    simp only [hseparator] at h
    have hbefore : ∀ field ∈ Text.words before, field.Solid := fun _ => Text.solid_of_mem_words
    have hafter : ∀ field ∈ Text.words after, field.Solid := fun _ => Text.solid_of_mem_words
    -- What is known of the words must survive the cases on how many there are.
    generalize Text.words before = leading at h hbefore
    generalize Text.words after = trailing at h hafter
    split at h
    · cases h
      simp only [List.forall_mem_cons] at hbefore hafter ⊢
      obtain ⟨hid, hparent, hdevice, hroot, hpoint, hoptions, -⟩ := hbefore
      obtain ⟨htype, hsource, hsuper, -⟩ := hafter
      exact ⟨hid, hparent, hdevice, hroot, hpoint, hoptions, htype, hsource, hsuper, nofun⟩
    · split at h
      · cases h
      · cases h

/-- No row of the table has a blank in a cell. -/
theorem Format.Mountinfo.solid_of_row {n : Nat} {t : Text} {row : Row} (h : Mountinfo.row n t = .ok row) :
    ∃ cells, row = tokenRow cells ∧ ∀ cell ∈ cells, cell.Solid := by
  simp only [Mountinfo.row] at h
  split at h
  · cases h
  · split at h
    · cases h
    · rename_i mount hmount
      split at h
      · cases h
      · rename_i major minor hdevice
        cases h
        refine ⟨_, rfl, ?_⟩
        have hsolid := MountLine.solid_of_ofText hmount
        simp only [List.forall_mem_cons] at hsolid ⊢
        obtain ⟨hid, hparent, hnumbers, hroot, hpoint, hoptions, htype, hsource, hsuper, -⟩ := hsolid
        rw [(Text.splitOnce?_eq_some_iff.mp hdevice).1] at hnumbers
        have hmajor : major.Solid := fun c hc => hnumbers c (List.mem_append_left _ hc)
        have hminor : minor.Solid := fun c hc => hnumbers c (List.mem_append_right _ (List.mem_cons_of_mem _ hc))
        exact ⟨hid, hparent, hmajor, hminor, hroot, hpoint, hoptions, htype, hsource, hsuper, nofun⟩

theorem Format.tokenRow_injective : Function.Injective tokenRow :=
  List.map_injective_iff.mpr fun _ _ h => Cell.token.inj h

namespace Mount

variable {mounts : List Mount}

/-- A table that is read back as it was written has no blank in a cell. -/
theorem solid_of_rows {content : Text} (h : (Format.kernel .mountinfo).rows content = .ok (mounts.map row)) :
    ∀ m ∈ mounts, ∀ cell ∈ m.cells, cell.Solid := by
  intro m hm
  obtain ⟨n, line, -, hline⟩ := Format.mem_of_eachNumbered h m.row (List.mem_map_of_mem hm)
  obtain ⟨cells, hrow, hsolid⟩ := Format.Mountinfo.solid_of_row hline
  rwa [Format.tokenRow_injective hrow]

/-! ## Tables -/

theorem rows_written (h : ∀ m ∈ mounts, m.Written) (hsolid : ∀ m ∈ mounts, ∀ cell ∈ m.cells, cell.Solid) {content : Text}
    (hcontent : Text.Spread '\n' (mounts.map line) content) :
    (Format.kernel .mountinfo).rows content = .ok (mounts.map row) := by
  show Format.eachNumbered Format.Mountinfo.row 1 (Text.lines content) = .ok (mounts.map row)
  rw [Text.lines, Text.fields_of_spread hcontent]
  refine Format.eachNumbered_eq_ok ?_
  rw [List.forall₂_map_left_iff, List.forall₂_map_right_iff, List.forall₂_same]
  intro m hm n
  exact row_line (h m hm) (hsolid m hm) n

theorem table_spread (h : ∀ m ∈ mounts, m.Written) : Text.Spread '\n' (mounts.map line) (table mounts) := by
  induction mounts with
  | nil => exact .nil
  | cons m rest ih =>
    obtain ⟨hm, hrest⟩ := List.forall_mem_cons.mp h
    have htable : table (m :: rest) = m.line ++ '\n' :: table rest := by simp [table]
    rw [htable]
    exact .piece (line_ne_nil hm) (newline_not_mem_line hm) (ih hrest)

/-- The lines of the mounts, with any number of line feeds between and around them, are read as one row
    for each mount, whatever its optional fields are, exactly when no cell of a mount has a blank. -/
theorem written_mounts_read_iff (mounts : List Mount) (h : ∀ m ∈ mounts, m.Written) :
    Text.Spread '\n' (mounts.map line) (table mounts) ∧
    ∀ content, Text.Spread '\n' (mounts.map line) content →
      ((Format.kernel .mountinfo).rows content = .ok (mounts.map row) ↔
        ∀ m ∈ mounts, ∀ cell ∈ m.cells, cell.Solid) := by
  refine ⟨table_spread h, ?_⟩
  intro content hcontent
  exact ⟨solid_of_rows, fun hsolid => rows_written h hsolid hcontent⟩

/-- A mount without optional fields; the space in its mount point is escaped. -/
def dataMount : Mount where
  mountId := "36".toList
  parentId := "35".toList
  major := "98".toList
  minor := ['0']
  root := ['/']
  mountPoint := "/mnt/a\\040b".toList
  mountOptions := "rw".toList
  optional := []
  fsType := "ext3".toList
  source := "/dev/root".toList
  superOptions := "rw,errors=continue".toList

/-- A mount with three optional fields, one of them with a no-break space, and without a source. -/
def sharedMount : Mount where
  mountId := "24".toList
  parentId := "29".toList
  major := ['0']
  minor := "22:1".toList
  root := "/-".toList
  mountPoint := "/sys".toList
  mountOptions := "ro".toList
  optional := ["shared:7".toList, "master:\u00a01".toList, "--".toList]
  fsType := "sysfs".toList
  source := ['-']
  superOptions := "rw".toList

theorem shared_mount_read :
    (Format.kernel .mountinfo).rows (table [dataMount, sharedMount]) = .ok [dataMount.row, sharedMount.row] ∧
    (Format.kernel .mountinfo).rows ('\n' :: dataMount.line ++ '\n' :: '\n' :: sharedMount.line) =
      .ok [dataMount.row, sharedMount.row] := by
  have hwritten : ∀ m ∈ [dataMount, sharedMount], m.Written := by
    simp only [List.forall_mem_cons]
    exact ⟨⟨by decide, by decide, by decide⟩, ⟨by decide, by decide, by decide⟩, nofun⟩
  have hsolid : ∀ m ∈ [dataMount, sharedMount], ∀ cell ∈ m.cells, cell.Solid := by decide
  obtain ⟨htable, hread⟩ := written_mounts_read_iff [dataMount, sharedMount] hwritten
  refine ⟨(hread _ htable).mpr hsolid, (hread _ ?_).mpr hsolid⟩
  exact .gap (.piece (by decide) (by decide) (.gap (.last (by decide) (by decide))))

/-- A mount point with a no-break space, which is not escaped. -/
def blankMount : Mount := { dataMount with mountPoint := "/mnt/a\u00a0b".toList }

/-- The mount point is cut in two, and its second half is taken for the mount options. -/
theorem mount_point_with_blank :
    blankMount.Written ∧
    (Format.kernel .mountinfo).rows (table [blankMount]) =
      .ok [{ dataMount with mountPoint := "/mnt/a".toList, mountOptions := ['b'] }.row] ∧
    (Format.kernel .mountinfo).rows (table [blankMount]) ≠ .ok [blankMount.row] :=
  ⟨⟨by decide, by decide, by decide⟩, by decide +kernel, by decide +kernel⟩

end Mount

end HostTables
