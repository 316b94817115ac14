/-
  HostTables.Proofs.CommandLine — a command line asks for what it was written for.

  A query is written as its name and its arguments (`Query.commandName`, `Query.arguments`). In front of it
  stand options, each of which makes a setting (`OptionSetting.Written`); the settings of a line add up to its
  options in whatever order they stand (`Adds`). Reading an option takes one setting off and leaves the
  others (`adds_cons`), so by induction all settings are read (`parseOptions_written`), and what is left is
  the query (`parseOptions_query`).
  - `command_line_round_trip`: all options can be written, and however they are, exactly they and the query
    are read. A configuration takes over what they set and keeps everything else.
-/
import HostTables.CommandLine
import HostTables.Proofs.Number.Decimal
import HostTables.Proofs.Outcome
import HostTables.Proofs.Text.Fields

namespace HostTables

/-! ## How queries are written -/

def CgroupView.commandName : CgroupView → String
  | .bigint => "cgroup-scalar-bigint"
  | .float8 => "cgroup-scalar-float8"
  | .text => "cgroup-scalar-text"
  | .bigintSet => "cgroup-setof-bigint"
  | .textSet => "cgroup-setof-text"
  | .bigintArray => "cgroup-array-bigint"
  | .textArray => "cgroup-array-text"
  | .keyValues => "cgroup-setof-kv"
  | .keySubkeyValues => "cgroup-setof-ksv"
  | .nestedKeyValues => "cgroup-setof-nkv"

def PodinfoView.commandName : PodinfoView → String
  | .keyValues => "kdapi-setof-kv"
  | .bigint => "kdapi-scalar-bigint"

def ProcFile.commandName : ProcFile → String
  | .diskstats => "proc-diskstats"
  | .mountinfo => "proc-mountinfo"
  | .meminfo => "proc-meminfo"
  | .networkStats => "proc-network-stats"
  | .cpuTime => "proc-cputime"
  | .loadAverage => "proc-loadavg"

def ProcessFacet.commandName : ProcessFacet → String
  | .io => "proc-pid-io"
  | .commandLine => "proc-pid-cmdline"
  | .stat => "proc-pid-stat"

namespace Query

/-- The name of the query on a command line. -/
def commandName : Query → String
  | .cgroupMode => "cgroup-mode"
  | .cgroupPaths => "cgroup-path"
  | .cgroupProcessCount => "cgroup-process-count"
  | .cgroupFile view _ => view.commandName
  | .podinfoFile view _ => view.commandName
  | .variableText _ => "envvar-text"
  | .variableBigint _ => "envvar-bigint"
  | .procFile file => file.commandName
  | .children facet _ => facet.commandName
  | .fileSystem _ => "fsinfo"
  | .pagesToBytes _ => "pages-to-bytes"

/-- What is written behind the name: the parent as an option, any other argument behind the end of options. -/
def arguments : Query → List Text
  | .cgroupFile _ name | .podinfoFile _ name | .variableText name | .variableBigint name => ["--".toList, name]
  | .fileSystem path => ["--".toList, path.text]
  | .pagesToBytes pages => ["--".toList, Decimal.ofInt pages.val]
  | .children _ (some pid) => ["--ppid".toList, Decimal.ofNat pid.toNat]
  | .children _ none | .cgroupMode | .cgroupPaths | .cgroupProcessCount | .procFile _ => []

/-- A path that is asked about has to be there. -/
def Writable : Query → Prop
  | .fileSystem path => path.text ≠ []
  | _ => True

instance (query : Query) : Decidable query.Writable := by
  cases query <;> unfold Writable <;> infer_instance

end Query

/-! ## How options are written -/

/-- The text is one of the spellings of the type, in any case and with blanks around it. -/
def ColumnType.Named (type : ColumnType) (t : Text) : Prop :=
  ',' ∉ t ∧ ∃ spelling, (spelling, type) ∈ spellings ∧ Text.lower (Text.trim t) = spelling.toList

/-- The roots that options can set. -/
inductive RootOption where
  | cgroup
  | podinfo
  | proc
  deriving DecidableEq, Repr

def RootOption.optionName : RootOption → String
  | .cgroup => "cgroup-root"
  | .podinfo => "kdapi-path"
  | .proc => "proc-root"

/-- What one option asks for. -/
inductive OptionSetting where
  | expected (types : Signature)
  | pretty
  | root (which : RootOption) (path : Path)
  | containerized (state : Bool)
  deriving DecidableEq, Repr

/-- An option with its value in one argument. -/
def attached (name : String) (value : Text) : Text := '-' :: '-' :: (name.toList ++ '=' :: value)

namespace OptionSetting

/-- The argument makes the setting. -/
inductive Written : OptionSetting → Text → Prop
  | expected {types : Signature} {names : List Text} : types ≠ [] → List.Forall₂ ColumnType.Named types names →
      Written (.expected types) (attached "expect" (Text.joined [','] names))
  | pretty : Written .pretty "--pretty".toList
  | root {which : RootOption} {path : Path} : path.text ≠ [] →
      Written (.root which path) (attached which.optionName path.text)
  | containerized {state : Bool} :
      Written (.containerized state) (attached "containerized" (if state then "true" else "false").toList)

def expected? : OptionSetting → Option Signature
  | .expected types => some types
  | _ => none

def root? (which : RootOption) : OptionSetting → Option Path
  | .root other path => if other = which then some path else none
  | _ => none

def containerized? : OptionSetting → Option Bool
  | .containerized state => some state
  | _ => none

end OptionSetting

def Options.root? (options : Options) : RootOption → Option Path
  | .cgroup => options.cgroupRoot
  | .podinfo => options.podinfoPath
  | .proc => options.procRoot

/-- With the settings, the options before become those after. Each setting is made at most once, in any
    order; only expected columns may be set in several parts, which add up in order. -/
structure Adds (before : Options) (settings : List OptionSetting) (after : Options) : Prop where
  expected : after.expected =
    if settings.filterMap OptionSetting.expected? = [] then before.expected
    else some (before.expected.getD [] ++ (settings.filterMap OptionSetting.expected?).flatten)
  pretty : after.pretty.toNat = before.pretty.toNat + settings.count .pretty
  root : ∀ which, (after.root? which).toList =
    (before.root? which).toList ++ settings.filterMap (OptionSetting.root? which)
  containerized : after.containerized.toList =
    before.containerized.toList ++ settings.filterMap OptionSetting.containerized?

/-! ## Reading values -/

/-- Where no key stands twice, an entry is found by its key. -/
theorem find?_of_nodup {α : Type} {key : α → Text} {entries : List α} (hkeys : (entries.map key).Nodup) {entry : α}
    (h : entry ∈ entries) : entries.find? (fun other => key other == key entry) = some entry := by
  induction entries with
  | nil => cases h
  | cons first rest ih =>
    rw [List.map_cons, List.nodup_cons] at hkeys
    rcases List.mem_cons.mp h with rfl | hrest
    · exact List.find?_cons_of_pos (beq_self_eq_true _)
    · have hne : key first ≠ key entry := fun heq => hkeys.1 (heq ▸ List.mem_map_of_mem hrest)
      rw [List.find?_cons_of_neg (by simpa using hne), ih hkeys.2 hrest]

theorem ofText?_of_named {type : ColumnType} {t : Text} (h : type.Named t) : ColumnType.ofText? t = .ok type := by
  obtain ⟨-, spelling, hmem, hword⟩ := h
  have hspellings : (ColumnType.spellings.map fun known => known.1.toList).Nodup := by decide +kernel
  have hfind := find?_of_nodup hspellings hmem
  rw [← hword] at hfind
  simp only [ColumnType.ofText?, hfind]

theorem named_name (type : ColumnType) : type.Named type.name.toList := by
  cases type with
  | text => exact ⟨by decide, "text", by decide, by decide⟩
  | int4 => exact ⟨by decide, "int4", by decide, by decide⟩
  | int8 => exact ⟨by decide, "int8", by decide, by decide⟩
  | float8 => exact ⟨by decide, "float8", by decide, by decide⟩
  | numeric => exact ⟨by decide, "numeric", by decide, by decide⟩
  | textArray => exact ⟨by decide, "text[]", by decide, by decide⟩
  | int8Array => exact ⟨by decide, "int8[]", by decide, by decide⟩

theorem columns?_joined {types : Signature} {names : List Text} (hne : types ≠ [])
    (h : List.Forall₂ ColumnType.Named types names) : Options.columns? (Text.joined [','] names) = some types := by
  have hcomma : ∀ name ∈ names, ',' ∉ name := by
    intro name hname
    obtain ⟨i, hi, rfl⟩ := List.getElem_of_mem hname
    exact (h.get (h.length_eq ▸ hi) hi).1
  have hnames : names ≠ [] := by
    rintro rfl
    exact hne (List.forall₂_nil_right_iff.mp h)
  rw [Options.columns?, Text.joined, List.splitOn_intercalate ',' hcomma hnames]
  clear hne hnames hcomma
  induction h with
  | nil => rfl
  | cons hname _ ih =>
    rw [List.mapM_cons, ih, ofText?_of_named hname]
    rfl

/-! ## Reading options -/

theorem ofText_attached {name : String} (hname : '=' ∉ name.toList) (value : Text) :
    Argument.ofText (attached name value) = .long name.toList (some value) := by
  have hcut : Text.splitOnce? '=' (name.toList ++ '=' :: value) = some (name.toList, value) :=
    Text.splitOnce?_eq_some_iff.mpr ⟨rfl, hname⟩
  obtain ⟨c, rest, hrest⟩ := List.exists_cons_of_ne_nil (l := name.toList ++ '=' :: value) (by simp)
  rw [attached, hrest]
  rw [hrest] at hcut
  simp only [Argument.ofText, hcut]

theorem parseOptions_attached {name : String} (option : ValueOption) (hname : '=' ∉ name.toList)
    (hoption : ValueOption.ofName? name.toList = some option) (options : Options) (value : Text) (more : List Text) :
    Invocation.parseOptions options .nothing (attached name value :: more) =
      options.set value option >>= fun next => Invocation.parseOptions next .nothing more := by
  simp only [Invocation.parseOptions, ofText_attached hname, hoption]
  rfl

/-- The option that sets the root. -/
def RootOption.option : RootOption → ValueOption
  | .cgroup => .cgroupRoot
  | .podinfo => .podinfoPath
  | .proc => .procRoot

def Options.withRoot (options : Options) (path : Path) : RootOption → Options
  | .cgroup => { options with cgroupRoot := some path }
  | .podinfo => { options with podinfoPath := some path }
  | .proc => { options with procRoot := some path }

theorem root?_withRoot (options : Options) (path : Path) (which other : RootOption) :
    (options.withRoot path which).root? other = if which = other then some path else options.root? other := by
  cases which <;> cases other <;> rfl

theorem set_root {options : Options} {which : RootOption} {path : Path} (hpath : path.text ≠ [])
    (hfirst : options.root? which = none) : options.set path.text which.option = .ok (options.withRoot path which) := by
  have hread : pathArgument? path.text = some path := if_neg hpath
  cases which with
  | cgroup =>
    have hnone : options.cgroupRoot = none := hfirst
    simp only [RootOption.option, Options.set, hread, hnone]
    rfl
  | podinfo =>
    have hnone : options.podinfoPath = none := hfirst
    simp only [RootOption.option, Options.set, hread, hnone]
    rfl
  | proc =>
    have hnone : options.procRoot = none := hfirst
    simp only [RootOption.option, Options.set, hread, hnone]
    rfl

theorem set_containerized {options : Options} (state : Bool) (hfirst : options.containerized = none) :
    options.set (if state then "true" else "false").toList .containerized =
      .ok { options with containerized := some state } := by
  cases state <;> simp only [Options.set, hfirst] <;> rfl

/-- What is set at most once has not been set before. -/
theorem eq_none_of_toList {α : Type} {x y : Option α} {a : α} {more : List α} (h : y.toList = x.toList ++ a :: more) :
    x = none := by
  cases x with
  | none => rfl
  | some b => cases y <;> simp at h

/-- An option with a setting is read, which leaves the settings behind it. -/
theorem adds_cons {before after : Options} {setting : OptionSetting} {rest : List OptionSetting} {arg : Text}
    (hw : setting.Written arg) (h : Adds before (setting :: rest) after) :
    ∃ next, (∀ more,
      Invocation.parseOptions before .nothing (arg :: more) = Invocation.parseOptions next .nothing more) ∧
      Adds next rest after := by
  cases hw with
  | @expected types names hne hnames =>
    refine ⟨{ before with expected := some (before.expected.getD [] ++ types) }, fun more => ?_, ?_⟩
    · rw [parseOptions_attached .expected (by decide) (by decide)]
      simp only [Options.set, columns?_joined hne hnames]
      rfl
    · have hafter : after.expected =
          some (before.expected.getD [] ++ (types :: rest.filterMap OptionSetting.expected?).flatten) := h.expected
      refine ⟨?_, h.pretty, h.root, h.containerized⟩
      rw [hafter]
      split
      · rename_i hnil
        simp [hnil]
      · simp
  | pretty =>
    have hcount : after.pretty.toNat = before.pretty.toNat + (rest.count .pretty + 1) := by
      rw [h.pretty, List.count_cons_self]
    have hfirst : before.pretty = false := by
      cases hb : before.pretty with
      | false => rfl
      | true =>
        rw [hb] at hcount
        have := Bool.toNat_le after.pretty
        simp only [Bool.toNat_true] at hcount
        omega
    refine ⟨{ before with pretty := true }, fun more => ?_, h.expected, ?_, h.root, h.containerized⟩
    · have harg : Argument.ofText "--pretty".toList = .long Invocation.prettyOption none := by decide
      have hoption : ValueOption.ofName? Invocation.prettyOption = none := by decide
      simp only [Invocation.parseOptions, harg, Options.settle, hoption]
      show (if True ∧ before.pretty = false then _ else _) = _
      rw [if_pos ⟨trivial, hfirst⟩]
    · rw [hfirst] at hcount
      simp only [Bool.toNat_false, Bool.toNat_true] at hcount ⊢
      omega
  | @root which path hpath =>
    have hroot := h.root which
    rw [List.filterMap_cons_some (b := path) (by simp [OptionSetting.root?])] at hroot
    have hfirst := eq_none_of_toList hroot
    refine ⟨before.withRoot path which, fun more => ?_, ?_, ?_, ?_, ?_⟩
    · rw [parseOptions_attached which.option (by cases which <;> decide) (by cases which <;> decide),
        set_root hpath hfirst]
      rfl
    · cases which <;> exact h.expected
    · cases which <;> exact h.pretty
    · intro other
      rw [root?_withRoot]
      by_cases hsame : which = other
      · subst hsame
        rw [if_pos rfl, hroot, hfirst]
        rfl
      · have hother := h.root other
        rw [List.filterMap_cons_none (by simp [OptionSetting.root?, hsame])] at hother
        rw [if_neg hsame, hother]
    · cases which <;> exact h.containerized
  | @containerized state =>
    have hstate : after.containerized.toList =
        before.containerized.toList ++ state :: rest.filterMap OptionSetting.containerized? := h.containerized
    have hfirst := eq_none_of_toList hstate
    refine ⟨{ before with containerized := some state }, fun more => ?_, h.expected, h.pretty, h.root, ?_⟩
    · rw [parseOptions_attached .containerized (by decide) (by decide), set_containerized state hfirst]
      rfl
    · rw [hstate, hfirst]
      rfl

theorem eq_of_toList {α : Type} {x y : Option α} (h : x.toList = y.toList ++ []) : x = y := by
  have hhead := congrArg List.head? h
  rwa [List.append_nil, Option.head?_toList, Option.head?_toList] at hhead

theorem adds_nil {before after : Options} (h : Adds before [] after) : after = before := by
  have hexpected : after.expected = before.expected := h.expected
  have hpretty : after.pretty = before.pretty := by
    have hcount : after.pretty.toNat = before.pretty.toNat := h.pretty
    cases ha : after.pretty <;> cases hb : before.pretty <;> simp_all
  have hcgroup : after.cgroupRoot = before.cgroupRoot := eq_of_toList (h.root .cgroup)
  have hpodinfo : after.podinfoPath = before.podinfoPath := eq_of_toList (h.root .podinfo)
  have hproc : after.procRoot = before.procRoot := eq_of_toList (h.root .proc)
  have hcontainerized : after.containerized = before.containerized := eq_of_toList h.containerized
  cases after
  cases before
  simp_all only

/-- The options in front are read one after the other. -/
theorem parseOptions_written {settings : List OptionSetting} {written : List Text}
    (hw : List.Forall₂ OptionSetting.Written settings written) (more : List Text) :
    ∀ {before after : Options}, Adds before settings after →
      Invocation.parseOptions before .nothing (written ++ more) = Invocation.parseOptions after .nothing more := by
  induction hw with
  | nil =>
    intro before after h
    rw [adds_nil h]
    rfl
  | cons harg _ ih =>
    intro before after h
    obtain ⟨next, hread, hrest⟩ := adds_cons harg h
    rw [List.cons_append, hread, ih hrest]

/-! ## Reading the query -/

theorem integerArgument?_ofInt (n : Signed 64) : integerArgument? (Decimal.ofInt n.val) = some n := by
  rw [integerArgument?, Decimal.integer?_ofInt]
  exact Signed.ofInt?_eq_some_iff.mpr rfl

theorem pidArgument?_ofNat (pid : UInt32) : pidArgument? (Decimal.ofNat pid.toNat) = some pid := by
  have hbound : pid.toNat < UInt32.size := pid.toNat_lt_size
  have hwide : Signed.bound 64 = 2 ^ 63 := rfl
  have hsize : UInt32.size = 2 ^ 32 := rfl
  have hread := integerArgument?_ofInt ⟨pid.toNat, by omega, by omega⟩
  rw [pidArgument?, show Decimal.ofNat pid.toNat = Decimal.ofInt (pid.toNat : Int) from rfl, hread]
  simp only [Int.toNat_natCast, UInt32.ofNat_toNat]
  rw [if_pos ⟨by omega, by omega⟩]

/-- Without a minus in front an argument is no option. -/
theorem ofText_of_plain {t : Text} (h : ∀ rest, t ≠ '-' :: rest) : Argument.ofText t = .plain t := by
  unfold Argument.ofText
  split
  · exact absurd rfl (h _)
  · exact absurd rfl (h _)
  · exact absurd rfl (h _)
  · rfl

/-- Behind the end of options an argument is taken as it stands. -/
theorem parse_behind_end {command : Command} {t : Text} {query : Query} (h : command.withArgument? t = some query) :
    command.parse ["--".toList, t] = .ok query := by
  have hread : command.parseArgument none false ["--".toList, t] = .ok query := by
    have hargument : command.parseArgument (some t) true [] = .ok query := by
      simp only [Command.parseArgument, Option.bind_some, h]
    exact hargument
  cases command with
  | withText make => exact hread
  | withPath make => exact hread
  | withPages make => exact hread
  | plain query => cases h
  | withParent make => cases h

theorem parseParent_ppid (make : Option UInt32 → Query) (pid : UInt32) :
    Command.parseParent make none .nothing ["--ppid".toList, Decimal.ofNat pid.toNat] = .ok (make (some pid)) := by
  have hsettle : Command.settleParent none (.given () (Decimal.ofNat pid.toNat)) = .ok (some pid) := by
    simp only [Command.settleParent, pidArgument?_ofNat]
  show Command.parseParent make none (.awaiting ()) [Decimal.ofNat pid.toNat] = _
  have hplain := ofText_of_plain (Decimal.ofNat_ne_cons rfl pid.toNat)
  simp only [Command.parseParent, hplain, hsettle]
  rfl

theorem names_nodup : (Command.all.map fun known => known.1.toList).Nodup := by decide +kernel

theorem ofName?_of_mem {name : String} {command : Command} (h : (name, command) ∈ Command.all) :
    Command.ofName? name.toList = some command := by
  rw [Command.ofName?, find?_of_nodup names_nodup h]
  rfl

theorem cgroupView_mem_all (view : CgroupView) :
    (view.commandName, .withText (.cgroupFile view)) ∈ Command.all := by
  cases view <;> simp [Command.all, CgroupView.commandName]

theorem podinfoView_mem_all (view : PodinfoView) :
    (view.commandName, .withText (.podinfoFile view)) ∈ Command.all := by
  cases view <;> simp [Command.all, PodinfoView.commandName]

theorem procFile_mem_all (file : ProcFile) : (file.commandName, .plain (.procFile file)) ∈ Command.all := by
  cases file <;> simp [Command.all, ProcFile.commandName]

theorem facet_mem_all (facet : ProcessFacet) :
    (facet.commandName, .withParent (.children facet)) ∈ Command.all := by
  cases facet <;> simp [Command.all, ProcessFacet.commandName]

/-- The name of a query names a command that reads its arguments. -/
theorem command_of_query {query : Query} (h : query.Writable) :
    ∃ command, (query.commandName, command) ∈ Command.all ∧ command.parse query.arguments = .ok query := by
  cases query with
  | cgroupMode => exact ⟨.plain .cgroupMode, by simp [Command.all, Query.commandName], rfl⟩
  | cgroupPaths => exact ⟨.plain .cgroupPaths, by simp [Command.all, Query.commandName], rfl⟩
  | cgroupProcessCount => exact ⟨.plain .cgroupProcessCount, by simp [Command.all, Query.commandName], rfl⟩
  | cgroupFile view name => exact ⟨_, cgroupView_mem_all view, parse_behind_end rfl⟩
  | podinfoFile view name => exact ⟨_, podinfoView_mem_all view, parse_behind_end rfl⟩
  | variableText name =>
    exact ⟨.withText .variableText, by simp [Command.all, Query.commandName], parse_behind_end rfl⟩
  | variableBigint name =>
    exact ⟨.withText .variableBigint, by simp [Command.all, Query.commandName], parse_behind_end rfl⟩
  | procFile file => exact ⟨_, procFile_mem_all file, rfl⟩
  | children facet parent =>
    refine ⟨_, facet_mem_all facet, ?_⟩
    cases parent with
    | none => rfl
    | some pid => exact parseParent_ppid _ pid
  | fileSystem path =>
    have hpath : pathArgument? path.text = some path := if_neg h
    refine ⟨.withPath .fileSystem, by simp [Command.all, Query.commandName], parse_behind_end ?_⟩
    rw [Command.withArgument?, hpath]
    rfl
  | pagesToBytes pages =>
    refine ⟨.withPages .pagesToBytes, by simp [Command.all, Query.commandName], parse_behind_end ?_⟩
    rw [Command.withArgument?, integerArgument?_ofInt]
    rfl

/-- Names of commands are no options and do not ask for help. -/
theorem plain_of_mem {name : String} {command : Command} (h : (name, command) ∈ Command.all) :
    Argument.ofText name.toList = .plain name.toList ∧ name.toList ≠ Invocation.helpCommand := by
  have hnames : ∀ known ∈ Command.all.map Prod.fst,
      known.toList.head? ≠ some '-' ∧ known.toList ≠ Invocation.helpCommand := by decide +kernel
  obtain ⟨hhead, hhelp⟩ := hnames name (List.mem_map_of_mem h)
  exact ⟨ofText_of_plain fun rest heq => hhead (heq ▸ rfl), hhelp⟩

theorem parseOptions_query {query : Query} (h : query.Writable) (options : Options) :
    Invocation.parseOptions options .nothing (query.commandName.toList :: query.arguments) =
      .ok ⟨options, query⟩ := by
  obtain ⟨command, hmem, hparse⟩ := command_of_query h
  obtain ⟨harg, hhelp⟩ := plain_of_mem hmem
  simp only [Invocation.parseOptions, harg, ofName?_of_mem hmem, hparse, if_neg hhelp]
  rfl

/-! ## The configuration -/

def Config.root (config : Config) : RootOption → Path
  | .cgroup => config.cgroupRoot
  | .podinfo => config.podinfoPath
  | .proc => config.procRoot

/-- The configuration is the base, but for what the settings override. -/
structure Overridden (settings : List OptionSetting) (base config : Config) : Prop where
  root : ∀ which path, .root which path ∈ settings → config.root which = path
  root_kept : ∀ which, (∀ path, .root which path ∉ settings) → config.root which = base.root which
  containerized : ∀ state, .containerized state ∈ settings → config.containerized = some state
  containerized_kept : (∀ state, .containerized state ∉ settings) → config.containerized = base.containerized
  cgroupEnabled : config.cgroupEnabled = base.cgroupEnabled
  podinfoEnabled : config.podinfoEnabled = base.podinfoEnabled

theorem root_apply (options : Options) (base : Config) (which : RootOption) :
    (options.apply base).root which = (options.root? which).getD (base.root which) := by
  cases which <;> rfl

theorem root_mem_iff {settings : List OptionSetting} {which : RootOption} {path : Path} :
    path ∈ settings.filterMap (OptionSetting.root? which) ↔ .root which path ∈ settings := by
  have hsome : ∀ setting : OptionSetting, setting.root? which = some path ↔ setting = .root which path := by
    intro setting
    cases setting with
    | root other path' =>
      simp only [OptionSetting.root?, OptionSetting.root.injEq]
      split <;> simp_all
    | expected types => simp [OptionSetting.root?]
    | pretty => simp [OptionSetting.root?]
    | containerized state => simp [OptionSetting.root?]
  simp [List.mem_filterMap, hsome]

theorem containerized_mem_iff {settings : List OptionSetting} {state : Bool} :
    state ∈ settings.filterMap OptionSetting.containerized? ↔ .containerized state ∈ settings := by
  have hsome : ∀ setting : OptionSetting, setting.containerized? = some state ↔ setting = .containerized state := by
    intro setting
    cases setting <;> simp [OptionSetting.containerized?]
  simp [List.mem_filterMap, hsome]

theorem overridden_apply {settings : List OptionSetting} {options : Options} (h : Adds .none settings options)
    (base : Config) : Overridden settings base (options.apply base) := by
  have hroot : ∀ which path, .root which path ∈ settings ↔ options.root? which = some path := by
    intro which path
    have hlist : (options.root? which).toList = settings.filterMap (OptionSetting.root? which) := by
      rw [h.root which]
      cases which <;> rfl
    rw [← root_mem_iff, ← hlist, Option.mem_toList]
  have hstate : ∀ state, .containerized state ∈ settings ↔ options.containerized = some state := by
    intro state
    have hlist : options.containerized.toList = settings.filterMap OptionSetting.containerized? := h.containerized
    rw [← containerized_mem_iff, ← hlist, Option.mem_toList]
  refine ⟨?_, ?_, ?_, ?_, rfl, rfl⟩
  · intro which path hmem
    rw [root_apply, (hroot which path).mp hmem, Option.getD_some]
  · intro which hnot
    have hnone : options.root? which = none :=
      Option.eq_none_iff_forall_ne_some.mpr fun path hpath => hnot path ((hroot which path).mpr hpath)
    rw [root_apply, hnone, Option.getD_none]
  · intro state hmem
    show options.containerized.or base.containerized = some state
    rw [(hstate state).mp hmem, Option.some_or]
  · intro hnot
    have hnone : options.containerized = none :=
      Option.eq_none_iff_forall_ne_some.mpr fun state hs => hnot state ((hstate state).mpr hs)
    show options.containerized.or base.containerized = base.containerized
    rw [hnone, Option.none_or]

/-! ## Every choice of options -/

/-- Columns are expected or not, but not none of them, and a root that is set has a name. -/
structure Options.Writable (options : Options) : Prop where
  expected : options.expected ≠ some []
  root : ∀ which path, options.root? which = some path → path.text ≠ []

/-- The options one by one. -/
def Options.settings (options : Options) : List OptionSetting :=
  options.expected.toList.map .expected ++ List.replicate options.pretty.toNat .pretty ++
    options.cgroupRoot.toList.map (.root .cgroup) ++ options.podinfoPath.toList.map (.root .podinfo) ++
    options.procRoot.toList.map (.root .proc) ++ options.containerized.toList.map .containerized

/-- The argument that makes a setting, types by their names. -/
def OptionSetting.argument : OptionSetting → Text
  | .expected types => attached "expect" (Text.joined [','] (types.map fun type => type.name.toList))
  | .pretty => "--pretty".toList
  | .root which path => attached which.optionName path.text
  | .containerized state => attached "containerized" (if state then "true" else "false").toList

theorem filterMap_settings {α : Type} (f : OptionSetting → Option α) (hpretty : f .pretty = none) (options : Options) :
    options.settings.filterMap f =
      options.expected.toList.filterMap (fun types => f (.expected types)) ++
        options.cgroupRoot.toList.filterMap (fun path => f (.root .cgroup path)) ++
        options.podinfoPath.toList.filterMap (fun path => f (.root .podinfo path)) ++
        options.procRoot.toList.filterMap (fun path => f (.root .proc path)) ++
        options.containerized.toList.filterMap (fun state => f (.containerized state)) := by
  simp only [Options.settings, List.filterMap_append, List.filterMap_map, Function.comp_def,
    List.filterMap_replicate_of_none hpretty, List.append_nil]

theorem count_settings (options : Options) : options.settings.count .pretty = options.pretty.toNat := by
  have hother : ∀ {α : Type} (make : α → OptionSetting) (x : Option α), (∀ a, make a ≠ .pretty) →
      (x.toList.map make).count .pretty = 0 := by
    intro α make x hmake
    rw [List.count_eq_zero, List.mem_map]
    rintro ⟨a, -, ha⟩
    exact hmake a ha
  simp only [Options.settings, List.count_append, List.count_replicate_self]
  rw [hother _ _ (by simp), hother _ _ (by simp), hother _ _ (by simp), hother _ _ (by simp), hother _ _ (by simp)]
  omega

theorem expected_settings (options : Options) :
    options.settings.filterMap OptionSetting.expected? = options.expected.toList := by
  rw [filterMap_settings _ rfl]
  simp [OptionSetting.expected?]

theorem root_settings (options : Options) (which : RootOption) :
    options.settings.filterMap (OptionSetting.root? which) = (options.root? which).toList := by
  rw [filterMap_settings _ rfl]
  cases which <;> simp [OptionSetting.root?, Options.root?]

theorem containerized_settings (options : Options) :
    options.settings.filterMap OptionSetting.containerized? = options.containerized.toList := by
  rw [filterMap_settings _ rfl]
  simp [OptionSetting.containerized?]

theorem adds_settings (options : Options) : Adds .none options.settings options := by
  refine ⟨?_, ?_, ?_, ?_⟩
  · rw [expected_settings]
    cases options.expected with
    | none => rfl
    | some types => simp [Options.none]
  · rw [count_settings]
    exact (Nat.zero_add _).symm
  · intro which
    rw [root_settings]
    cases which <;> rfl
  · rw [containerized_settings]
    rfl

theorem written_argument {options : Options} (h : options.Writable) :
    ∀ setting ∈ options.settings, setting.Written setting.argument := by
  intro setting hmem
  cases setting with
  | expected types =>
    have htypes : types ∈ options.settings.filterMap OptionSetting.expected? := List.mem_filterMap.mpr ⟨_, hmem, rfl⟩
    rw [expected_settings, Option.mem_toList] at htypes
    refine .expected ?_ ?_
    · rintro rfl
      exact h.expected htypes
    · rw [List.forall₂_map_right_iff, List.forall₂_same]
      exact fun type _ => named_name type
  | pretty => exact .pretty
  | root which path =>
    have hpath := root_mem_iff.mpr hmem
    rw [root_settings, Option.mem_toList] at hpath
    exact .root (h.root which path hpath)
  | containerized state => exact .containerized

/-- The settings can stand in any order, as long as the expected columns stay in theirs. -/
theorem adds_perm {settings settings' : List OptionSetting} {options : Options} (h : Adds .none settings options)
    (hperm : settings'.Perm settings)
    (hexpected : settings'.filterMap OptionSetting.expected? = settings.filterMap OptionSetting.expected?) :
    Adds .none settings' options := by
  have hsame : ∀ {α : Type} (f : OptionSetting → Option α) (x : Option α), x.toList = settings.filterMap f →
      x.toList = settings'.filterMap f := by
    intro α f x hx
    have hp : (settings'.filterMap f).Perm x.toList := hx ▸ hperm.filterMap f
    cases x with
    | none => exact (List.perm_nil.mp hp).symm
    | some a => exact (List.perm_singleton.mp hp).symm
  refine ⟨?_, ?_, ?_, ?_⟩
  · rw [hexpected]
    exact h.expected
  · rw [hperm.count_eq]
    exact h.pretty
  · intro which
    have hroot := h.root which
    cases which <;> exact hsame _ _ hroot
  · exact hsame _ _ h.containerized

/-- Every choice of options can be written, and in any order. However it is written, and whatever the query
    and its argument are, the line asks for exactly these options and this query, and a configuration takes
    over what the options override and keeps the rest. -/
theorem command_line_round_trip :
    (∀ options : Options, options.Writable →
      ∃ settings written, Adds .none settings options ∧ List.Forall₂ OptionSetting.Written settings written) ∧
    (∀ settings settings' options, Adds .none settings options → settings'.Perm settings →
      settings'.filterMap OptionSetting.expected? = settings.filterMap OptionSetting.expected? →
      Adds .none settings' options) ∧
    (∀ settings written options, Adds .none settings options → List.Forall₂ OptionSetting.Written settings written →
      ∀ query : Query, query.Writable →
        Invocation.parse (written ++ query.commandName.toList :: query.arguments) = .ok ⟨options, query⟩ ∧
        ∀ base, Overridden settings base (options.apply base)) := by
  refine ⟨?_, fun _ _ _ => adds_perm, ?_⟩
  · intro options h
    refine ⟨options.settings, options.settings.map OptionSetting.argument, adds_settings options, ?_⟩
    rw [List.forall₂_map_right_iff, List.forall₂_same]
    exact written_argument h
  · intro settings written options hadds hwritten query hquery
    refine ⟨?_, overridden_apply hadds⟩
    rw [Invocation.parse, parseOptions_written hwritten _ hadds, parseOptions_query hquery]

/-- A root that looks like an option and has another equals sign in it, expected columns in two parts around it, and
    a file name that looks like an option. -/
def awkwardSettings : List OptionSetting :=
  [.containerized false, .expected [.text, .int8], .root .proc ⟨"--ppid=1".toList⟩, .pretty, .expected [.textArray]]

def awkwardOptions : Options where
  expected := some [.text, .int8, .textArray]
  pretty := true
  cgroupRoot := none
  podinfoPath := none
  procRoot := some ⟨"--ppid=1".toList⟩
  containerized := some false

theorem awkward_line_round_trip :
    Invocation.parse (["--containerized=false", "--expect= TEXT,bigint", "--proc-root=--ppid=1", "--pretty",
        "--expect=text[]", "cgroup-setof-kv", "--", "--help"].map String.toList) =
      .ok ⟨awkwardOptions, .cgroupFile .keyValues "--help".toList⟩ ∧
    Overridden awkwardSettings .standard (awkwardOptions.apply .standard) := by
  obtain ⟨-, -, hread⟩ := command_line_round_trip
  have hadds : Adds .none awkwardSettings awkwardOptions :=
    ⟨by decide, by decide, fun which => by cases which <;> decide, by decide⟩
  have hwritten : List.Forall₂ OptionSetting.Written awkwardSettings
      (["--containerized=false", "--expect= TEXT,bigint", "--proc-root=--ppid=1", "--pretty", "--expect=text[]"].map
        String.toList) := by
    refine .cons .containerized (.cons ?_ (.cons (.root (by decide)) (.cons .pretty (.cons ?_ .nil))))
    · have htext : ColumnType.Named .text " TEXT".toList := ⟨by decide, "text", by decide, by decide⟩
      have hint : ColumnType.Named .int8 "bigint".toList := ⟨by decide, "bigint", by decide, by decide⟩
      exact .expected (by decide) (.cons htext (.cons hint .nil))
    · exact .expected (by decide) (.cons (named_name .textArray) .nil)
  obtain ⟨hparse, hconfig⟩ := hread _ _ _ hadds hwritten (.cgroupFile .keyValues "--help".toList) (by decide)
  exact ⟨hparse, hconfig .standard⟩

end HostTables
