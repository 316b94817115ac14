/-
  HostTables.Proofs.Query.MemberPids — the processes of the default cgroup, as a set.

  A line of `cgroup.procs` stands for a process id when it is a numeral of it: digits with at most one
  plus in front, between blanks (`Denotes`). Lines are read one by one (`pidOf_eq_ok_iff`,
  `pidOf_eq_error_iff`), and what they stand for is put into an increasing list, which stays increasing
  (`insertPid_increases`) and gets this one member (`mem_insertPid`). It is the list that sorting them and dropping
  repetitions gives (`foldr_insertPid_eq_sorted`). Two increasing lists with the same members are equal, so it does not
  matter how often and in which order the file names a process (`pidsOf_eq_ok_iff`).

  `members_are_the_set_listed`: the processes are known exactly when every line stands for one, and then
  they are those that some line stands for; otherwise the first line that stands for none is reported. The
  count of processes is the length of the list, and fails as the list does.
-/
import HostTables.Proofs.Number.Decimal
import HostTables.Proofs.Query.Confined
import HostTables.Proofs.Query.SwitchedOff
import HostTables.Proofs.Text.Words
import Mathlib.Data.List.Destutter
import Mathlib.Data.List.Sort

namespace HostTables

namespace CgroupState

/-! ## Lines -/

/-- The line is a numeral of the process id, with nothing but blanks around it. -/
def Denotes (line : Text) (pid : UInt32) : Prop :=
  ∃ left plus digits right : Text, line = left ++ (plus ++ digits) ++ right ∧
    (∀ c ∈ left ++ right, Text.isBlank c = true) ∧ (plus = [] ∨ plus = ['+']) ∧
    digits ≠ [] ∧ (∀ c ∈ digits, c.isDigit = true) ∧ Decimal.value digits = pid.toNat

variable {line content : Text} {pid : UInt32} {row : Nat}

theorem solid_of_numeral {plus digits : Text} (hplus : plus = [] ∨ plus = ['+'])
    (hdigits : ∀ c ∈ digits, c.isDigit = true) : (plus ++ digits).Solid := by
  intro c hc
  rcases List.mem_append.mp hc with hc | hc
  · rcases hplus with rfl | rfl
    · cases hc
    · rw [List.mem_singleton.mp hc]
      rfl
  · exact Text.isBlank_of_isDigit (hdigits c hc)

theorem denotes_iff : Denotes line pid ↔ Decimal.unsigned? (Text.trim line) = some pid.toNat := by
  simp only [Decimal.unsigned?_eq_some_iff, Decimal.natural?_eq_some_iff]
  constructor
  · intro h
    obtain ⟨left, plus, digits, right, rfl, hblank, hplus, hne, hdigits, hvalue⟩ := h
    have hsolid : (plus ++ digits).Solid := solid_of_numeral hplus hdigits
    exact ⟨plus, digits, (Text.trim_eq_iff hsolid).mpr ⟨left, right, rfl, hblank⟩, hplus, hne, hdigits, hvalue⟩
  · intro h
    obtain ⟨plus, digits, htrim, hplus, hne, hdigits, hvalue⟩ := h
    obtain ⟨left, right, hline, hblank⟩ := (Text.trim_eq_iff (solid_of_numeral hplus hdigits)).mp htrim
    exact ⟨left, plus, digits, right, hline, hblank, hplus, hne, hdigits, hvalue⟩

theorem pidOf_eq_ok_iff : pidOf row line = .ok pid ↔ Denotes line pid := by
  rw [denotes_iff]
  unfold pidOf
  constructor
  · intro h
    split at h
    · rename_i n hn
      obtain ⟨hread, hlt⟩ := Option.filter_eq_some_iff.mp hn
      cases h
      rw [hread, UInt32.toNat_ofNat_of_lt' (by simpa using hlt)]
    · cases h
  · intro h
    have hlt : pid.toNat < UInt32.size := pid.toNat_lt
    simp [h, Option.filter, hlt]

theorem pidOf_eq_error_iff {e : ParseError} : pidOf row line = .error e ↔
    (∀ pid, ¬ Denotes line pid) ∧ e = .value row 1 (.invalid line "pid") := by
  cases h : pidOf row line with
  | ok pid =>
    have hdenotes := pidOf_eq_ok_iff.mp h
    simp only [reduceCtorEq, false_iff]
    exact fun hnone => hnone.1 pid hdenotes
  | error cause =>
    have hnone : ∀ pid, ¬ Denotes line pid := by
      intro pid hdenotes
      rw [pidOf_eq_ok_iff.mpr hdenotes] at h
      cases h
    have hcause : cause = .value row 1 (.invalid line "pid") := by
      unfold pidOf at h
      split at h
      · cases h
      · exact (Except.error.inj h).symm
    simp only [hcause, Except.error.injEq, hnone, not_false_eq_true, implies_true, true_and]
    exact eq_comm

/-! ## An increasing list -/

theorem mem_insertPid {pids : List UInt32} {other : UInt32} :
    other ∈ insertPid pid pids ↔ other = pid ∨ other ∈ pids := by
  induction pids with
  | nil => simp [insertPid]
  | cons next rest ih =>
    unfold insertPid
    by_cases hlt : pid < next
    · simp [hlt]
    · by_cases heq : pid = next
      · simp [heq]
      · simp only [hlt, heq, if_false, List.mem_cons, ih]
        exact or_left_comm

/-- The head of an increasing list is below all members behind it, and stays so unless the new one comes before it. -/
theorem insertPid_increases {pids : List UInt32} (h : pids.Pairwise (· < ·)) :
    (insertPid pid pids).Pairwise (· < ·) := by
  induction pids with
  | nil => exact List.pairwise_singleton _ _
  | cons next rest ih =>
    obtain ⟨hnext, hrest⟩ := List.pairwise_cons.mp h
    unfold insertPid
    by_cases hlt : pid < next
    · rw [if_pos hlt]
      refine List.pairwise_cons.mpr ⟨fun other hother => ?_, h⟩
      rcases List.mem_cons.mp hother with rfl | hother
      · exact hlt
      · exact UInt32.lt_trans hlt (hnext other hother)
    · rw [if_neg hlt]
      by_cases heq : pid = next
      · rw [if_pos heq]
        exact h
      · rw [if_neg heq]
        refine List.pairwise_cons.mpr ⟨fun other hother => ?_, ih hrest⟩
        rcases mem_insertPid.mp hother with rfl | hother
        · rcases UInt32.lt_or_eq_of_le (UInt32.not_lt.mp hlt) with hlt | heq'
          · exact hlt
          · exact absurd heq'.symm heq
        · exact hnext other hother

/-- Putting one process id after the other into a list ends with all of them, and no other. -/
theorem mem_foldr_insertPid {listed : List UInt32} : pid ∈ listed.foldr insertPid [] ↔ pid ∈ listed := by
  induction listed with
  | nil => exact Iff.rfl
  | cons next rest ih => rw [List.foldr_cons, mem_insertPid, ih, List.mem_cons]

theorem foldr_insertPid_increases (listed : List UInt32) : (listed.foldr insertPid []).Pairwise (· < ·) := by
  induction listed with
  | nil => exact .nil
  | cons next rest ih => exact insertPid_increases ih

/-- Putting them in one by one is sorting them and then dropping each that equals the one before it. -/
theorem foldr_insertPid_eq_sorted (listed : List UInt32) :
    listed.foldr insertPid [] = (listed.mergeSort fun a b => decide (a ≤ b)).destutter (· ≠ ·) := by
  have htrans : ∀ a b c : UInt32, decide (a ≤ b) = true → decide (b ≤ c) = true → decide (a ≤ c) = true := by
    simp only [decide_eq_true_eq]
    exact fun _ _ _ => UInt32.le_trans
  have htotal : ∀ a b : UInt32, (decide (a ≤ b) || decide (b ≤ a)) = true := by
    simp only [Bool.or_eq_true, decide_eq_true_eq]
    exact UInt32.le_total
  have hsorted : (listed.mergeSort fun a b => decide (a ≤ b)).Pairwise (· ≤ ·) := by
    simpa using List.pairwise_mergeSort htrans htotal listed
  have hdistinct : (listed.mergeSort fun a b => decide (a ≤ b)).dedup.Pairwise (· < ·) := by
    have hboth := (hsorted.sublist (List.dedup_sublist _)).and (List.nodup_dedup _)
    exact hboth.imp fun h => UInt32.lt_of_le_of_ne h.1 h.2
  rw [hsorted.destutter_eq_dedup]
  refine (foldr_insertPid_increases listed).eq_of_mem_iff hdistinct fun pid => ?_
  rw [mem_foldr_insertPid, List.mem_dedup, List.mem_mergeSort]

/-! ## The list -/

/-- The first line that stands for no process id is reported, by its number and as it is written. -/
def FirstBadLine (content : Text) (e : ParseError) : Prop :=
  ∃ (i : Nat) (line : Text), (Text.lines content)[i]? = some line ∧ (∀ pid, ¬ Denotes line pid) ∧
    (∀ k < i, ∀ earlier : Text, (Text.lines content)[k]? = some earlier → ∃ pid, Denotes earlier pid) ∧
    e = .value (i + 1) 1 (.invalid line "pid")

theorem exists_lines_iff : (∃ listed, Format.eachNumbered pidOf 1 (Text.lines content) = .ok listed) ↔
    ∀ line ∈ Text.lines content, ∃ pid, Denotes line pid := by
  refine Format.exists_eachNumbered_iff fun row line => ?_
  exact exists_congr fun pid => pidOf_eq_ok_iff

theorem mem_listed_iff {listed : List UInt32} (h : Format.eachNumbered pidOf 1 (Text.lines content) = .ok listed) :
    pid ∈ listed ↔ ∃ line ∈ Text.lines content, Denotes line pid := by
  obtain ⟨-, hread⟩ := Format.eachNumbered_eq_ok_iff_at.mp h
  constructor
  · intro hpid
    obtain ⟨row, line, hline, hpid⟩ := Format.mem_of_eachNumbered h pid hpid
    exact ⟨line, hline, pidOf_eq_ok_iff.mp hpid⟩
  · intro hdenoted
    obtain ⟨line, hline, hdenotes⟩ := hdenoted
    obtain ⟨i, hi⟩ := List.mem_iff_getElem?.mp hline
    obtain ⟨other, hother, hpid⟩ := hread i line hi
    rw [pidOf_eq_ok_iff.mpr hdenotes] at hpid
    cases hpid
    exact List.mem_of_getElem? hother

theorem pidsOf_eq_map (content : Text) :
    pidsOf content = (·.foldr insertPid []) <$> Format.eachNumbered pidOf 1 (Text.lines content) := rfl

theorem exists_pids_iff : (∃ pids, pidsOf content = .ok pids) ↔
    ∀ line ∈ Text.lines content, ∃ pid, Denotes line pid := by
  simp only [← exists_lines_iff, pidsOf_eq_map, map_eq_ok]
  constructor
  · intro h
    obtain ⟨pids, listed, hlisted, -⟩ := h
    exact ⟨listed, hlisted⟩
  · intro h
    obtain ⟨listed, hlisted⟩ := h
    exact ⟨_, listed, hlisted, rfl⟩

/-- The list is known exactly when every line stands for a process id, and then it is the increasing list of those. -/
theorem pidsOf_eq_ok_iff {pids : List UInt32} : pidsOf content = .ok pids ↔
    (∀ line ∈ Text.lines content, ∃ pid, Denotes line pid) ∧ pids.Pairwise (· < ·) ∧
      ∀ pid, pid ∈ pids ↔ ∃ line ∈ Text.lines content, Denotes line pid := by
  rw [pidsOf_eq_map, map_eq_ok, ← exists_lines_iff]
  constructor
  · intro h
    obtain ⟨listed, hlisted, rfl⟩ := h
    exact ⟨⟨listed, hlisted⟩, foldr_insertPid_increases listed,
      fun pid => mem_foldr_insertPid.trans (mem_listed_iff hlisted)⟩
  · intro h
    obtain ⟨⟨listed, hlisted⟩, hincreases, hmem⟩ := h
    have hsame : ∀ pid, pid ∈ listed.foldr insertPid [] ↔ pid ∈ pids := fun pid =>
      (mem_foldr_insertPid.trans (mem_listed_iff hlisted)).trans (hmem pid).symm
    exact ⟨listed, hlisted, (foldr_insertPid_increases listed).eq_of_mem_iff hincreases hsame⟩

theorem pidsOf_eq_error_iff {e : ParseError} : pidsOf content = .error e ↔ FirstBadLine content e := by
  rw [pidsOf_eq_map, map_eq_error, Format.eachNumbered_eq_error_iff_at]
  simp only [pidOf_eq_error_iff, pidOf_eq_ok_iff, FirstBadLine, Nat.add_comm 1]
  constructor
  · intro h
    obtain ⟨i, line, hline, ⟨hbad, he⟩, hbefore⟩ := h
    exact ⟨i, line, hline, hbad, hbefore, he⟩
  · intro h
    obtain ⟨i, line, hline, hbad, hbefore, he⟩ := h
    exact ⟨i, line, hline, ⟨hbad, he⟩, hbefore⟩

/-! ## The query -/

/-- The processes of the default cgroup are listed in the file at the path, which has this content. -/
def Lists (files : FileTree) (state : CgroupState) (path : Path) (content : Text) : Prop :=
  ∃ directory, state.paths.default? = some directory ∧ files.resolveUnder directory processesFile = .ok path ∧
    files.readText path = .ok content

variable {files : FileTree} {state : CgroupState} {path : Path}

theorem memberPids_of_lists (h : Lists files state path content) :
    state.memberPids files = (pidsOf content).mapError fun cause => .table (.malformed path cause) := by
  obtain ⟨directory, hdefault, hpath, hread⟩ := h
  have hdirectory : state.DirectoryOf processesFile directory :=
    ⟨"cgroup".toList, "procs".toList, rfl, by decide, hdefault⟩
  have hfile : state.filePath files processesFile = .ok path := filePath_eq_ok_iff.mpr ⟨directory, hdirectory, hpath⟩
  unfold memberPids
  rw [hfile]
  simp only [bind, Except.bind, hread]

theorem memberPids_eq_ok_iff (h : Lists files state path content) {pids : List UInt32} :
    state.memberPids files = .ok pids ↔ pidsOf content = .ok pids := by
  rw [memberPids_of_lists h, mapError_eq_ok]

/-- While cgroups are on the count is that of the list, or fails as the list does. -/
theorem execute_processCount {machine : Machine} {context : Context} {expected : Option Signature}
    (hon : context.cgroup.isEnabled = true)
    (hexpected : ∀ columns ∈ expected, columns = Query.cgroupProcessCount.signature) :
    Query.cgroupProcessCount.execute machine context expected =
      (fun pids => .scalar (.int4 (Signed.clamp 32 pids.length))) <$> context.cgroup.memberPids machine.files := by
  rw [Query.execute_eq_answer hexpected]
  simp only [Query.answer, Query.processCount, hon, if_true]
  cases context.cgroup.memberPids machine.files <;> rfl

/-- Where the list of the default cgroup can be read, its processes are known exactly when every line stands for a
    process id. They are then the numbers that some line stands for, in increasing order; a file that has the same
    lines, in any order and any number of times, gives the same; and they are counted up to the largest
    column value. Otherwise the file is reported with the first line that stands for none, by the count too. -/
theorem members_are_the_set_listed (machine : Machine) (context : Context)
    (hlists : Lists machine.files context.cgroup path content) :
    ((∃ pids, context.cgroup.memberPids machine.files = .ok pids) ↔
      ∀ line ∈ Text.lines content, ∃ pid, Denotes line pid) ∧
    (∀ pids, context.cgroup.memberPids machine.files = .ok pids →
      pids.Pairwise (· < ·) ∧ (∀ pid, pid ∈ pids ↔ ∃ line ∈ Text.lines content, Denotes line pid) ∧
      ∀ (files : FileTree) (state : CgroupState) (other : Path) (again : Text), Lists files state other again →
        (∀ line, line ∈ Text.lines again ↔ line ∈ Text.lines content) → state.memberPids files = .ok pids) ∧
    (∀ e, context.cgroup.memberPids machine.files = .error e ↔
      ∃ cause, FirstBadLine content cause ∧ e = .table (.malformed path cause)) ∧
    ∀ expected : Option Signature, context.cgroup.isEnabled = true →
      (∀ columns ∈ expected, columns = Query.cgroupProcessCount.signature) →
      (∀ pids, context.cgroup.memberPids machine.files = .ok pids → ∃ count : Signed 32,
        count.val = min (pids.length : Int) 2147483647 ∧
        Query.cgroupProcessCount.execute machine context expected = .ok (.scalar (.int4 count))) ∧
      ∀ e, context.cgroup.memberPids machine.files = .error e →
        Query.cgroupProcessCount.execute machine context expected = .error e := by
  refine ⟨?_, ?_, ?_, ?_⟩
  · simp only [memberPids_eq_ok_iff hlists]
    exact exists_pids_iff
  · intro pids h
    obtain ⟨hlines, hincreases, hmem⟩ := pidsOf_eq_ok_iff.mp ((memberPids_eq_ok_iff hlists).mp h)
    refine ⟨hincreases, hmem, fun files state other again hagain hsame => ?_⟩
    rw [memberPids_eq_ok_iff hagain, pidsOf_eq_ok_iff]
    simp only [hsame]
    exact ⟨hlines, hincreases, hmem⟩
  · intro e
    rw [memberPids_of_lists hlists, mapError_eq_error]
    simp only [pidsOf_eq_error_iff]
    exact exists_congr fun cause => and_congr_right fun _ => eq_comm
  · intro expected hon hexpected
    rw [execute_processCount hon hexpected]
    constructor
    · intro pids h
      rw [h]
      exact ⟨_, Signed.val_clamp_of_nonneg (Int.natCast_nonneg _), rfl⟩
    · intro e h
      rw [h]
      rfl

/-- A machine whose default cgroup lists its processes in this text. -/
def listingMachine (listing : String) : Machine :=
  .ofFiles ⟨[(["cg".toList], .directory),
    (["cg".toList, "cgroup.procs".toList], .file (Utf8.encode listing.toList))], []⟩ []

def listingContext : Context where
  cgroup := ⟨.unified, false, .ofString "/cg", ⟨[("cgroup".toList, .ofString "/cg")]⟩⟩
  podinfoEnabled := false
  podinfoPath := .ofString "/podinfo"
  procEnabled := false
  procRoot := .ofString "/proc"

theorem listingMachine_lists (listing : String) :
    Lists (listingMachine listing).files listingContext.cgroup (.ofString "/cg/cgroup.procs") listing.toList :=
  ⟨.ofString "/cg", rfl, rfl, FileTree.readText_of_encode rfl⟩

/-- Two spellings of one process id and another that comes twice are two processes, also in another order; a
    negative number is none, and is reported although the line before it is one. -/
theorem listed_processes :
    listingContext.cgroup.memberPids (listingMachine "300\n +12\n012\n300\n").files = .ok [12, 300] ∧
    listingContext.cgroup.memberPids (listingMachine "012\n012\n300\n +12").files = .ok [12, 300] ∧
    (∃ count : Signed 32, count.val = 2 ∧
      Query.cgroupProcessCount.execute (listingMachine "300\n +12\n012\n300\n") listingContext none =
        .ok (.scalar (.int4 count))) ∧
    Query.cgroupProcessCount.execute (listingMachine "300\n\n-1\nx\n") listingContext none =
      .error (.table (.malformed (.ofString "/cg/cgroup.procs") (.value 2 1 (.invalid "-1".toList "pid")))) := by
  have hnone : ∀ columns ∈ (none : Option Signature), columns = Query.cgroupProcessCount.signature := nofun
  obtain ⟨-, known, -, counted⟩ :=
    members_are_the_set_listed (listingMachine "300\n +12\n012\n300\n") listingContext (listingMachine_lists _)
  obtain ⟨-, -, reported, refused⟩ :=
    members_are_the_set_listed (listingMachine "300\n\n-1\nx\n") listingContext (listingMachine_lists _)
  have hpids : listingContext.cgroup.memberPids (listingMachine "300\n +12\n012\n300\n").files = .ok [12, 300] := by
    decide
  obtain ⟨-, -, again⟩ := known _ hpids
  have hless : ∀ line ∈ Text.lines "012\n012\n300\n +12".toList,
    line ∈ Text.lines "300\n +12\n012\n300\n".toList := by decide
  have hmore : ∀ line ∈ Text.lines "300\n +12\n012\n300\n".toList,
    line ∈ Text.lines "012\n012\n300\n +12".toList := by decide
  have hfirst : pidOf 1 "300".toList = .ok 300 := by decide
  have hsecond : pidOf 2 "-1".toList = .error (.value 2 1 (.invalid "-1".toList "pid")) := by decide
  have hbad : FirstBadLine "300\n\n-1\nx\n".toList (.value 2 1 (.invalid "-1".toList "pid")) := by
    refine ⟨1, "-1".toList, by decide, (pidOf_eq_error_iff.mp hsecond).1, fun k hk earlier hearlier => ?_, rfl⟩
    obtain rfl : k = 0 := by omega
    cases hearlier
    exact ⟨300, pidOf_eq_ok_iff.mp hfirst⟩
  refine ⟨hpids, ?_, (counted none rfl hnone).1 _ hpids, ?_⟩
  · exact again _ _ _ _ (listingMachine_lists _) fun line => ⟨hless line, hmore line⟩
  · exact (refused none rfl hnone).2 _ ((reported _).mpr ⟨_, hbad, rfl⟩)

end CgroupState

end HostTables
