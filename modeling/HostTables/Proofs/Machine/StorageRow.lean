/-
  HostTables.Proofs.Machine.StorageRow — the row of a filesystem, from its counters to typed values.

  Every column of the row says a number or a text (`FileSystemInfo.data`). Numbers are written as numerals and read
  back in 128 bits, in which every word of 64 bits has its place (`coerce_ofNat`), so the row of whatever
  filesystem is a table (`coerceCells_data`). The bytes of a number of blocks are capped, and capping keeps the order
  (`bytes_mono`). The text of the flags is cut at its commas into the names of the flags that are set
  (`listed_listing`), of which none is called `none` (`listing_eq_none_iff`).

  `filesystem_row_assembled` puts them together, and with them the answer to a query for a filesystem.
-/
import HostTables.Proofs.Coerce.Integers
import HostTables.Proofs.Table.FirstFault
import HostTables.Query.Execute

namespace HostTables

/-! ## Flags -/

namespace MountFlag

/-- The flags that a text lists for a word: those that are set, in their order, once each. -/
structure Listed (word : Nat) (t : Text) (flags : List MountFlag) : Prop where
  ordered : flags.Sublist all
  once : flags.Nodup
  set : ∀ flag, flag ∈ flags ↔ word.testBit flag.bit = true
  none : flags = [] → t = "none".toList
  names : flags ≠ [] → t.splitOn ',' = flags.map fun flag => flag.name.toList

variable {word : Nat} {flag : MountFlag}

theorem mem_all (flag : MountFlag) : flag ∈ all := by cases flag <;> decide

theorem mem_ofWord_iff : flag ∈ ofWord word ↔ word.testBit flag.bit = true := by
  rw [ofWord, List.mem_filter, and_iff_right (mem_all flag)]

theorem listing_of_none (h : ofWord word = []) : listing word = "none".toList := by
  rw [listing, h]

theorem listing_of_some (h : ofWord word ≠ []) :
    listing word = Text.joined [','] ((ofWord word).map fun flag => flag.name.toList) := by
  unfold listing
  split
  · exact absurd ‹_› h
  · rfl

theorem comma_not_mem_name (flag : MountFlag) : ',' ∉ flag.name.toList := by cases flag <;> decide

/-- The commas of the text are those between the names. -/
theorem listed_listing (word : Nat) : Listed word (listing word) (ofWord word) where
  ordered := List.filter_sublist
  once := (by decide : all.Nodup).filter _
  set _ := mem_ofWord_iff
  none := listing_of_none
  names h := by
    rw [listing_of_some h]
    refine List.splitOn_intercalate ',' ?_ (by simpa using h)
    exact List.forall_mem_map.mpr fun flag _ => comma_not_mem_name flag

/-- No flag is called `none`. -/
theorem listing_eq_none_iff : listing word = "none".toList ↔ ∀ flag : MountFlag, word.testBit flag.bit = false := by
  have hnone : (∀ flag : MountFlag, word.testBit flag.bit = false) ↔ ofWord word = [] := by
    simp only [List.eq_nil_iff_forall_not_mem, mem_ofWord_iff, Bool.not_eq_true]
  rw [hnone]
  refine ⟨fun heq => ?_, listing_of_none⟩
  by_contra hsome
  have hmem : "none".toList ∈ (listing word).splitOn ',' := by
    rw [heq]
    decide
  rw [(listed_listing word).names hsome] at hmem
  obtain ⟨flag, -, hname⟩ := List.mem_map.mp hmem
  revert hname
  cases flag <;> decide

end MountFlag

/-! ## Columns -/

/-- What a column says. -/
inductive Datum where
  | number (n : Nat)
  | text (t : Text)
  deriving DecidableEq

namespace Datum

def cell : Datum → Cell
  | .number n => .token (Decimal.ofNat n)
  | .text t => .token t

def type : Datum → ColumnType
  | .number _ => .numeric
  | .text _ => .text

/-- The value is the number or the text. -/
inductive Shows : Datum → Value → Prop
  | number {n : Nat} {word : Signed 128} : word.val = n → Shows (.number n) (.numeric word)
  | text {t : Text} : Shows (.text t) (.text t)

end Datum

open Datum (Shows)

/-- A numeral of up to 127 bits is read as the number. -/
theorem coerce_ofNat {n : Nat} (h : n < 2 ^ 127) :
    ∃ value, (Cell.token (Decimal.ofNat n)).coerce .numeric = .ok value ∧ Shows (.number n) value := by
  obtain ⟨word, hword⟩ := Signed.inRange_iff.mp (show Signed.InRange 128 n from ⟨by omega, by omega⟩)
  refine ⟨.numeric word, map_eq_ok.mpr ⟨word, Coerce.signed_eq_ok_iff.mpr ?_, rfl⟩, .number hword⟩
  rw [hword]
  exact Decimal.denotes_ofInt n

/-- A row of numbers of up to 127 bits and texts can be read. -/
theorem coerceCells_data {data : List Datum} (h : ∀ n, .number n ∈ data → n < 2 ^ 127) (row : Nat) :
    ∀ column, ∃ values, Table.coerceCells row column (data.map Datum.cell) (data.map Datum.type) = .ok values ∧
      List.Forall₂ Shows data values := by
  induction data with
  | nil => exact fun _ => ⟨[], rfl, .nil⟩
  | cons datum rest ih =>
    intro column
    obtain ⟨values, hvalues, hshows⟩ := ih (fun n hn => h n (List.mem_cons_of_mem _ hn)) (column + 1)
    have hcell : ∃ value, datum.cell.coerce datum.type = .ok value ∧ Shows datum value := by
      cases datum with
      | number n => exact coerce_ofNat (h n List.mem_cons_self)
      | text t => exact ⟨.text t, rfl, .text⟩
    obtain ⟨value, hvalue, hshow⟩ := hcell
    refine ⟨value :: values, ?_, .cons hshow hshows⟩
    simp only [List.map_cons, Table.coerceCells, hvalue, hvalues]
    rfl

section Values

variable {data : List Datum} {values : List Value}

theorem null_not_mem (h : List.Forall₂ Shows data values) : .null ∉ values := by
  induction h with
  | nil => exact List.not_mem_nil
  | cons hshow _ ih =>
    intro hnull
    rcases List.mem_cons.mp hnull with rfl | hnull
    · cases hshow
    · exact ih hnull

theorem number_at (h : List.Forall₂ Shows data values) {i n : Nat} (hdatum : data[i]? = some (.number n)) :
    ∃ word : Signed 128, values[i]? = some (.numeric word) ∧ word.val = n := by
  obtain ⟨value, hvalue, hshow⟩ := getElem?_of_forall₂ h hdatum
  cases hshow with
  | number hword => exact ⟨_, hvalue, hword⟩

theorem text_at (h : List.Forall₂ Shows data values) {i : Nat} {t : Text} (hdatum : data[i]? = some (.text t)) :
    values[i]? = some (.text t) := by
  obtain ⟨value, hvalue, hshow⟩ := getElem?_of_forall₂ h hdatum
  cases hshow
  exact hvalue

end Values

/-! ## Filesystems -/

namespace FileSystemInfo

/-- What the columns of the row say. -/
def data (info : FileSystemInfo) : List Datum :=
  [.number info.major.toNat, .number info.minor.toNat, .text info.typeName.toList,
   .number info.blockSize.toNat,
   .number info.blocks.toNat, .number (min (info.blocks.toNat * info.blockSize.toNat) (2 ^ 64 - 1)),
   .number info.blocksFree.toNat, .number (min (info.blocksFree.toNat * info.blockSize.toNat) (2 ^ 64 - 1)),
   .number info.blocksAvailable.toNat, .number (min (info.blocksAvailable.toNat * info.blockSize.toNat) (2 ^ 64 - 1)),
   .number info.files.toNat, .number info.filesFree.toNat, .text (MountFlag.listing info.flags)]

theorem row_eq (info : FileSystemInfo) : info.row = info.data.map Datum.cell := rfl

theorem signature_eq (info : FileSystemInfo) : signature = info.data.map Datum.type := rfl

theorem data_lt (info : FileSystemInfo) : ∀ n, .number n ∈ info.data → n < 2 ^ 127 := by
  have hword : ∀ word : UInt64, word.toNat < 2 ^ 127 := fun word => by have := word.toNat_lt; omega
  have hbytes : ∀ n, min n (2 ^ 64 - 1) < 2 ^ 127 := fun n => by omega
  intro n hn
  simp only [data, List.mem_cons, Datum.number.injEq, reduceCtorEq, List.not_mem_nil, or_false, false_or] at hn
  rcases hn with rfl | rfl | rfl | rfl | rfl | rfl | rfl | rfl | rfl | rfl | rfl
  all_goals first | exact hword _ | exact hbytes _

/-- Capped products are in the order of the numbers of blocks. -/
theorem bytes_mono {a b : UInt64} (h : a ≤ b) (size : UInt64) :
    min (a.toNat * size.toNat) (2 ^ 64 - 1) ≤ min (b.toNat * size.toNat) (2 ^ 64 - 1) :=
  min_le_min_right _ (Nat.mul_le_mul_right _ (UInt64.le_iff_toNat_le.mp h))

/-- The one row of the table. -/
theorem exists_values (info : FileSystemInfo) (path : Path) :
    ∃ values, Table.assemble [info.row] signature (.file path) = .ok ⟨signature, [values]⟩ ∧
      List.Forall₂ Shows info.data values := by
  obtain ⟨values, hvalues, hshows⟩ := coerceCells_data info.data_lt 1 1
  refine ⟨values, Table.assemble_eq_ok_iff.mpr ⟨List.cons_ne_nil _ _, rfl, ?_⟩, hshows⟩
  have hrow : Table.coerceRow signature 1 info.row = .ok values := by
    have hwidth : info.row.length = signature.length := rfl
    rw [Table.coerceRow, if_pos hwidth, row_eq, signature_eq info]
    exact hvalues
  simp only [Format.eachNumbered_cons, Format.eachNumbered_nil, hrow]
  rfl

/-- The row of every filesystem is a table of one row, also when a query asks for it: thirteen values, none of them
    null, that are the given numbers, the type, the products of the numbers of blocks with the block size, each at
    most the largest word of 64 bits, and the flags. Where fewer blocks are available than free, and fewer
    free than there are, so it is in bytes. The text of the flags lists those that are set in their order, once each, or
    says that there is none. -/
theorem filesystem_row_assembled (info : FileSystemInfo) (path : Path) :
    ∃ values, Table.assemble [info.row] signature (.file path) = .ok ⟨signature, [values]⟩ ∧
      values.length = 13 ∧ Value.null ∉ values ∧ List.Forall₂ Shows info.data values ∧
      (info.blocksAvailable ≤ info.blocksFree → info.blocksFree ≤ info.blocks → ∃ available free all : Signed 128,
        values[9]? = some (.numeric available) ∧ values[7]? = some (.numeric free) ∧
        values[5]? = some (.numeric all) ∧ available.val ≤ free.val ∧ free.val ≤ all.val) ∧
      (∃ t flags, values[12]? = some (.text t) ∧ MountFlag.Listed info.flags t flags ∧
        (t = "none".toList ↔ ∀ flag : MountFlag, info.flags.testBit flag.bit = false)) ∧
      ∀ (machine : Machine) (context : Context), context.procEnabled = true → machine.storageAt path = .ok info →
        Query.fileSystemTable machine context path = .ok ⟨signature, [values]⟩ := by
  obtain ⟨values, htable, hshows⟩ := exists_values info path
  refine ⟨values, htable, hshows.length_eq.symm, null_not_mem hshows, hshows, ?_, ?_, ?_⟩
  · intro havailable hfree
    obtain ⟨available, hat, hbytes⟩ := number_at hshows (i := 9) rfl
    obtain ⟨free, hatfree, hbytesfree⟩ := number_at hshows (i := 7) rfl
    obtain ⟨all, hatall, hbytesall⟩ := number_at hshows (i := 5) rfl
    refine ⟨available, free, all, hat, hatfree, hatall, ?_, ?_⟩
    · rw [hbytes, hbytesfree]
      exact Int.ofNat_le.mpr (bytes_mono havailable info.blockSize)
    · rw [hbytesfree, hbytesall]
      exact Int.ofNat_le.mpr (bytes_mono hfree info.blockSize)
  · exact ⟨_, _, text_at hshows rfl, MountFlag.listed_listing _, MountFlag.listing_eq_none_iff⟩
  · intro machine context hon hstorage
    simp only [Query.fileSystemTable, if_pos hon, hstorage, htable, Except.mapError, ok_bind]

/-- A filesystem with one block less available than would be too many bytes for a word, that many free and far more
    in all. One of its flags has no name. -/
def largeDisk : FileSystemInfo where
  major := 8
  minor := 1
  typeName := magicName 0x58465342
  blockSize := 4096
  blocks := 9223372036854775808
  blocksFree := 4503599627370496
  blocksAvailable := 4503599627370495
  files := 18446744073709551615
  filesFree := 0
  flags := 0b1000000100001

theorem large_disk_row :
    largeDisk.blocksAvailable ≤ largeDisk.blocksFree ∧ largeDisk.blocksFree ≤ largeDisk.blocks ∧
    ∃ (values : List Value) (available free all : Signed 128),
      Table.assemble [largeDisk.row] signature (.file (.ofString "/")) = .ok ⟨signature, [values]⟩ ∧
      values[9]? = some (.numeric available) ∧ available.val = 18446744073709547520 ∧
      values[7]? = some (.numeric free) ∧ free.val = 18446744073709551615 ∧
      values[5]? = some (.numeric all) ∧ all.val = 18446744073709551615 ∧
      available.val ≤ free.val ∧ free.val ≤ all.val ∧
      values[2]? = some (.text "xfs".toList) ∧ values[12]? = some (.text "rdonly,relatime".toList) := by
  have havailable : largeDisk.blocksAvailable ≤ largeDisk.blocksFree := by decide
  have hfree : largeDisk.blocksFree ≤ largeDisk.blocks := by decide
  refine ⟨havailable, hfree, ?_⟩
  obtain ⟨values, htable, -, -, hshows, hordered, -⟩ := filesystem_row_assembled largeDisk (.ofString "/")
  obtain ⟨available, free, all, hat, hatfree, hatall, hle, hlefree⟩ := hordered havailable hfree
  have hval : ∀ {i n : Nat} {word : Signed 128}, largeDisk.data[i]? = some (.number n) →
      values[i]? = some (.numeric word) → word.val = n := by
    intro i n word hdatum hword
    obtain ⟨other, hother, hval⟩ := number_at hshows hdatum
    rw [hword] at hother
    cases hother
    exact hval
  refine ⟨values, available, free, all, htable, hat, ?_, hatfree, ?_, hatall, ?_, hle, hlefree, ?_, ?_⟩
  · exact hval (n := 18446744073709547520) (by decide) hat
  · exact hval (n := 18446744073709551615) (by decide) hatfree
  · exact hval (n := 18446744073709551615) (by decide) hatall
  · exact text_at hshows (by decide)
  · exact text_at hshows (by decide)

end FileSystemInfo

end HostTables
