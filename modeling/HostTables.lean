import HostTables.Cgroup.Error
import HostTables.Cgroup.Membership
import HostTables.Cgroup.Mode
import HostTables.Cgroup.PathTable
import HostTables.Cgroup.State
import HostTables.Coerce.Error
import HostTables.Coerce.Size
import HostTables.Coerce.Token
import HostTables.CommandLine
import HostTables.Config
import HostTables.Context
import HostTables.Footprint
import HostTables.Format
import HostTables.Format.Error
import HostTables.Format.Kernel
import HostTables.Format.Keyed
import HostTables.Format.Lines
import HostTables.Format.MountLine
import HostTables.Format.ProcessFile
import HostTables.Json.Basic
import HostTables.Json.Table
import HostTables.Machine.Basic
import HostTables.Machine.Confined
import HostTables.Machine.FileTree
import HostTables.Machine.Observed
import HostTables.Machine.Storage
import HostTables.Main
import HostTables.Notice
import HostTables.Number.Decimal
import HostTables.Number.Double
import HostTables.Number.Shortest
import HostTables.Number.Signed
import HostTables.Path.Basic
import HostTables.Path.Filename
import HostTables.Program
import HostTables.Query.Basic
import HostTables.Query.Cgroup
import HostTables.Query.ChildProcess
import HostTables.Query.Error
import HostTables.Query.Execute
import HostTables.Query.Reading
import HostTables.Table.Assemble
import HostTables.Table.Cell
import HostTables.Table.Column
import HostTables.Text.Basic
import HostTables.Text.Blank
import HostTables.Text.Quoted
import HostTables.Text.Utf8
import HostTables.Proofs.Outcome
import HostTables.Proofs.Table.Conforms
import HostTables.Proofs.Query.Schema
import HostTables.Proofs.Path.Join
import HostTables.Proofs.Path.Lexical
import HostTables.Proofs.Text.Fields
import HostTables.Proofs.Cgroup.Confinement
import HostTables.Proofs.Machine.Walk
import HostTables.Proofs.Machine.Confined
import HostTables.Proofs.Query.Confined
import HostTables.Proofs.Text.Quoted
import HostTables.Proofs.Format.QuotedPairs
import HostTables.Proofs.Format.Signature
import HostTables.Proofs.Table.Faults
import HostTables.Proofs.Query.FileTable
import HostTables.Proofs.Query.SwitchedOff
import HostTables.Proofs.Cgroup.Mode
import HostTables.Proofs.Cgroup.Resolution
import HostTables.Proofs.Cgroup.LegacyTable
import HostTables.Proofs.Format.Concatenation
import HostTables.Proofs.Text.Words
import HostTables.Proofs.Format.MountTable
import HostTables.Proofs.Format.MountLine
import HostTables.Proofs.Cgroup.MountRows
import HostTables.Proofs.Text.IllFormed
import HostTables.Proofs.Cgroup.IllFormedMounts
import HostTables.Proofs.Path.Filename
import HostTables.Proofs.Query.NameGate
import HostTables.Proofs.Number.Decimal
import HostTables.Proofs.Format.KeyedTables
import HostTables.Proofs.Format.ValueLists
import HostTables.Proofs.Text.LossyText
import HostTables.Proofs.CommandLine
import HostTables.Proofs.Json.Grammar
import HostTables.Proofs.Json.Printed
import HostTables.Proofs.Query.Printed
import HostTables.Proofs.Coerce.SizeText
import HostTables.Proofs.Number.Rounding
import HostTables.Proofs.Coerce.SizeRounding
import HostTables.Proofs.Table.FirstFault
import HostTables.Proofs.Format.NestedTable
import HostTables.Proofs.Format.ProcessStat
import HostTables.Proofs.Query.ChildTable
import HostTables.Proofs.Query.MemberPids
import HostTables.Proofs.Text.Decoding
import HostTables.Proofs.Coerce.Integers
import HostTables.Proofs.Coerce.SizeWords
import HostTables.Proofs.Coerce.SizeOutcomes
import HostTables.Proofs.Coerce.SizeOrder
import HostTables.Proofs.Format.InterfaceTable
import HostTables.Proofs.Format.DiskTable
import HostTables.Proofs.Format.MemoryTable
import HostTables.Proofs.Cgroup.UnifiedTable
import HostTables.Proofs.Cgroup.MembershipLines
import HostTables.Proofs.Cgroup.MountPoints
import HostTables.Proofs.Machine.StorageRow
import HostTables.Proofs.Format.LineNumbers
import HostTables.Proofs.Text.Runs
import HostTables.Proofs.Cgroup.PathTable
import HostTables.Proofs.Context
import HostTables.Proofs.Table.Filled
import HostTables.Proofs.Text.Utf8
