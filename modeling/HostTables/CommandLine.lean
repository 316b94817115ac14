/-
  HostTables.CommandLine — the arguments of the program.

  Options come first, as `--name value` or `--name=value`, then the name of a query and its
  own arguments; `--` ends options. A value written as an argument of its own is judged when
  the next option or the end of the line is reached, so a request for help in between still
  gets its answer.
-/
import HostTables.Config
import HostTables.Query.Basic

namespace HostTables

/-! ## Arguments -/

/-- An argument by its form. -/
inductive Argument where
  /-- The argument `--`. -/
  | endOfOptions
  | long (name : Text) (attached : Option Text)
  | short (letter : Char) (rest : Text)
  | plain (text : Text)
  deriving DecidableEq, Repr

namespace Argument

/-- A lone dash is a plain argument. -/
def ofText : Text → Argument
  | ['-', '-'] => .endOfOptions
  | '-' :: '-' :: rest =>
    match Text.splitOnce? '=' rest with
    | some (name, value) => .long name (some value)
    | none => .long rest none
  | '-' :: letter :: rest => .short letter rest
  | t => .plain t

/-- Asks for help or the version in one letter; what follows the letter is not looked at. -/
def asksInShort (letter : Char) : Bool := letter == 'h' || letter == 'V'

/-- Asks for help or the version in a word. -/
def asksInLong (name : Text) : Bool := name == "help".toList || name == "version".toList

end Argument

/-- Why there is nothing to run. -/
inductive Refusal where
  /-- The arguments are not understood. -/
  | usage
  /-- Help or the version was asked for. -/
  | display
  deriving DecidableEq, Repr

/-- An option whose value is still to be judged. -/
inductive Pending (α : Type) where
  | nothing
  /-- The value is the next argument. -/
  | awaiting (option : α)
  | given (option : α) (value : Text)
  deriving DecidableEq, Repr

/-! ## Queries by name -/

/-- A number in the range of 64-bit integers. -/
def integerArgument? (t : Text) : Option (Signed 64) :=
  (Decimal.integer? t).bind (Signed.ofInt? 64)

/-- A process id. -/
def pidArgument? (t : Text) : Option UInt32 :=
  match integerArgument? t with
  | some n => if 0 ≤ n.val ∧ n.val < UInt32.size then some (UInt32.ofNat n.val.toNat) else none
  | none => none

/-- A path; it must not be empty. -/
def pathArgument? (t : Text) : Option Path := if t = [] then none else some ⟨t⟩

/-- A named query and the argument it takes. -/
inductive Command where
  | plain (query : Query)
  | withText (make : Text → Query)
  | withPath (make : Path → Query)
  | withPages (make : Signed 64 → Query)
  | withParent (make : Option UInt32 → Query)

namespace Command

/-- Every query by its name. -/
def all : List (String × Command) :=
  [("cgroup-mode", .plain .cgroupMode),
   ("cgroup-path", .plain .cgroupPaths),
   ("cgroup-process-count", .plain .cgroupProcessCount),
   ("cgroup-scalar-bigint", .withText (.cgroupFile .bigint)),
   ("cgroup-scalar-float8", .withText (.cgroupFile .float8)),
   ("cgroup-scalar-text", .withText (.cgroupFile .text)),
   ("cgroup-setof-bigint", .withText (.cgroupFile .bigintSet)),
   ("cgroup-setof-text", .withText (.cgroupFile .textSet)),
   ("cgroup-array-bigint", .withText (.cgroupFile .bigintArray)),
   ("cgroup-array-text", .withText (.cgroupFile .textArray)),
   ("cgroup-setof-kv", .withText (.cgroupFile .keyValues)),
   ("cgroup-setof-ksv", .withText (.cgroupFile .keySubkeyValues)),
   ("cgroup-setof-nkv", .withText (.cgroupFile .nestedKeyValues)),
   ("kdapi-setof-kv", .withText (.podinfoFile .keyValues)),
   ("kdapi-scalar-bigint", .withText (.podinfoFile .bigint)),
   ("envvar-text", .withText .variableText),
   ("envvar-bigint", .withText .variableBigint),
   ("proc-diskstats", .plain (.procFile .diskstats)),
   ("proc-mountinfo", .plain (.procFile .mountinfo)),
   ("proc-meminfo", .plain (.procFile .meminfo)),
   ("proc-network-stats", .plain (.procFile .networkStats)),
   ("proc-cputime", .plain (.procFile .cpuTime)),
   ("proc-loadavg", .plain (.procFile .loadAverage)),
   ("proc-pid-io", .withParent (.children .io)),
   ("proc-pid-cmdline", .withParent (.children .commandLine)),
   ("proc-pid-stat", .withParent (.children .stat)),
   ("fsinfo", .withPath .fileSystem),
   ("pages-to-bytes", .withPages .pagesToBytes)]

def ofName? (name : Text) : Option Command :=
  (all.find? fun (known, _) => known.toList == name).map fun (_, command) => command

/-- The query of a command that takes one argument, if there is an acceptable one. -/
def withArgument? (command : Command) (t : Text) : Option Query :=
  match command with
  | .withText make => some (make t)
  | .withPath make => (pathArgument? t).map make
  | .withPages make => (integerArgument? t).map make
  | .plain _ | .withParent _ => none

/-- Whether a number with a minus is an argument and not an option. -/
def takesNegative : Command → Bool
  | .withPages _ => true
  | _ => false

/-- Reads no further argument. -/
def parsePlain (query : Query) : List Text → Except Refusal Query
  | [] => .ok query
  | arg :: rest =>
    match Argument.ofText arg with
    | .endOfOptions => if rest = [] then .ok query else .error .usage
    | .long name none => .error (if Argument.asksInLong name then .display else .usage)
    | .short letter _ => .error (if Argument.asksInShort letter then .display else .usage)
    | .long _ (some _) | .plain _ => .error .usage

/-- Judges the argument read so far, if any, before help is shown. -/
def refusalAfter (command : Command) (read : Option Text) : Refusal :=
  match read with
  | none => .display
  | some t => if (command.withArgument? t).isSome then .display else .usage

/-- Reads one argument, options being over or not. -/
def parseArgument (command : Command) (read : Option Text) (optionsOver : Bool) :
    List Text → Except Refusal Query
  | [] =>
    match read.bind command.withArgument? with
    | some query => .ok query
    | none => .error .usage
  | arg :: rest =>
    let take := if read.isSome then .error .usage
      else parseArgument command (some arg) optionsOver rest
    if optionsOver then take
    else match Argument.ofText arg with
      | .endOfOptions => parseArgument command read true rest
      | .long name none =>
        .error (if Argument.asksInLong name then command.refusalAfter read else .usage)
      | .long _ (some _) => .error .usage
      | .short letter _ =>
        if command.takesNegative && read.isNone && letter.isDigit then take
        else .error (if Argument.asksInShort letter then command.refusalAfter read else .usage)
      | .plain _ => take

/-- The parent process behind an option read so far. -/
def settleParent (parent : Option UInt32) : Pending Unit → Except Refusal (Option UInt32)
  | .nothing => .ok parent
  | .awaiting _ => .error .usage
  | .given _ value =>
    match parent, pidArgument? value with
    | none, some pid => .ok (some pid)
    | _, _ => .error .usage

/-- The name of the option that gives the parent process. -/
def parentOption : Text := "ppid".toList

/-- Reads at most one parent process. -/
def parseParent (make : Option UInt32 → Query) (parent : Option UInt32) (pending : Pending Unit) :
    List Text → Except Refusal Query
  | [] => make <$> settleParent parent pending
  | arg :: rest =>
    match pending, Argument.ofText arg with
    | .awaiting o, .plain value => parseParent make parent (.given o value) rest
    | .awaiting _, _ => .error .usage
    | _, .plain _ => .error .usage
    | _, .endOfOptions =>
      if rest = [] then make <$> settleParent parent pending else .error .usage
    | _, .short letter _ =>
      if Argument.asksInShort letter then do
        let _ ← settleParent parent pending
        .error .display
      else .error .usage
    | _, .long name attached => do
      if name = parentOption then
        let settled ← settleParent parent pending
        match attached with
        | some value =>
          let settled ← settleParent settled (.given () value)
          parseParent make settled .nothing rest
        | none => parseParent make settled (.awaiting ()) rest
      else if Argument.asksInLong name && attached.isNone then
        let _ ← settleParent parent pending
        .error .display
      else .error .usage

/-- The query of a command's own arguments. -/
def parse (command : Command) (args : List Text) : Except Refusal Query :=
  match command with
  | .plain query => parsePlain query args
  | .withParent make => parseParent make none .nothing args
  | _ => parseArgument command none false args

end Command

/-! ## Options -/

/-- What the options in front of the query ask for. -/
structure Options where
  expected : Option Signature
  pretty : Bool
  cgroupRoot : Option Path
  podinfoPath : Option Path
  procRoot : Option Path
  containerized : Option Bool
  deriving DecidableEq, Repr

/-- The options that take a value. -/
inductive ValueOption where
  | expected
  | cgroupRoot
  | podinfoPath
  | procRoot
  | containerized
  deriving DecidableEq, Repr

namespace ValueOption

def all : List ValueOption := [.expected, .cgroupRoot, .podinfoPath, .procRoot, .containerized]

def name : ValueOption → String
  | .expected => "expect"
  | .cgroupRoot => "cgroup-root"
  | .podinfoPath => "kdapi-path"
  | .procRoot => "proc-root"
  | .containerized => "containerized"

def ofName? (name : Text) : Option ValueOption := all.find? fun o => o.name.toList == name

end ValueOption

namespace Options

def none : Options := ⟨.none, false, .none, .none, .none, .none⟩

/-- A setting that is made once. -/
def once {α : Type} (earlier value : Option α) : Except Refusal (Option α) :=
  match earlier, value with
  | .none, some v => .ok (some v)
  | _, _ => .error .usage

/-- The columns of a list with commas. -/
def columns? (t : Text) : Option Signature :=
  (t.splitOn ',').mapM fun piece => (ColumnType.ofText? piece).toOption

def boolean? (t : Text) : Option Bool :=
  if t = "true".toList then some true else if t = "false".toList then some false else .none

/-- Sets an option. Columns may be given several times and add up; any other option may not. -/
def set (options : Options) (value : Text) : ValueOption → Except Refusal Options
  | .expected =>
    match columns? value with
    | some columns => .ok { options with expected := some (options.expected.getD [] ++ columns) }
    | .none => .error .usage
  | .cgroupRoot =>
    return { options with cgroupRoot := ← once options.cgroupRoot (pathArgument? value) }
  | .podinfoPath =>
    return { options with podinfoPath := ← once options.podinfoPath (pathArgument? value) }
  | .procRoot =>
    return { options with procRoot := ← once options.procRoot (pathArgument? value) }
  | .containerized =>
    return { options with containerized := ← once options.containerized (boolean? value) }

/-- Judges the option that is still pending. -/
def settle (options : Options) : Pending ValueOption → Except Refusal Options
  | .nothing => .ok options
  | .awaiting _ => .error .usage
  | .given option value => options.set value option

/-- A configuration with the settings of the options in place of its own. -/
def apply (options : Options) (config : Config) : Config :=
  { config with
    cgroupRoot := options.cgroupRoot.getD config.cgroupRoot
    podinfoPath := options.podinfoPath.getD config.podinfoPath
    procRoot := options.procRoot.getD config.procRoot
    containerized := options.containerized.or config.containerized }

end Options

/-- What a command line asks for. -/
structure Invocation where
  options : Options
  query : Query
  deriving DecidableEq, Repr

namespace Invocation

def helpCommand : Text := "help".toList
def prettyOption : Text := "pretty".toList

/-- What follows the command `help` has to be at most one command. -/
def helpRefusal : List Text → Refusal
  | [] => .display
  | [name] =>
    if name = helpCommand ∨ (Command.ofName? name).isSome then .display else .usage
  | _ => .usage

/-- Reads options up to the name of the query. -/
def parseOptions (options : Options) (pending : Pending ValueOption) :
    List Text → Except Refusal Invocation
  | [] => .error .usage
  | arg :: rest =>
    match pending, Argument.ofText arg with
    | .awaiting option, .plain value => parseOptions options (.given option value) rest
    | .awaiting _, _ => .error .usage
    | _, .endOfOptions => .error .usage
    | _, .plain name =>
      if name = helpCommand then .error (helpRefusal rest)
      else match Command.ofName? name with
        | none => .error .usage
        | some command => do
          let query ← command.parse rest
          return ⟨← options.settle pending, query⟩
    | _, .short letter _ => do
      if Argument.asksInShort letter then
        let _ ← options.settle pending
        .error .display
      else .error .usage
    | _, .long name (some value) =>
      match ValueOption.ofName? name with
      | none => .error .usage
      | some option => do
        parseOptions (← (← options.settle pending).set value option) .nothing rest
    | _, .long name none => do
      let settled ← options.settle pending
      match ValueOption.ofName? name with
      | some option => parseOptions settled (.awaiting option) rest
      | none =>
        if name = prettyOption ∧ settled.pretty = false then
          parseOptions { settled with pretty := true } .nothing rest
        else .error (if Argument.asksInLong name then .display else .usage)

/-- The invocation of a command line without the name of the program. -/
def parse (args : List Text) : Except Refusal Invocation :=
  parseOptions Options.none .nothing args

end Invocation

end HostTables
