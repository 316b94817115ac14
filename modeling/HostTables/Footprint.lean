/-
  HostTables.Footprint — what a run has to know of its machine.

  A run looks up some environment variables and some paths. Which paths these are depends on
  what files say: `self/cgroup` leads to cgroup directories, and a list of children to the
  files of each. `needs` lists what is needed as far as the files known so far can tell, so
  who observes a machine repeats it until nothing is new; `rounds` repetitions are enough.
-/
import HostTables.Machine.Observed
import HostTables.Program

namespace HostTables

/-- What has to be known of a path: where it leads, or the content found there as well. -/
inductive Need where
  | place (path : Path)
  | content (path : Path)
  deriving DecidableEq, Repr

namespace Footprint

/-! ## Variables -/

/-- The variables that a run looks up. -/
def variableNames (query : Query) : List Text :=
  [Config.cgroupEnabledVariable, Config.cgroupRootVariable, Config.containerizedVariable,
    Config.podinfoEnabledVariable, Config.podinfoPathVariable,
    Config.procRootVariable].map String.toList ++
  match query with
  | .variableText name | .variableBigint name => [name]
  | _ => []

/-! ## Paths -/

/-- Where the facts about this process and the names of users stand. -/
def ofMachine : List Need :=
  [.content Machine.ownStatusFile, .content Machine.userTableFile]

/-- The cgroup directories that the memberships of this process lead to. -/
def ofMemberships (files : FileTree) (config : Config) : List Need :=
  match Cgroup.survey files config.procRoot config.cgroupRoot with
  | .error _ => []
  | .ok (mode, members) =>
    let own := Cgroup.ownDirectory? config.cgroupRoot mode members
    let containerized := (Cgroup.inContainer files config.containerized own).1
    let controllers := (Membership.unified? members).map fun m =>
      (PathTable.unifiedDirectory config.cgroupRoot m.path containerized).join
        PathTable.controllersFile
    own.toList.map Need.place ++ controllers.toList.map Need.content

/-- What setting up a context needs. -/
def ofConfig (files : FileTree) (config : Config) : List Need :=
  [.place config.cgroupRoot, .place config.podinfoPath, .place config.procRoot,
   .content (config.procRoot.join Cgroup.mountTableFile),
   .content (config.procRoot.join Cgroup.membershipFile)] ++ ofMemberships files config

/-- A file under a directory: its place first, and its content once it is known to lie inside. -/
def ofConfined (files : FileTree) (directory : Path) (name : Text) : List Need :=
  if (checkFilename name).isOk then
    let path := directory.join name
    [.place directory, .place path] ++
    match files.locate path, files.resolveUnder directory name with
    | .ok _, .ok path => [.content path]
    | _, _ => []
  else []

/-- A cgroup file by its name. -/
def ofCgroupFile (files : FileTree) (context : Context) (name : Text) : List Need :=
  match (Text.splitOnce? '.' name).bind fun (controller, _) =>
    context.cgroup.paths.get? controller with
  | some directory => ofConfined files directory name
  | none => []

/-- The files of one child. -/
def ofChild (procRoot : Path) (facet : ProcessFacet) (pid : Text) : List Need :=
  match facet with
  | .io => [.content (ChildProcess.ioPath procRoot pid)]
  | .stat => [.content (ChildProcess.statPath procRoot pid)]
  | .commandLine =>
    [.content (ChildProcess.commandLinePath procRoot pid),
     .content ((ChildProcess.directory procRoot pid).join "status".toList)]

/-- The list of a process's children and the files of each. -/
def ofChildren (machine : Machine) (procRoot : Path) (facet : ProcessFacet) (parent : Nat) :
    List Need :=
  let path := ChildProcess.childrenPath procRoot parent
  let children := Format.ProcessFile.children (Machine.textOrNothing machine.files path)
  .content path :: children.flatMap (ofChild procRoot facet)

/-- What answering a query needs beyond its context. -/
def ofQuery (machine : Machine) (context : Context) : Query → List Need
  | .cgroupProcessCount => ofCgroupFile machine.files context CgroupState.processesFile
  | .cgroupFile _ name => ofCgroupFile machine.files context name
  | .podinfoFile _ name => ofConfined machine.files context.podinfoPath name
  | .procFile file => [.content (context.procRoot.join file.relativePath)]
  | .children facet parent =>
    ofChildren machine context.procRoot facet ((parent.map UInt32.toNat).getD machine.parentPid)
  | .fileSystem path => [.place path]
  | .cgroupMode | .cgroupPaths | .variableText _ | .variableBigint _ | .pagesToBytes _ => []

/-- What a run needs, as far as the files of the machine tell. -/
def needs (machine : Machine) (invocation : Invocation) : List Need :=
  let config := (Program.configure machine invocation.options).1
  let context := (Context.ofConfig machine.files config).1
  ofMachine ++ ofConfig machine.files config ++ ofQuery machine context invocation.query

/-- Memberships lead to a directory, its list of controllers to a file, and the place of that
file to its content; a list of children leads to files. -/
def rounds : Nat := 5

end Footprint

end HostTables
