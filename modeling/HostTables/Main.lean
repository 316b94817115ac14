/-
  HostTables.Main — the command line.

  The files that a run needs are observed first, path by path, into a tree; the run itself is
  then the pure `Program.answer`. The answer goes to standard output, errors that were logged
  and the reason of a failure to standard error.
-/
import HostTables.Footprint

namespace HostTables.Observe

/-- The location a path leads to with all links followed, none if it leads nowhere. -/
def canonical? (path : Path) : IO (Option Location) := do
  try
    let real ← IO.FS.realPath path.shown
    return some (Text.fields '/' (toString real).toList)
  catch _ => return none

/-- Whether there is a directory at a location. -/
def isDirectory (location : Location) : IO Bool := do
  return (← canonical? (location.path.join ['.'])).isSome

/-- Why a file cannot be read. -/
def faultOf : IO.Error → FileFault
  | .noFileOrDirectory .. => .notFound
  | .permissionDenied _ code details => .system code.toNat details
  | .inappropriateType _ code details => .system code.toNat details
  | .otherError code details => .system code.toNat details
  | error => .system 5 (toString error)

/-- Puts the directories that lead to a location into a tree. -/
def withParents (tree : FileTree) (location : Location) : FileTree :=
  (List.range (location.length - 1)).foldl
    (fun tree n => tree.insert (location.take (n + 1)) .directory) tree

/-- Puts what is at a location with all links followed into a tree, without its content. -/
def withPlace (tree : FileTree) (location : Location) : IO FileTree := do
  let tree := withParents tree location
  if (tree.entry? location).isSome then return tree
  else if ← isDirectory location then return tree.insert location .directory
  else return tree.insert location (.file [])

/-- Takes the steps of a path from a location and puts what is met into a tree. -/
def alongSteps (tree : FileTree) (here : Location) : List Text → IO (FileTree × Option Location)
  | [] => return (tree, some here)
  | name :: rest => do
    if name = ['.'] then alongSteps tree here rest
    else if name = ['.', '.'] then alongSteps tree here.dropLast rest
    else
      let next := here ++ [name]
      match ← canonical? next.path with
      | none => return (tree, none)
      | some place =>
        let linked := if place = next then tree else tree.insert next (.link place.path.text)
        alongSteps (← withPlace linked place) place rest

/-- Puts the places on a path into a tree; also gives the location where it ends. -/
def place (tree : FileTree) (path : Path) : IO (FileTree × Option Location) := do
  if path.text = [] ∨ '\x00' ∈ path.text then return (tree, none)
  else
    alongSteps tree (FileTree.startOf path.text tree.workingDirectory)
      (FileTree.stepsOf path.text)

/-- What reading the file at a location gives. -/
def readEntry (location : Location) : IO Entry := do
  try
    return .file (← IO.FS.readBinFile location.path.shown).toList
  catch error => return .unreadable (faultOf error)

/-- Puts the content at the end of a path into a tree. -/
def content (tree : FileTree) (path : Path) : IO FileTree := do
  let (tree, found) ← place tree path
  match found with
  | none => return tree
  | some location =>
    if tree.entry? location = some .directory then return tree
    else return tree.insert location (← readEntry location)

/-- Puts what is needed of a path into a tree. -/
def need (tree : FileTree) : Need → IO FileTree
  | .place path => do return (← place tree path).1
  | .content path => content tree path

/-- The settings of the variables that are set. -/
def environment (names : List Text) : IO (List Setting) := do
  let mut settings := []
  for name in names do
    if let some value ← IO.getEnv (Text.shown name) then
      settings := settings ++ [Setting.ofPair name (Utf8.encode value.toList)]
  return settings

/-- The machine as far as a run needs to know it. -/
def machineFor (invocation : Invocation) : IO Machine := do
  let workingDirectory := (← canonical? (Path.ofString ".")).getD []
  let settings ← environment (Footprint.variableNames invocation.query)
  let mut tree ← withPlace { FileTree.empty with workingDirectory } workingDirectory
  let mut known : List Need := []
  for _ in List.range Footprint.rounds do
    for wanted in Footprint.needs (Machine.ofFiles tree settings) invocation do
      if !known.contains wanted then
        known := wanted :: known
        tree ← need tree wanted
  return Machine.ofFiles tree settings

end HostTables.Observe

namespace HostTables

/-- How the program is called. -/
def usage : String :=
  "usage: [--expect TYPES] [--pretty] [--cgroup-root PATH] [--kdapi-path PATH]\n" ++
  "       [--proc-root PATH] [--containerized true|false] QUERY [ARGUMENT]\n\nqueries:\n" ++
  String.join (Command.all.map fun (name, _) => "  " ++ name ++ "\n")

end HostTables

open HostTables in
/-- Answers the query of a command line. The exit code is 0 for an answer and for help, 1 for a
query that fails, and 2 for arguments that are not understood. -/
def main (args : List String) : IO UInt32 := do
  match Invocation.parse (args.map String.toList) with
  | .error .usage =>
    IO.eprint usage
    return 2
  | .error .display =>
    IO.print usage
    return 0
  | .ok invocation =>
    let (printed, notices) := Program.answer (← Observe.machineFor invocation) invocation
    for notice in notices do
      if notice.severity = .error then IO.eprintln notice.line
    match printed with
    | .ok text =>
      IO.print (Text.shown text)
      return 0
    | .error cause =>
      IO.eprintln s!"Error: {cause.message}"
      return 1
