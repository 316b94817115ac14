/-
  HostTables.Query.Error — why a query has no answer.
-/
import HostTables.Cgroup.Error
import HostTables.Machine.Storage
import HostTables.Path.Filename
import HostTables.Table.Assemble

namespace HostTables

/-- What is wrong with an environment variable. -/
inductive VariableFault where
  | notUnicode
  | notInteger
  deriving DecidableEq, Repr

def VariableFault.reason : VariableFault → String
  | .notUnicode => "value is not valid unicode"
  | .notInteger => "contents not an integer"

inductive QueryError where
  | accessDenied (cause : FilenameError)
  | read (path : Path) (fault : FileFault)
  | storage (cause : StorageError)
  | table (cause : TableError)
  | schemaMismatch (expected actual : Signature)
  | missingControllerPrefix (name : Text)
  | unknownController (controller : Text)
  | badVariable (name : Text) (fault : VariableFault)
  deriving DecidableEq, Repr

namespace QueryError

def message : QueryError → String
  | .accessDenied cause => s!"access denied: {cause.message}"
  | .read path fault => fault.readMessage path
  | .storage cause => cause.message
  | .table cause => cause.message
  | .schemaMismatch expected actual =>
    s!"declared schema {expected.message} does not match produced schema {actual.message}"
  | .missingControllerPrefix name =>
    s!"missing controller prefix in cgroup filename `{Text.shown name}`"
  | .unknownController controller =>
    s!"no cgroup path known for controller `{Text.shown controller}`"
  | .badVariable name fault => s!"environment variable `{Text.shown name}`: {fault.reason}"

/-- Whether the cause is that something does not exist. -/
def isNotFound : QueryError → Bool
  | .read _ fault => fault == .notFound
  | .storage (.stat _ fault) => fault == .notFound
  | _ => false

end QueryError

end HostTables
