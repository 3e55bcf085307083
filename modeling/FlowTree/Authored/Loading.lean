import FlowTree.Authored.Json
import FlowTree.Authored.Yaml
import FlowTree.Disk

/-! Loading authored workflows. A file whose name ends in `.json`, in any case, holds JSON, and every
other file YAML. -/

set_option autoImplicit false

namespace FlowTree.Authored

inductive LoadError where
  | unreadable (path : String) (error : ReadError)
  | json (message : String)
  | yaml (message : String)
  deriving DecidableEq

namespace LoadError

def source : LoadError → String
  | unreadable _ error => error.message
  | json message | yaml message => message

def message : LoadError → String
  | unreadable path error =>
    "failed to read workflow definition " ++ path ++ ": " ++ error.message
  | json message => "invalid JSON workflow definition: " ++ message
  | yaml message => "invalid YAML workflow definition: " ++ message

end LoadError

inductive FileFormat where
  | json | yaml
  deriving DecidableEq

namespace FileFormat

/-- The part of a file's name after its last point. A point at the start of the name does not count,
and a name without one has no extension. -/
def extension? (path : String) : Option (List Char) :=
  let name := path.toList.reverse.takeWhile (· ≠ '/')
  let ending := name.takeWhile (· ≠ '.')
  if name.length ≤ ending.length + 1 then none else some ending.reverse

def ofPath (path : String) : FileFormat :=
  if (extension? path).map (·.map Char.toLower) = some ['j', 's', 'o', 'n'] then .json else .yaml

def load (format : FileFormat) (text : String) : Except LoadError Workflow :=
  match format with
  | .json => (Workflow.ofJson text).mapError .json
  | .yaml => (Workflow.ofYaml text).mapError .yaml

end FileFormat

/-- Loads the workflow at a path, whose text has been read or not. -/
def Workflow.load (path : String) (text : Except ReadError String) : Except LoadError Workflow := do
  let text ← text.mapError (.unreadable path)
  (FileFormat.ofPath path).load text

end FlowTree.Authored
