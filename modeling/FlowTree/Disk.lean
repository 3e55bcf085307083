import FlowTree.Text.Decimal

/-! Files and directories, and how the text at a path is found. -/

set_option autoImplicit false

namespace FlowTree

inductive ReadError where
  | missing
  | notDirectory
  | isDirectory
  | nameTooLong
  | nulInName
  | notUnicode
  /-- Another reason, in the words of the system. -/
  | other (message : String)
  deriving DecidableEq

def ReadError.message : ReadError → String
  | .missing => "No such file or directory (os error 2)"
  | .notDirectory => "Not a directory (os error 20)"
  | .isDirectory => "Is a directory (os error 21)"
  | .nameTooLong => "File name too long (os error 36)"
  | .nulInName => "file name contained an unexpected NUL byte"
  | .notUnicode => "stream did not contain valid UTF-8"
  | .other message => message

def ReadError.ofSystem (code : Nat) (words : String) : ReadError :=
  if code = 2 then .missing
  else if code = 13 then .other "Permission denied (os error 13)"
  else if code = 20 then .notDirectory
  else if code = 21 then .isDirectory
  else if code = 36 then .nameTooLong
  else .other (words ++ " (os error " ++ Text.decimal code ++ ")")

def decodeText (bytes : ByteArray) : Except ReadError String :=
  match String.fromUTF8? bytes with
  | some text => .ok text
  | none => .error .notUnicode

inductive DiskEntry where
  | file (content : ByteArray)
  | directory (entries : List (String × DiskEntry))

namespace DiskEntry

def nameLimit : Nat := 255

def pathLimit : Nat := 4096

/-- The entry with a directory under a name made one that holds the rest of the path as well. -/
def add (entry : DiskEntry) (content : DiskEntry) : (path : List String) → DiskEntry
  | [] => content
  | name :: rest =>
    let entries := match entry with
      | .directory entries => entries
      | .file _ => []
    let inner := (entries.lookup name).getD (.directory [])
    .directory ((name, inner.add content rest) :: entries.filter (·.1 ≠ name))

/-- Follows the names of a path from a directory; `around` are the directories around it, of which
nothing is known beyond the last one. -/
def follow (around : List DiskEntry) (here : DiskEntry) : List String → Except ReadError DiskEntry
  | [] => .ok here
  | name :: rest =>
    match here with
    | .file _ => .error .notDirectory
    | .directory entries =>
      if name = "" || name = "." then follow around here rest
      else if name = ".." then
        match around with
        -- What lies outside is not known, so nothing is found in it.
        | [] => follow [] (.directory []) rest
        | parent :: around => follow around parent rest
      else if name.utf8ByteSize > nameLimit then .error .nameTooLong
      else match entries.lookup name with
        | some inner => follow (here :: around) inner rest
        | none => .error .missing

def read (here : DiskEntry) (path : String) : Except ReadError String := do
  if path = "" then throw .missing
  if path.toList.contains '\x00' then throw .nulInName
  if path.utf8ByteSize ≥ pathLimit then throw .nameTooLong
  let names := (path.splitOn "/")
  let start := if names.head? = some "" then .directory [] else here
  match ← follow [] start names with
  | .directory _ => throw .isDirectory
  | .file content => decodeText content

end DiskEntry

end FlowTree
