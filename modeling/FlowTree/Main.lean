import FlowTree.CommandLine.Report
import FlowTree.ExecutionId

/-! The program: it reads what its command needs, waits as long as the command takes, and prints the
report. -/

set_option autoImplicit false

namespace FlowTree

/-- Why the system reads nothing. A code may come with its sign turned. -/
def readErrorOf (error : IO.Error) : ReadError :=
  let system (code : UInt32) (words : String) : ReadError :=
    .ofSystem code.toInt32.toInt.natAbs words
  match error with
  | .alreadyExists _ code words | .invalidArgument _ code words | .permissionDenied _ code words
  | .resourceExhausted _ code words | .inappropriateType _ code words
  | .noSuchThing _ code words => system code words
  | .otherError code words | .resourceBusy code words | .resourceVanished code words
  | .unsupportedOperation code words | .hardwareFault code words
  | .unsatisfiedConstraints code words | .illegalOperation code words
  | .protocolError code words | .timeExpired code words => system code words
  | .interrupted _ code words | .noFileOrDirectory _ code words => system code words
  | .unexpectedEof => .other "unexpected end of file"
  | .userError words => .other words

def readText (read : IO ByteArray) : IO (Except ReadError String) := do
  match ← read.toBaseIO with
  | .ok bytes => return decodeText bytes
  | .error error => return .error (readErrorOf error)

/-- All bytes of a stream, after those that have been read. -/
partial def readToEnd (stream : IO.FS.Stream) (bytes : ByteArray) : IO ByteArray := do
  let more ← stream.read 65536
  if more.isEmpty then return bytes else readToEnd stream (bytes ++ more)

def readStdin : IO (Except ReadError String) := do
  let stdin ← IO.getStdin
  if ← stdin.isTty then return .ok "" else readText (readToEnd stdin .empty)

def waitMillis (duration : Nat) : IO Unit := do
  let longest := 4294967295
  for _ in List.range (duration / longest) do
    IO.sleep (UInt32.ofNat longest)
  IO.sleep (UInt32.ofNat (duration % longest))

def surroundingsOf (command : CommandLine.Command) : IO CommandLine.Surroundings := do
  let content ← match command.file? with
    | some path => readText (IO.FS.readBinFile path)
    | none => pure (.error .missing)
  let stdin ← if command.takesInput then readStdin else pure (.ok "")
  let executionId := ExecutionId.ofRandom (← IO.getRandomBytes 16).toList
  return { read := fun _ => content, stdin, executionId }

def reportOn (args : List String) : IO CommandLine.Report :=
  match CommandLine.Request.parse args with
  | none => return .usage
  | some request => return .ofRequest (← surroundingsOf request.command) request

end FlowTree

def main (args : List String) : IO UInt32 := do
  let report ← FlowTree.reportOn args
  FlowTree.waitMillis report.elapsed
  IO.print report.stdout
  IO.eprint report.stderr
  return UInt32.ofNat report.exit
