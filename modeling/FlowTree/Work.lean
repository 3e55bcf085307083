import FlowTree.Failure
import FlowTree.Text.Blank
import FlowTree.Text.Letters

/-! Units of work. What a unit does in one call is a script: it waits, it may cancel the run it is
called from, and it ends the call with an answer. -/

set_option autoImplicit false

namespace FlowTree

inductive Step where
  /-- Waits, unless the time is zero. -/
  | delay (ms : Nat)
  /-- Cancels the caller's token and goes on. -/
  | cancel
  | give (output : String)
  /-- Gives the name and the inputs of the call. -/
  | echo
  | fail (message : String)
  | timeout (after : Duration)
  | notRegistered (name : String)
  deriving DecidableEq

abbrev Script := List Step

inductive Standing where
  /-- It waits for a positive time, with these steps to come. -/
  | asleep (ms : Nat) (rest : Script)
  | answered (answer : Answer)

def echoText (name : String) (inputs : List String) : String :=
  name ++ "(" ++ String.intercalate "," inputs ++ ")"

/-- Lets a script go on until it waits or ends, and tells whether it cancels the caller's token on
the way. A script without an ending step gives the empty text. -/
def Script.goOn (echo : String) : Script → Bool × Standing
  | [] => (false, .answered (.ok ""))
  | .delay ms :: rest => if ms = 0 then Script.goOn echo rest else (false, .asleep ms rest)
  | .cancel :: rest => (true, (Script.goOn echo rest).2)
  | .give output :: _ => (false, .answered (.ok output))
  | .echo :: _ => (false, .answered (.ok echo))
  | .fail message :: _ => (false, .answered (.error (.failed message)))
  | .timeout after :: _ => (false, .answered (.error (.timeout after)))
  | .notRegistered name :: _ => (false, .answered (.error (.notRegistered name)))

inductive Builtin where
  | concat | count | echo | fail | lower | reverse | sleep | upper
  deriving DecidableEq

namespace Builtin

def all : List Builtin := [.concat, .count, .echo, .fail, .lower, .reverse, .sleep, .upper]

def name : Builtin → String
  | .concat => "concat"
  | .count => "count"
  | .echo => "echo"
  | .fail => "fail"
  | .lower => "lower"
  | .reverse => "reverse"
  | .sleep => "sleep"
  | .upper => "upper"

def joined (inputs : List String) : String := String.intercalate " " inputs

def sleepScript (inputs : List String) : Script :=
  let raw := Text.trim (inputs.headD "")
  match Text.word? raw.toList with
  | some ms => [.delay ms, .give (Text.decimal ms)]
  | none => [.fail ("sleep expects milliseconds, got '" ++ raw ++ "'")]

def script (unit : Builtin) (inputs : List String) : Script :=
  match unit with
  | .concat => [.give (String.join inputs)]
  | .count => [.give (Text.decimal (inputs.filter (· ≠ "")).length)]
  | .echo => [.give (joined inputs)]
  | .fail => [.fail (if inputs.all (· = "") then "failed on request" else joined inputs)]
  | .lower => [.give (Text.lower (joined inputs))]
  | .reverse => [.give (String.ofList (joined inputs).toList.reverse)]
  | .sleep => sleepScript inputs
  | .upper => [.give (Text.upper (joined inputs))]

end Builtin

inductive Work where
  /-- One script per call; the last one repeats. -/
  | scripted (scripts : List Script)
  | builtin (unit : Builtin)
  deriving DecidableEq

def Work.script (work : Work) (earlier : Nat) (inputs : List String) : Script :=
  match work with
  | .scripted scripts => (scripts[earlier]?).getD (scripts.getLastD [])
  | .builtin unit => unit.script inputs

/-- What calls go to: units by name, and whether calls end at their timeout. -/
structure Host where
  units : List (String × Work)
  enforcesTimeouts : Bool

namespace Host

def find? (host : Host) (name : String) : Option Work := host.units.lookup name

def builtin : Host where
  units := Builtin.all.map fun unit => (unit.name, .builtin unit)
  enforcesTimeouts := true

end Host

end FlowTree
