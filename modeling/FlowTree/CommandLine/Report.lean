import FlowTree.Authored.Loading
import FlowTree.Authored.Resolution
import FlowTree.CommandLine.Arguments
import FlowTree.Registry
import FlowTree.Run.Schedule
import FlowTree.Statement.Json

/-! What the command line answers: its two outputs and its exit code. -/

set_option autoImplicit false

namespace FlowTree.CommandLine

/-- Why a command fails, and what is behind that, outermost first. -/
structure Trouble where
  context : String
  causes : List String := []

namespace Trouble

def indented (margin : String) (text : String) : String :=
  String.ofList (text.toList.flatMap fun c => if c = '\n' then '\n' :: margin.toList else [c])

def numbered (index : Nat) : String :=
  let digits := Text.decimal index
  String.ofList (List.replicate (5 - digits.length) ' ') ++ digits ++ ": "

def numberedCauses (index : Nat) : List String → String
  | [] => ""
  | cause :: rest =>
    "\n" ++ numbered index ++ indented "       " cause ++ numberedCauses (index + 1) rest

def causesText : List String → String
  | [] => ""
  | [cause] => "\n\nCaused by:\n    " ++ indented "    " cause
  | causes => "\n\nCaused by:" ++ numberedCauses 0 causes

def text (trouble : Trouble) : String :=
  "Error: " ++ trouble.context ++ causesText trouble.causes ++ "\n"

end Trouble

structure Report where
  exit : Nat := 0
  stdout : String := ""
  stderr : String := ""
  /-- How long the command takes, in milliseconds. -/
  elapsed : Nat := 0

structure Surroundings where
  read : (path : String) → Except ReadError String
  stdin : Except ReadError String
  /-- The id of the run, if there is one. -/
  executionId : String

namespace Report

def usageCode : Nat := 2

def usage : Report where
  exit := usageCode

def failed (trouble : Trouble) (stdout stderr : String := "") (elapsed : Nat := 0) : Report where
  exit := 1
  stdout
  stderr := stderr ++ trouble.text
  elapsed

def workflow (surroundings : Surroundings) (file : String) : Except Trouble Workflow := do
  let authored ← (Authored.Workflow.load file (surroundings.read file)).mapError fun error =>
    ⟨"failed to load workflow file: " ++ file, [error.message, error.source]⟩
  authored.resolve.mapError fun offence => ⟨"failed to resolve workflow", [offence.message]⟩

def inputVariables (surroundings : Surroundings) : Except Trouble Store := do
  let text ← surroundings.stdin.mapError fun error =>
    ⟨"failed to read variables from stdin", [error.message]⟩
  if Text.blank text then return NameMap.empty
  else (Json.ofText Json.Cursor.store text).mapError fun message =>
    ⟨"failed to parse variables JSON from stdin", [message]⟩

def invocations (workflow : Workflow) : String :=
  " (" ++ Text.decimal workflow.root.invocationCount ++ " invocations)\n"

def validate (surroundings : Surroundings) (file : String) : Report :=
  match workflow surroundings file with
  | .error trouble => failed trouble
  | .ok workflow => {
    stdout := workflow.toJson.toPrettyText ++ "\n"
    stderr := "Workflow '" ++ workflow.id ++ "' is valid" ++ invocations workflow }

/-- Runs a workflow. Variables on standard input replace those of the file, and variables that are
given as arguments replace both. -/
def runWorkflow (surroundings : Surroundings) (timeout : Duration) (file : String)
    (assigned : List (String × String)) (mode : FailureMode) (printBindings : Bool) : Report :=
  match workflow surroundings file with
  | .error trouble => failed trouble
  | .ok workflow =>
    let loaded := "Loaded workflow: " ++ workflow.name ++ invocations workflow
    match inputVariables surroundings with
    | .error trouble => failed trouble "" loaded
    | .ok input =>
      let seeded := (input.laidOver workflow.seed).insertAll assigned
      let run := { workflow with seed := seeded }.run { host := .builtin, mode, timeout } {} []
      let printed := if printBindings then
          (Json.Value.ofStore run.store).toPrettyText ++ "\n"
        else ""
      match run.outcome with
      | .ok () => {
        stdout := printed
        stderr := loaded ++ "Execution completed: " ++ surroundings.executionId ++ "\n"
        elapsed := run.elapsed }
      | .error failure =>
        failed ⟨"workflow execution failed",
          failure.message :: (failure.source?.map CallError.message).toList⟩ printed loaded
          run.elapsed

def runUnit (timeout : Duration) (name : String) (inputs : List String) : Report :=
  if !Registries.builtin.contains 0 name then
    failed ⟨"unknown unit '" ++ name ++ "' (see \x60weft units\x60)", []⟩
  else
    let (registries, answer) := Registries.builtin.invoke 0 name inputs timeout
    match answer with
    | .ok output => { stdout := output ++ "\n", elapsed := registries.clock }
    | .error error =>
      failed ⟨"unit '" ++ name ++ "' failed", [error.message]⟩ "" "" registries.clock

def ofRequest (surroundings : Surroundings) (request : Request) : Report :=
  let timeout := (request.timeoutMs.map Duration.ofMillis).getD defaultTimeout
  match request.command with
  | .hint => { stdout := "weft - use --help to see available commands\n" }
  | .listUnits =>
    { stdout := String.join ((Registries.builtin.names 0).map fun name => name ++ "\n") }
  | .validate file => validate surroundings file
  | .runWorkflow file assigned aggregate printBindings =>
    let mode := if aggregate then .aggregate else .firstObserved
    runWorkflow surroundings timeout file assigned mode printBindings
  | .runUnit name inputs => runUnit timeout name inputs

def ofArguments (surroundings : Surroundings) (args : List String) : Report :=
  match Request.parse args with
  | some request => ofRequest surroundings request
  | none => usage

end Report

end FlowTree.CommandLine
