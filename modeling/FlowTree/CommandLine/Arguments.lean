import FlowTree.CommandLine.Variable
import FlowTree.Text.Decimal

/-! The arguments of the command line.

Each command has a level of its own: options with values, flags, and arguments by place. An option
is written `--name value` or `--name=value`, and everything after `--` stands for itself. -/

set_option autoImplicit false

namespace FlowTree.CommandLine

/-- The arguments that a command takes before the next command. -/
structure Level where
  commands : List String := []
  /-- Options with a value, and whether they may be given several times. -/
  options : List (String × Bool) := []
  flags : List String := []
  /-- The greatest number of arguments by place, if there is one. -/
  places : Option Nat := some 0

structure Given where
  /-- Options in their order. -/
  options : List (String × String) := []
  flags : List String := []
  /-- Arguments by place. -/
  values : List String := []
  /-- The next command, with the arguments after it. -/
  command : Option (String × List String) := none

namespace Level

def longOption? (arg : String) : Option (String × Option String) :=
  match arg.toList with
  | '-' :: '-' :: body =>
    match splitAtEquals? body with
    | some (name, value) => some (String.ofList name, some (String.ofList value))
    | none => some (String.ofList body, none)
  | _ => none

/-- Whether an argument cannot be a value. A single hyphen is a value. -/
def looksLikeOption (arg : String) : Bool :=
  arg.startsWith "-" && arg ≠ "-"

def addOption (level : Level) (given : Given) (name value : String) : Option Given :=
  match level.options.lookup name with
  | none => none
  | some repeatable =>
    if !repeatable && (given.options.lookup name).isSome then none
    else some { given with options := given.options ++ [(name, value)] }

def addFlag (level : Level) (given : Given) (name : String) : Option Given :=
  if level.flags.contains name && !given.flags.contains name then
    some { given with flags := name :: given.flags }
  else none

def addValue (level : Level) (given : Given) (value : String) : Option Given :=
  if level.places.all (given.values.length < ·) then
    some { given with values := given.values ++ [value] }
  else none

/-- Reads arguments up to the next command. After `--` all arguments are values. -/
def parse (level : Level) (literal : Bool) (given : Given) (args : List String) : Option Given :=
  match args with
  | [] => some given
  | arg :: rest =>
    if literal then do
      let given ← level.addValue given arg
      level.parse true given rest
    else if level.commands.contains arg then some { given with command := some (arg, rest) }
    else if arg = "--" then level.parse true given rest
    else match longOption? arg with
      | some (name, some value) => do
        let given ← level.addOption given name value
        level.parse false given rest
      | some (name, none) =>
        match _rest : rest with
        | value :: others =>
          if (level.options.lookup name).isNone then do
            let given ← level.addFlag given name
            level.parse false given rest
          -- A value that looks like an option has to be attached to its option.
          else if looksLikeOption value then none
          else do
            let given ← level.addOption given name value
            level.parse false given others
        | [] => level.addFlag given name
      | none =>
        if looksLikeOption arg then none
        else do
          let given ← level.addValue given arg
          level.parse false given rest
termination_by args.length
decreasing_by all_goals simp_all only [List.length_cons]; omega

end Level

inductive Command where
  /-- No command was given. -/
  | hint
  | listUnits
  | validate (file : String)
  | runWorkflow (file : String) (assigned : List (String × String))
      (aggregate printBindings : Bool)
  | runUnit (name : String) (inputs : List String)
  deriving DecidableEq

namespace Command

def file? : Command → Option String
  | validate file | runWorkflow file .. => some file
  | _ => none

def takesInput : Command → Bool
  | runWorkflow .. => true
  | _ => false

end Command

/-- A command, and the timeout of calls in milliseconds if it was given. -/
structure Request where
  timeoutMs : Option UInt64 := none
  command : Command
  deriving DecidableEq

namespace Request

def timeoutOption : String := "timeout-ms"

def timeoutOf (given : Given) (before : Option UInt64) : Option (Option UInt64) :=
  match given.options.lookup timeoutOption with
  | none => some before
  | some value => (Text.word? value.toList).map fun ms => some (UInt64.ofNat ms)

def variablesOf (given : Given) : Option (List (String × String)) :=
  (given.options.filter (·.1 = "var")).mapM fun (_, raw) => (parseVariable raw).toOption

/-- The level of a command. The timeout may be given at each of them. -/
def level (commands : List String) (places : Option Nat) (options : List (String × Bool) := [])
    (flags : List String := []) : Level where
  commands
  options := (timeoutOption, false) :: options
  flags
  places

def fileOf (given : Given) : Option String :=
  match given.values with
  | [file] => if file = "" then none else some file
  | _ => none

def parse (args : List String) : Option Request := do
  let given ← (level ["run", "validate", "units"] (some 0)).parse false {} args
  let timeoutMs ← timeoutOf given none
  match given.command with
  | some ("units", args) =>
    let given ← (level [] (some 0)).parse false {} args
    return { timeoutMs := ← timeoutOf given timeoutMs, command := .listUnits }
  | some ("validate", args) =>
    let given ← (level [] (some 1)).parse false {} args
    return { timeoutMs := ← timeoutOf given timeoutMs, command := .validate (← fileOf given) }
  | some (_, args) =>
    let given ← (level ["workflow", "unit"] (some 0)).parse false {} args
    let timeoutMs ← timeoutOf given timeoutMs
    match given.command with
    | some ("workflow", args) =>
      let level := level [] (some 1) [("var", true)] ["aggregate-failures", "print-bindings"]
      let given ← level.parse false {} args
      let command := Command.runWorkflow (← fileOf given) (← variablesOf given)
        (given.flags.contains "aggregate-failures") (given.flags.contains "print-bindings")
      return { timeoutMs := ← timeoutOf given timeoutMs, command }
    | some (_, args) =>
      let given ← (level [] none).parse false {} args
      match given.values with
      | [] => none
      | name :: inputs =>
        return { timeoutMs := ← timeoutOf given timeoutMs, command := .runUnit name inputs }
    | none => none
  | none => return { timeoutMs, command := .hint }

end Request

end FlowTree.CommandLine
