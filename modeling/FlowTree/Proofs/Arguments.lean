import FlowTree.CommandLine.Arguments
import FlowTree.Proofs.Json.Spelling
import FlowTree.Proofs.Results
import Mathlib.Data.List.TakeWhile

/-! Arguments as they are split and read: variables with their names before the first separator, and the
arguments that ask for the run of a workflow. -/

set_option autoImplicit false

namespace FlowTree

namespace Text

theorem valueFrom_concat (high : Nat) (cs : List Char) (c : Char) :
    valueFrom high (cs ++ [c]) = 10 * valueFrom high cs + digitValue c := by
  simp [valueFrom]

theorem value_toDigits (n : Nat) : value (Nat.toDigits 10 n) = n := by
  have digit : ∀ d, d < 10 → digitValue (Nat.digitChar d) = d := by
    have digits : ∀ d : Fin 10, digitValue (Nat.digitChar d) = d.val := by decide
    exact fun d below => digits ⟨d, below⟩
  induction n using Nat.strong_induction_on with
  | h n ih =>
    by_cases single : n < 10
    · simp [Nat.toDigits_of_lt_base single, value, valueFrom, digit n single]
    · have rest : valueFrom 0 (Nat.toDigits 10 (n / 10)) = n / 10 := ih (n / 10) (by omega)
      rw [Nat.toDigits_of_base_le (by omega) (by omega), value, valueFrom_concat, rest,
        digit (n % 10) (by omega)]
      omega

theorem word?_decimal {n : Nat} (small : n < wordBound) : word? (decimal n).toList = some n := by
  have digits : ∀ c ∈ (decimal n).toList, isDigit c = true := fun c => Json.isDigit_of_mem_decimal
  have natural : natural? (decimal n).toList = some n := by
    rw [natural?, if_pos, Json.toList_decimal, value_toDigits]
    refine ⟨?_, List.all_eq_true.2 digits⟩
    rw [Json.toList_decimal]
    exact Nat.toDigits_ne_nil
  -- The digits are not taken for a sign.
  have unsigned : ∀ rest, (decimal n).toList = '+' :: rest → False := fun rest shape =>
    absurd (digits '+' (shape ▸ List.mem_cons_self)) (by decide)
  simp only [word?, natural, small, if_true]

end Text

namespace CommandLine

section Variables

variable {cs key value : List Char} {raw : String}

theorem splitAtEquals?_eq_some :
    splitAtEquals? cs = some (key, value) ↔ cs = key ++ '=' :: value ∧ '=' ∉ key := by
  rw [splitAtEquals?]
  constructor
  · intro found
    have whole := List.prefix_iff_eq_append.1 (List.takeWhile_prefix (· ≠ '=') (l := cs))
    split at found
    · next rest =>
      obtain ⟨rfl, rfl⟩ := Prod.mk.inj (Option.some.inj found)
      rw [rest] at whole
      exact ⟨whole.symm, fun mem => by simpa using List.mem_takeWhile_imp mem⟩
    · cases found
  · rintro ⟨rfl, plain⟩
    have taken : (key ++ '=' :: value).takeWhile (· ≠ '=') = key := by
      rw [List.takeWhile_append_of_pos, List.takeWhile_cons_of_neg, List.append_nil]
      · simp
      · intro c mem
        exact decide_eq_true (ne_of_mem_of_not_mem mem plain)
    simp only [taken, List.drop_left]

theorem parseVariable_eq_ok {key value : String} :
    parseVariable raw = .ok (key, value) ↔ raw = key ++ "=" ++ value ∧ '=' ∉ key.toList ∧ key ≠ "" := by
  rw [parseVariable]
  constructor
  · intro accepted
    split at accepted
    · cases accepted
    · cases accepted
    · next first rest unnamed found =>
      obtain ⟨rfl, rfl⟩ := Prod.mk.inj (Except.ok.inj accepted)
      obtain ⟨split, plain⟩ := splitAtEquals?_eq_some.1 found
      refine ⟨String.toList_inj.1 ?_, ?_, ?_⟩
      · simp [split]
      · simpa using plain
      · rintro empty
        rw [String.ofList_eq_empty_iff] at empty
        exact unnamed empty
  · rintro ⟨rfl, plain, named⟩
    have found : splitAtEquals? (key ++ "=" ++ value).toList = some (key.toList, value.toList) :=
      splitAtEquals?_eq_some.2 ⟨by simp, plain⟩
    simp only [found]
    cases letters : key.toList with
    | nil => exact absurd (String.toList_eq_nil_iff.1 letters) named
    | cons c rest =>
      show Except.ok (String.ofList (c :: rest), String.ofList value.toList) = _
      rw [← letters, String.ofList_toList, String.ofList_toList]

/-- A text is accepted unless it has no separator, or begins with one. -/
theorem exists_parseVariable_eq_ok :
    (∃ assigned, parseVariable raw = .ok assigned) ↔ '=' ∈ raw.toList ∧ raw.toList.head? ≠ some '=' := by
  constructor
  · rintro ⟨⟨key, value⟩, accepted⟩
    obtain ⟨rfl, plain, named⟩ := parseVariable_eq_ok.1 accepted
    refine ⟨by simp, fun first => ?_⟩
    cases letters : key.toList with
    | nil => exact named (String.toList_eq_nil_iff.1 letters)
    | cons c rest =>
      obtain rfl : c = '=' := by simpa [letters] using first
      exact plain (letters ▸ List.mem_cons_self)
  · rintro ⟨mem, apart⟩
    obtain ⟨key, value, split, plain⟩ := List.eq_append_cons_of_mem mem
    refine ⟨(String.ofList key, String.ofList value), parseVariable_eq_ok.2 ⟨String.toList_inj.1 ?_, ?_, ?_⟩⟩
    · simp [split]
    · simpa using plain
    · rintro empty
      rw [String.ofList_eq_empty_iff] at empty
      simp [split, empty] at apart

end Variables

def attached (name value : String) : String := "--" ++ name ++ "=" ++ value

def runArguments (timeoutMs : Option UInt64) (raws : List String) (aggregate printBindings : Bool)
    (file : String) : List String :=
  "run" :: "workflow" ::
    ((timeoutMs.map fun ms => attached Request.timeoutOption (Text.decimal ms.toNat)).toList ++
    ((if aggregate then ["--aggregate-failures"] else []) ++
    ((if printBindings then ["--print-bindings"] else []) ++
    (raws.map (attached "var") ++ ["--", file]))))

namespace Level

variable {level : Level} {given : Given} {name value : String} {rest : List String}

theorem longOption?_attached (plain : '=' ∉ name.toList) :
    longOption? (attached name value) = some (name, some value) := by
  have letters : (attached name value).toList = '-' :: '-' :: (name.toList ++ '=' :: value.toList) := by
    simp [attached]
  rw [longOption?, letters]
  simp only [splitAtEquals?_eq_some.2 ⟨rfl, plain⟩, String.ofList_toList]

theorem parse_attached (plain : '=' ∉ name.toList) (last : level.commands = []) :
    level.parse false given (attached name value :: rest) =
      (level.addOption given name value).bind (level.parse false · rest) := by
  have other : attached name value ≠ "--" := by
    intro same
    have letters := congrArg String.toList same
    simp [attached] at letters
  rw [parse]
  simp only [last, longOption?_attached plain, other]
  rfl

theorem longOption?_bare (plain : '=' ∉ name.toList) : longOption? ("--" ++ name) = some (name, none) := by
  have letters : ("--" ++ name).toList = '-' :: '-' :: name.toList := by simp
  have unsplit : splitAtEquals? name.toList = none := by
    cases found : splitAtEquals? name.toList with
    | none => rfl
    | some parts =>
      refine absurd ?_ plain
      rw [(splitAtEquals?_eq_some.1 found).1]
      exact List.mem_append_right _ List.mem_cons_self
  rw [longOption?, letters]
  simp only [unsplit, String.ofList_toList]

theorem parse_flag (plain : '=' ∉ name.toList) (named : name ≠ "") (last : level.commands = [])
    (flag : level.options.lookup name = none) (known : level.flags.contains name = true)
    (fresh : given.flags.contains name = false) (further : rest ≠ []) :
    level.parse false given (("--" ++ name) :: rest) =
      level.parse false { given with flags := name :: given.flags } rest := by
  have other : "--" ++ name ≠ "--" := by simpa using named
  cases rest with
  | nil => exact absurd rfl further
  | cons value others =>
    rw [parse]
    simp only [last, longOption?_bare plain, other, flag, addFlag, known, fresh]
    rfl

/-- After two hyphens an argument stands for itself, whatever it looks like. -/
theorem parse_literal (last : level.commands = []) :
    level.parse false given ["--", value] = level.addValue given value := by
  rw [parse, parse, last]
  simp only [List.contains_nil, Bool.false_eq_true, if_false, if_true, Option.bind_eq_bind]
  cases level.addValue given value with
  | none => rfl
  | some given => rw [Option.bind_some, parse]

/-- Options that may be given several times are gathered in their order. -/
theorem parse_repeated (plain : '=' ∉ name.toList) (last : level.commands = [])
    (repeatable : level.options.lookup name = some true) (values : List String) :
    level.parse false given (values.map (attached name) ++ rest) =
      level.parse false { given with options := given.options ++ values.map (name, ·) } rest := by
  induction values generalizing given with
  | nil => simp
  | cons value values ih =>
    rw [List.map_cons, List.cons_append, parse_attached plain last, addOption, repeatable]
    simpa using @ih { given with options := given.options ++ [(name, value)] }

end Level

namespace Request

def runLevel : Level :=
  level [] (some 1) [("var", true)] ["aggregate-failures", "print-bindings"]

variable {file : String} {raws : List String} {assigned : List (String × String)}

def runGiven (timeoutMs : Option UInt64) (raws : List String) (aggregate printBindings : Bool) (file : String) :
    Given where
  options := (timeoutMs.map fun ms => (timeoutOption, Text.decimal ms.toNat)).toList ++ raws.map ("var", ·)
  flags := (if printBindings then ["print-bindings"] else []) ++
    (if aggregate then ["aggregate-failures"] else [])
  values := [file]

theorem parse_runLevel (timeoutMs : Option UInt64) (raws : List String) (aggregate printBindings : Bool)
    (file : String) :
    runLevel.parse false {} ((timeoutMs.map fun ms => attached timeoutOption (Text.decimal ms.toNat)).toList ++
      ((if aggregate then ["--aggregate-failures"] else []) ++
      ((if printBindings then ["--print-bindings"] else []) ++ (raws.map (attached "var") ++ ["--", file])))) =
    some (runGiven timeoutMs raws aggregate printBindings file) := by
  have timed (rest : List String) : runLevel.parse false {}
      ((timeoutMs.map fun ms => attached timeoutOption (Text.decimal ms.toNat)).toList ++ rest) =
      runLevel.parse false { options := (timeoutMs.map fun ms => (timeoutOption, Text.decimal ms.toNat)).toList }
        rest := by
    cases timeoutMs with
    | none => rfl
    | some ms => exact Level.parse_attached (by decide) rfl
  have flagged (options : List (String × String)) {rest : List String} (further : rest ≠ []) :
      runLevel.parse false { options } ((if aggregate then ["--aggregate-failures"] else []) ++
        ((if printBindings then ["--print-bindings"] else []) ++ rest)) =
      runLevel.parse false { options, flags := (if printBindings then ["print-bindings"] else []) ++
        (if aggregate then ["aggregate-failures"] else []) } rest := by
    have aggregates {rest : List String} (further : rest ≠ []) :
        runLevel.parse false { options } ("--aggregate-failures" :: rest) =
          runLevel.parse false { options, flags := ["aggregate-failures"] } rest :=
      @Level.parse_flag _ _ "aggregate-failures" _ (by decide) (by decide) rfl rfl rfl rfl further
    have prints {flags : List String} (fresh : flags.contains "print-bindings" = false) {rest : List String}
        (further : rest ≠ []) : runLevel.parse false { options, flags } ("--print-bindings" :: rest) =
          runLevel.parse false { options, flags := "print-bindings" :: flags } rest :=
      @Level.parse_flag _ _ "print-bindings" _ (by decide) (by decide) rfl rfl rfl fresh further
    cases aggregate <;> cases printBindings
    · rfl
    · exact prints rfl further
    · exact aggregates further
    · exact (aggregates (by simp)).trans (prints rfl further)
  rw [timed, flagged _ (by simp), Level.parse_repeated (by decide) rfl rfl, Level.parse_literal rfl]
  rfl

theorem parse_runArguments (named : file ≠ "") (accepted : raws.mapM parseVariable = .ok assigned)
    (timeoutMs : Option UInt64) (aggregate printBindings : Bool) :
    parse (runArguments timeoutMs raws aggregate printBindings file) =
      some ⟨timeoutMs, .runWorkflow file assigned aggregate printBindings⟩ := by
  have outer (rest : List String) :
      (level ["run", "validate", "units"] (some 0)).parse false {} ("run" :: rest) =
        some { command := some ("run", rest) } := by
    rw [Level.parse]
    rfl
  have inner (rest : List String) :
      (level ["workflow", "unit"] (some 0)).parse false {} ("workflow" :: rest) =
        some { command := some ("workflow", rest) } := by
    rw [Level.parse]
    rfl
  have parsed := parse_runLevel timeoutMs raws aggregate printBindings file
  have untimed (command : Option (String × List String)) : timeoutOf { command } none = some none := rfl
  have timeout : timeoutOf (runGiven timeoutMs raws aggregate printBindings file) none = some timeoutMs := by
    cases timeoutMs with
    | none =>
      have unset : (raws.map ("var", ·)).lookup timeoutOption = none := by
        rw [List.lookup_eq_none_iff]
        intro entry mem
        obtain ⟨raw, -, rfl⟩ := List.mem_map.1 mem
        rfl
      simp [timeoutOf, runGiven, unset]
    | some ms => simp [timeoutOf, runGiven, Text.word?_decimal ms.toNat_lt]
  have gathered : variablesOf (runGiven timeoutMs raws aggregate printBindings file) = some assigned := by
    have options : (runGiven timeoutMs raws aggregate printBindings file).options.filter (·.1 = "var") =
        raws.map ("var", ·) := by
      cases timeoutMs <;> simp [runGiven, timeoutOption]
    have each : List.Forall₂ (fun (raw : String) (option : String × String) => option.2 = raw) raws
        (raws.map ("var", ·)) := by
      rw [List.forall₂_map_right_iff]
      exact List.forall₂_same.2 fun _ _ => rfl
    have taken := @toOption_mapM _ _ _ _ _ parseVariable (fun option => (parseVariable option.2).toOption) _ _
      each fun raw option same => same ▸ rfl
    rw [accepted] at taken
    rw [variablesOf, options]
    exact taken.symm
  have place : fileOf (runGiven timeoutMs raws aggregate printBindings file) = some file := by
    simp [fileOf, runGiven, named]
  have flag : (runGiven timeoutMs raws aggregate printBindings file).flags.contains "aggregate-failures" =
      aggregate := by
    cases aggregate <;> cases printBindings <;> rfl
  have flag' : (runGiven timeoutMs raws aggregate printBindings file).flags.contains "print-bindings" =
      printBindings := by
    cases aggregate <;> cases printBindings <;> rfl
  rw [runLevel] at parsed
  simp [-List.contains_eq_mem, parse, runArguments, outer, inner, untimed, parsed, place, gathered, timeout,
    flag, flag']

end Request

end CommandLine

end FlowTree
