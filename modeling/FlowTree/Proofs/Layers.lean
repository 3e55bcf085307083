import FlowTree.CommandLine.Report
import FlowTree.Proofs.Arguments
import FlowTree.Proofs.ByteOrder
import FlowTree.Proofs.Definitions
import FlowTree.Proofs.Json.Forms

/-! Running a workflow from the command line. Variables of the file, of the standard input and of the
arguments are laid over each other, and the store is printed whatever the run ends with. -/

set_option autoImplicit false

namespace FlowTree

def Json.Tree.texts (entries : List (String × String)) : Tree :=
  .object (entries.map fun (name, value) => (some name, .text (some value)))

theorem Json.Place.store_texts (entries : List (String × String)) :
    Place.store ⟨128, .texts entries⟩ = some (NameMap.ofList entries) := by
  have taken (depth : Nat) :
      (entries.map fun entry => (some entry.1, Tree.text (some entry.2))).mapM
        (fun field => do return (← field.1, ← Place.text ⟨depth, field.2⟩)) = some entries := by
    induction entries with
    | nil => rfl
    | cons entry rest ih => rw [List.map_cons, List.mapM_cons, ih]; rfl
  exact congrArg (· >>= fun entries => some (NameMap.ofList entries)) (taken 127)

theorem Json.Value.tree_entries (entries : List (String × String)) :
    (Value.object (entries.map fun (name, value) => (name, .text value))).tree = .texts entries := by
  rw [tree, Tree.texts]
  congr 1
  induction entries with
  | nil => rfl
  | cons entry rest ih => rw [List.map_cons, memberTrees, ih]; rfl

theorem Json.Spells.openObject {text : List Char} {signs : List Sign}
    (spells : Spells text (.openObject :: signs)) : '{' ∈ text := by
  generalize same : Sign.openObject :: signs = all at spells
  induction spells with
  | nil => nomatch same
  | blank _ _ ih => exact List.mem_cons_of_mem _ (ih same)
  | word lexeme =>
    obtain ⟨rfl, -⟩ := List.cons.inj same
    cases lexeme
    exact List.mem_cons_self

namespace CommandLine

/-- The texts on standard input that stand for some entries. -/
inductive InputText : String → List (String × String) → Prop where
  | blank {text : String} (blank : Text.blank text = true) : InputText text []
  | object {text : String} {entries : List (String × String)}
    (spelled : (Json.Tree.texts entries).Spelled text) : InputText text entries

namespace Report

variable {surroundings : Surroundings} {text file : String} {entries : List (String × String)}

theorem inputVariables_of_inputText (stdin : surroundings.stdin = .ok text) (input : InputText text entries) :
    inputVariables surroundings = .ok (NameMap.ofList entries) := by
  rw [inputVariables, stdin]
  cases input with
  | blank blank => simp [blank, Except.mapError, bind, Except.bind, pure, Except.pure, NameMap.ofList,
      NameMap.insertAll]
  | object spelled =>
    have visible : Text.blank text = false := by
      refine Bool.eq_false_iff.2 fun blank => ?_
      have space := List.all_eq_true.1 blank _ spelled.openObject
      exact absurd space (by decide)
    have read := spelled.toOption_ofText Json.Cursor.agree_store
    rw [Json.Place.store_texts, toOption_eq_some] at read
    simp [visible, read, Except.mapError, bind, Except.bind]

theorem workflow_eq_ok {authored : Authored.Workflow} {loaded : Workflow}
    (loads : Authored.Workflow.load file (surroundings.read file) = .ok authored)
    (resolves : authored.resolve = .ok loaded) : workflow surroundings file = .ok loaded := by
  rw [workflow, loads]
  simp [bind, Except.bind, Except.mapError, resolves]

theorem seed_of_resolve {authored : Authored.Workflow} {loaded : Workflow}
    (resolves : authored.resolve = .ok loaded) : loaded.seed = authored.seed := by
  obtain ⟨root, -, same⟩ := bind_eq_ok.1 resolves
  rw [← pure_eq_ok.1 same]

def runOf (loaded : Workflow) (seed : Store) (timeoutMs : Option UInt64) (aggregate : Bool) : Run :=
  let mode := if aggregate then .aggregate else .firstObserved
  let timeout := (timeoutMs.map Duration.ofMillis).getD defaultTimeout
  { loaded with seed }.run { host := .builtin, mode, timeout } {} []

/-- The printed form of a store is one object, with its names in byte order. -/
theorem spelled_store (store : Store) : ∃ entries : List (String × String),
    (entries.Pairwise fun a b => Text.bytes a.1 < Text.bytes b.1) ∧
    (∀ name value, (name, value) ∈ entries ↔ store.get? name = some value) ∧
    (Json.Tree.texts entries).Spelled ((Json.Value.ofStore store).toPrettyText ++ "\n") := by
  refine ⟨store.toList, store.ascending.imp (Text.lt_iff_bytes_lt _ _).1, fun _ _ => NameMap.mem_toList, ?_⟩
  rw [← Json.Value.tree_entries]
  refine (Json.Value.plain_entries store.toList).spelled_printings ?_
  simp [Json.Value.printings, Json.Value.ofStore]

theorem runWorkflow_eq {loaded : Workflow} {input : Store} {assigned : List (String × String)}
    {timeoutMs : Option UInt64} {aggregate printBindings : Bool}
    (loads : workflow surroundings file = .ok loaded) (reads : inputVariables surroundings = .ok input) :
    let report := ofRequest surroundings ⟨timeoutMs, .runWorkflow file assigned aggregate printBindings⟩
    let run := runOf loaded ((input.laidOver loaded.seed).insertAll assigned) timeoutMs aggregate
    (report.exit = 0 ↔ run.outcome = .ok ()) ∧
    report.stdout = if printBindings then (Json.Value.ofStore run.store).toPrettyText ++ "\n" else "" := by
  simp only [ofRequest, runWorkflow, loads, reads]
  rw [← runOf]
  generalize runOf loaded ((input.laidOver loaded.seed).insertAll assigned) timeoutMs aggregate = run
  -- The store is printed before the outcome decides.
  cases run.outcome with
  | ok => exact ⟨by simp, rfl⟩
  | error failure => exact ⟨by simp [failed], rfl⟩

/-- A variable that is given as an argument hides that of the standard input, which hides that of the file,
and of several with one name the last counts. The report is on the run with these variables: its outcome
decides the exit code, and its store is printed if that is asked for, whatever the outcome. -/
theorem runs_with_layered_variables {authored : Authored.Workflow} {loaded : Workflow} {raws : List String}
    {assigned : List (String × String)}
    (loads : Authored.Workflow.load file (surroundings.read file) = .ok authored)
    (resolves : authored.resolve = .ok loaded) (stdin : surroundings.stdin = .ok text)
    (input : InputText text entries) (accepted : raws.mapM parseVariable = .ok assigned)
    (timeoutMs : Option UInt64) (aggregate printBindings : Bool) :
    let report := ofRequest surroundings ⟨timeoutMs, .runWorkflow file assigned aggregate printBindings⟩
    (∀ raw, (∃ assigned, parseVariable raw = .ok assigned) ↔
      '=' ∈ raw.toList ∧ raw.toList.head? ≠ some '=') ∧
    (∀ raw key value, parseVariable raw = .ok (key, value) →
      key ++ "=" ++ value = raw ∧ '=' ∉ key.toList) ∧
    (file ≠ "" →
      ofArguments surroundings (runArguments timeoutMs raws aggregate printBindings file) = report) ∧
    ∃ seed : Store,
      (∀ key, seed.get? key =
        (NameMap.last? assigned key).or ((NameMap.last? entries key).or (authored.seed.get? key))) ∧
      let run := runOf loaded seed timeoutMs aggregate
      (report.exit = 0 ↔ run.outcome = .ok ()) ∧
      (printBindings = true → ∃ shown : List (String × String),
        (shown.Pairwise fun a b => Text.bytes a.1 < Text.bytes b.1) ∧
        (∀ name value, (name, value) ∈ shown ↔ run.store.get? name = some value) ∧
        (Json.Tree.texts shown).Spelled report.stdout) ∧
      (printBindings = false → report.stdout = "") := by
  intro report
  have reads := inputVariables_of_inputText stdin input
  obtain ⟨exits, prints⟩ := @runWorkflow_eq _ _ _ _ assigned timeoutMs aggregate printBindings
    (workflow_eq_ok loads resolves) reads
  refine ⟨fun _ => exists_parseVariable_eq_ok, fun raw key value parsed => ?_, fun named => ?_,
    ((NameMap.ofList entries).laidOver loaded.seed).insertAll assigned, fun key => ?_, exits, ?_, ?_⟩
  · obtain ⟨split, plain, -⟩ := parseVariable_eq_ok.1 parsed
    exact ⟨split.symm, plain⟩
  · rw [ofArguments, Request.parse_runArguments named accepted]
  · rw [NameMap.get?_insertAll, NameMap.get?_laidOver, NameMap.get?_ofList, seed_of_resolve resolves]
  · rintro rfl
    obtain ⟨shown, ascend, entries, spelled⟩ := spelled_store _
    exact ⟨shown, ascend, entries, prints ▸ spelled⟩
  · rintro rfl
    exact prints

def layered : Authored.Workflow where
  seed := ((NameMap.empty.insert "a" "file").insert "b" "file").insert "c" "file"

def layeredSurroundings : Surroundings where
  read _ := .ok layered.toJson.toText
  stdin := .ok (Json.Value.object [("b", .text "input"), ("a", .text "input"), ("b", .text "last")]).toText
  executionId := ""

theorem layered_runs : ∃ loaded seed, layered.resolve = .ok loaded ∧
    seed.get? "a" = some "=" ∧ seed.get? "b" = some "last" ∧ seed.get? "c" = some "file" ∧
    seed.get? "d" = none ∧
    ((ofArguments layeredSurroundings (runArguments none ["a=1", "a=="] true true "w.json")).exit = 0 ↔
      (runOf loaded seed none true).outcome = .ok ()) := by
  obtain ⟨loaded, resolves⟩ : ∃ loaded, layered.resolve = .ok loaded := ⟨_, rfl⟩
  have accepted : Authored.Workflow.ofJson layered.toJson.toText = .ok layered := by
    rw [← Authored.Workflow.jsonWith_toList]
    exact Authored.Workflow.ofJson_printings (.refl _) (by decide) _ List.mem_cons_self
  have loads : Authored.Workflow.load "w.json" (layeredSurroundings.read "w.json") = .ok layered := by
    have format : Authored.FileFormat.ofPath "w.json" = .json := by decide
    simp [Authored.Workflow.load, layeredSurroundings, format, Authored.FileFormat.load, accepted,
      Except.mapError, bind, Except.bind]
  have parsed : ["a=1", "a=="].mapM parseVariable = .ok [("a", "1"), ("a", "=")] := rfl
  have spelled := (Json.Value.plain_entries [("b", "input"), ("a", "input"), ("b", "last")]).spelled_printings
    List.mem_cons_self
  rw [Json.Value.tree_entries] at spelled
  obtain ⟨-, -, arguments, seed, layers, exits, -⟩ := runs_with_layered_variables loads resolves rfl
    (.object spelled) parsed none true true
  rw [← arguments (by decide)] at exits
  exact ⟨loaded, seed, resolves, layers "a", layers "b", layers "c", layers "d", exits⟩

end Report

end CommandLine

end FlowTree
