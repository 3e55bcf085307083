import FlowTree.Authored.Json
import FlowTree.Proofs.Json.Cursors

/-! Authored workflows survive JSON. What is left out of the text is what its absence stands for, so
reading a text gives the definition that was written, whichever entries of its statements are set. -/

set_option autoImplicit false

namespace FlowTree.Authored

open Json (Value Cursor)

variable {cursor : Cursor}

theorem Invocation.read_toJson {call : Invocation} (shows : cursor.Shows call.toJson) :
    cursor.record (Invocation.record Json.format) = .ok call := by
  let named : InvocationParts := { name := some call.name }
  let listed : InvocationParts :=
    { named with arguments := if call.arguments = [] then none else some call.arguments }
  let kept : InvocationParts := { listed with result := call.result.map some }
  let timed : InvocationParts := { kept with timeoutMs := call.timeoutMs.map some }
  have name : (Invocation.record Json.format).Fills (Cursor.ShowsAt (cursor.depth - 1))
      [("name", .text call.name)] {} named :=
    .stored rfl rfl (fun _ => rfl) rfl fun _ shown => shown.shows.text
  have arguments : (Invocation.record Json.format).Fills (Cursor.ShowsAt (cursor.depth - 1))
      (if call.arguments = [] then [] else [("arguments", Value.texts call.arguments)]) named listed := by
    by_cases none : call.arguments = []
    · have same : listed = named := by simp [listed, none, named]
      rw [if_pos none, same]
      exact .nil named
    · rw [if_neg none]
      refine .stored rfl rfl (fun _ => rfl) ?_ fun _ shown => shown.shows.texts
      simp [listed, none, pure, Except.pure]
  have result : (Invocation.record Json.format).Fills (Cursor.ShowsAt (cursor.depth - 1))
      (Value.optionalMember "result" .text call.result) listed kept := by
    refine Cursor.fills_optional rfl rfl (fun _ => rfl) nofun (fun none => ?_) (fun s some => ?_)
      fun _ _ _ shown => shown.shows.text
    · simp [kept, none]
      rfl
    · simp [kept, some, pure, Except.pure]
  have timeout : (Invocation.record Json.format).Fills (Cursor.ShowsAt (cursor.depth - 1))
      (Value.optionalMember "timeout_ms" (fun ms => .natural ms.toNat) call.timeoutMs) kept timed := by
    refine Cursor.fills_optional rfl rfl (fun _ => rfl) nofun (fun none => ?_) (fun ms some => ?_)
      fun ms _ _ shown => ?_
    · simp [timed, none]
      rfl
    · simp [timed, some, pure, Except.pure]
    · have read := shown.shows.word
      rw [UInt64.ofNat_toNat] at read
      exact read
  refine shows.record (((name.append arguments).append result).append timeout) ?_
  have list : (if call.arguments = [] then none else some call.arguments).getD [] = call.arguments := by
    by_cases none : call.arguments = [] <;> simp [none]
  have text : (call.result.map some).getD none = call.result := by cases call.result <;> rfl
  have word : (call.timeoutMs.map some).getD none = call.timeoutMs := by cases call.timeoutMs <;> rfl
  simp [Invocation.record, timed, kept, listed, named, list, text, word]

theorem Statement.partsToJson_eq (parts : List Statement) :
    Statement.partsToJson parts = parts.map Statement.toJson := by
  induction parts with
  | nil => rfl
  | cons s rest ih => rw [partsToJson, ih, List.map_cons]

theorem Statement.blockToJson_eq (name inner : String) (parts : Option (List Statement)) :
    Statement.blockToJson name inner parts = Value.optionalMember name
      (fun parts => .object [(inner, .list (Statement.partsToJson parts))]) parts := by
  cases parts <;> rfl

/-- A sequence or a parallel block, given that its parts can be read further within. -/
theorem read_partsRecord {title name : String} {part : Cursor → Except Json.Fault Statement}
    {parts : List Statement} (shows : cursor.Shows (.object [(name, .list (Statement.partsToJson parts))]))
    (each : ∀ s ∈ parts, ∀ place : Cursor, place.depth < cursor.depth → place.Shows s.toJson →
      part place = .ok s) :
    cursor.record (partsRecord Json.format title name part) = .ok parts := by
  have deep := shows.deep
  have found : Record.entry? (partsRecord Json.format title name part) name =
      (partsRecord Json.format title name part).entries.head? := by
    simp [ Record.entry?, partsRecord, Entry.answersTo]
  refine shows.record (.stored found rfl (fun _ => rfl) rfl ?_) rfl
  intro node shown
  obtain ⟨inside, shown⟩ := shown
  rw [Statement.partsToJson_eq] at shown
  refine shown.list fun s mem inner => each s mem _ ?_
  show node.depth - 1 < cursor.depth
  omega

/-- A statement is read at a place that shows it, by a reader that may go as deep as the place. -/
theorem Statement.read_toJson {s : Statement} {fuel : Nat} (enough : cursor.depth ≤ fuel)
    (shows : cursor.Shows s.toJson) : Statement.read Json.format fuel cursor = .ok s := by
  induction s generalizing cursor fuel with
  | mk invocation sequence parallel inSequence inParallel =>
    rw [toJson, blockToJson_eq, blockToJson_eq] at shows
    have deep := shows.deep
    match fuel with
    | 0 => omega
    | fuel + 1 =>
      let record := Statement.record Json.format (Statement.read Json.format fuel)
      let called : StatementParts := { invocation := invocation.map some }
      let ordered : StatementParts := { called with sequence := sequence.map some }
      let branched : StatementParts := { ordered with parallel := parallel.map some }
      have first : record.Fills (Cursor.ShowsAt (cursor.depth - 1))
          (Value.optionalMember "invocation" Invocation.toJson invocation) {} called := by
        refine Cursor.fills_optional rfl rfl (fun _ => rfl) nofun (fun none => ?_) (fun call some => ?_)
          fun _ _ _ shown => Invocation.read_toJson shown.shows
        · simp [called, none]
        · simp [called, some, pure, Except.pure]
      have second : record.Fills (Cursor.ShowsAt (cursor.depth - 1))
          (Value.optionalMember "sequence"
            (fun parts => .object [("elements", .list (partsToJson parts))]) sequence) called ordered := by
        refine Cursor.fills_optional rfl rfl (fun _ => rfl) nofun (fun none => ?_) (fun parts some => ?_)
          fun parts some node shown => ?_
        · simp [ordered, none]
          rfl
        · simp [ordered, some, pure, Except.pure]
        · have inside := shown.depth
          exact read_partsRecord shown.shows fun s mem place within =>
            inSequence parts some s mem (by omega)
      have third : record.Fills (Cursor.ShowsAt (cursor.depth - 1))
          (Value.optionalMember "parallel"
            (fun parts => .object [("branches", .list (partsToJson parts))]) parallel) ordered branched := by
        refine Cursor.fills_optional rfl rfl (fun _ => rfl) nofun (fun none => ?_) (fun parts some => ?_)
          fun parts some node shown => ?_
        · simp [branched, none]
          rfl
        · simp [branched, some, pure, Except.pure]
        · have inside := shown.depth
          exact read_partsRecord shown.shows fun s mem place within =>
            inParallel parts some s mem (by omega)
      have given {α : Type} (content : Option α) : (content.map some).getD none = content := by
        cases content <;> rfl
      refine shows.record ((first.append second).append third) ?_
      simp [Statement.record, branched, ordered, called, given]

theorem Invocation.plain_toJson (call : Invocation) : call.toJson.Plain := by
  refine .object fun member mem => ?_
  simp only [List.mem_append, Value.mem_optionalMember, List.mem_singleton] at mem
  rcases mem with ((rfl | mem) | ⟨s, -, rfl⟩) | ⟨ms, -, rfl⟩
  · exact .text call.name
  · split at mem
    · cases mem
    · obtain rfl := List.mem_singleton.1 mem
      exact Value.plain_texts call.arguments
  · exact .text s
  · exact .natural ms.toNat_lt

theorem Statement.plain_toJson (s : Statement) : s.toJson.Plain := by
  induction s with
  | mk invocation sequence parallel inSequence inParallel =>
    have block {inner : String} {parts : List Statement} (each : ∀ s ∈ parts, s.toJson.Plain) :
        (Value.object [(inner, .list (partsToJson parts))]).Plain := by
      refine .object fun member mem => ?_
      obtain rfl := List.mem_singleton.1 mem
      rw [partsToJson_eq]
      refine .list fun item mem => ?_
      obtain ⟨s, here, rfl⟩ := List.mem_map.1 mem
      exact each s here
    rw [toJson, blockToJson_eq, blockToJson_eq]
    refine .object fun member mem => ?_
    simp only [List.mem_append, Value.mem_optionalMember] at mem
    rcases mem with (⟨call, -, rfl⟩ | ⟨parts, some, rfl⟩) | ⟨parts, some, rfl⟩
    · exact call.plain_toJson
    · exact block (inSequence parts some)
    · exact block (inParallel parts some)

namespace Workflow

def jsonWith (workflow : Workflow) (entries : List (String × String)) : Value :=
  .object (Value.optionalMember "workflow_id" .text workflow.workflowId ++
    Value.optionalMember "name" .text workflow.name ++
    [("variables", .object (entries.map fun (name, value) => (name, .text value))),
      ("root", workflow.root.toJson)])

theorem jsonWith_toList (workflow : Workflow) :
    workflow.jsonWith workflow.seed.toList = workflow.toJson := rfl

theorem read_jsonWith {workflow : Workflow} {entries : List (String × String)}
    (order : entries.Perm workflow.seed.toList) (within : cursor.depth ≤ 128)
    (shows : cursor.Shows (workflow.jsonWith entries)) :
    Workflow.read Json.format cursor = .ok workflow := by
  let identified : WorkflowParts := { workflowId := workflow.workflowId.map some }
  let named : WorkflowParts := { identified with name := workflow.name.map some }
  let seeded : WorkflowParts := { named with seed := some workflow.seed }
  let rooted : WorkflowParts := { seeded with root := some workflow.root }
  have first : (Workflow.record Json.format).Fills (Cursor.ShowsAt (cursor.depth - 1))
      (Value.optionalMember "workflow_id" .text workflow.workflowId) {} identified := by
    refine Cursor.fills_optional rfl rfl (fun _ => rfl) nofun (fun none => ?_) (fun s some => ?_)
      fun _ _ _ shown => shown.shows.text
    · simp [identified, none]
    · simp [identified, some, pure, Except.pure]
  have second : (Workflow.record Json.format).Fills (Cursor.ShowsAt (cursor.depth - 1))
      (Value.optionalMember "name" .text workflow.name) identified named := by
    refine Cursor.fills_optional rfl rfl (fun _ => rfl) nofun (fun none => ?_) (fun s some => ?_)
      fun _ _ _ shown => shown.shows.text
    · simp [named, none]
      rfl
    · simp [named, some, pure, Except.pure]
  have third : (Workflow.record Json.format).Fills (Cursor.ShowsAt (cursor.depth - 1))
      [("variables", .object (entries.map fun (name, value) => (name, .text value)))] named seeded :=
    .stored rfl rfl (fun _ => rfl) rfl fun _ shown => shown.shows.store order
  have fourth : (Workflow.record Json.format).Fills (Cursor.ShowsAt (cursor.depth - 1))
      [("root", workflow.root.toJson)] seeded rooted := by
    refine .stored rfl rfl (fun _ => rfl) rfl fun node shown => Statement.read_toJson ?_ shown.shows
    have inside := shown.depth
    simp only [nestingLimit]
    omega
  have given {α : Type} (content : Option α) : (content.map some).getD none = content := by
    cases content <;> rfl
  refine Cursor.Shows.record shows ((first.append second).append (third.append fourth)) ?_
  simp [Workflow.record, rooted, seeded, named, identified, given]

theorem plain_jsonWith (workflow : Workflow) (entries : List (String × String)) :
    (workflow.jsonWith entries).Plain := by
  refine .object fun member mem => ?_
  simp only [List.mem_append, Value.mem_optionalMember, List.mem_cons, List.not_mem_nil, or_false] at mem
  rcases mem with (⟨id, -, rfl⟩ | ⟨name, -, rfl⟩) | rfl | rfl
  · exact .text id
  · exact .text name
  · exact Value.plain_entries entries
  · exact workflow.root.plain_toJson

/-- Every definition that nests at most as deep as texts may is read back from its JSON, printed in
either way and with its variables in any order. -/
theorem ofJson_printings {workflow : Workflow} {entries : List (String × String)}
    (order : entries.Perm workflow.seed.toList) (within : (workflow.jsonWith entries).depth ≤ 127) :
    ∀ text ∈ (workflow.jsonWith entries).printings, ofJson text = .ok workflow := by
  intro text printed
  exact (workflow.plain_jsonWith entries).ofText_printings within
    (fun root shows => read_jsonWith order le_rfl shows) printed

/-- A definition with a statement that sets everything, texts with all kinds of characters and a result
name that is set and empty. -/
def ambiguous : Workflow where
  name := some ""
  seed := (NameMap.empty.insert "b" "\t\"\\").insert "a" "ä𝄞\x07"
  root := {
    invocation := some { name := "f", result := some "", timeoutMs := some 18446744073709551615 }
    sequence := some []
    parallel := some [{}, { invocation := some { name := "", arguments := ["a", ""] } }] }

theorem ambiguous_ofJson_printings : (ambiguous.jsonWith [("b", "\t\"\\"), ("a", "ä𝄞\x07")]).depth ≤ 127 ∧
    ∀ text ∈ (ambiguous.jsonWith [("b", "\t\"\\"), ("a", "ä𝄞\x07")]).printings,
      ofJson text = .ok ambiguous :=
  ⟨by decide, ofJson_printings (by decide) (by decide)⟩

end Workflow

end FlowTree.Authored
