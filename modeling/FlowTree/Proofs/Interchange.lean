import FlowTree.Proofs.Definitions
import FlowTree.Proofs.Faithful
import FlowTree.Statement.Json

/-! Executable workflows survive JSON, and those that come from a definition in JSON are never nested too
deep for it: what a statement adds to the depth of its text as a definition is no less than what it adds
once it is resolved. -/

set_option autoImplicit false

namespace FlowTree

open Json (Value Cursor Fault)

namespace Duration

theorem secs_mul_add (d : Duration) : d.secs * 1000000000 + d.subsecNanos = d.nanos := by
  simp only [secs, subsecNanos]
  omega

theorem ofParts?_parts (d : Duration) : ofParts? d.secs d.subsecNanos = some d := by
  have whole : ofNanos? d.nanos = some d := dif_pos d.inRange
  unfold ofParts?
  rw [secs_mul_add]
  exact whole

-- The way to make a duration is a variable here: to look into it would mean to compute with its bound.
theorem finish_of_make {make : Nat → Nat → Option Duration}
    {record : Record (Except Fault) Value (Option Nat × Option Nat) Duration}
    (finish : record.finish = fun
      | (none, _) => .error (.missingField "secs")
      | (_, none) => .error (.missingField "nanos")
      | (some secs, some nanos) =>
        match make secs nanos with
        | some d => .ok d
        | none => .error .durationOverflow)
    {secs nanos : Nat} {d : Duration} (made : make secs nanos = some d) :
    record.finish (some secs, some nanos) = .ok d := by
  rw [finish]
  simp only [made]

theorem read_toJson (d : Duration) : Value.readRecord record d.toJson = .ok d := by
  have seconds : d.secs < Text.wordBound := by
    have bound := d.inRange
    simp only [secs]
    omega
  have rest : d.subsecNanos < Nat.pow 2 32 := by
    have limit : Nat.pow 2 32 = 4294967296 := rfl
    simp only [subsecNanos]
    omega
  have first : record.Fills (· = ·) [("secs", .natural d.secs)] (none, none) (some d.secs, none) := by
    refine .stored rfl rfl (fun _ => rfl) rfl ?_
    rintro _ rfl
    exact if_pos seconds
  have second : record.Fills (· = ·) [("nanos", .natural d.subsecNanos)] (some d.secs, none)
      (some d.secs, some d.subsecNanos) := by
    refine .stored rfl rfl (fun _ => rfl) rfl ?_
    rintro _ rfl
    exact if_pos rest
  exact Value.readRecord_of_fills (first.append second) (finish_of_make rfl d.ofParts?_parts)

end Duration

theorem Json.Value.readList_map {α : Type} {read : Value → Except Fault α} {write : α → Value}
    {as : List α} (reads : ∀ a ∈ as, read (write a) = .ok a) :
    readList read (.list (as.map write)) = .ok as := by
  rw [readList, mapM_eq_ok, List.forall₂_map_left_iff, List.forall₂_same]
  exact reads

theorem Json.Value.readOptional_option {α : Type} {read : Value → Except Fault α} {write : α → Value}
    {content : Option α} (some : ∀ a, write a ≠ .null) (reads : ∀ a, read (write a) = .ok a) :
    readOptional read (option write content) = .ok content := by
  cases content with
  | none => rfl
  | some a =>
    have there := some a
    have found := reads a
    cases written : write a with
    | null => exact absurd written there
    | _ =>
      rw [written] at found
      simp [option, written, readOptional, found, Except.map]

namespace Statement

def kind : Statement → Kind
  | .invocation _ => .invocation
  | .sequence _ => .sequence
  | .parallel _ => .parallel
  | .noop => .noop

def members : Statement → List (String × Value)
  | .invocation call => [("name", .text call.name), ("arguments", Value.texts call.arguments),
    ("result", Value.option .text call.result), ("timeout", Value.option Duration.toJson call.timeout)]
  | .sequence elements => [("elements", .list (partsToJson elements))]
  | .parallel branches => [("branches", .list (partsToJson branches))]
  | .noop => []

theorem toJson_eq (s : Statement) : s.toJson = .object (("type", .text s.kind.name) :: s.members) := by
  cases s <;> rfl

theorem members_ne_type (s : Statement) : ∀ member ∈ s.members, member.1 ≠ "type" := by
  cases s <;> simp [members]

theorem partsToJson_eq (parts : List Statement) : partsToJson parts = parts.map toJson := by
  induction parts with
  | nil => rfl
  | cons s rest ih => rw [partsToJson, ih, List.map_cons]

end Statement

theorem Invocation.read_members (call : Invocation) :
    Value.readRecord record (.object (Statement.members (.invocation call))) = .ok call := by
  let named : Parts := { name := some call.name }
  let listed : Parts := { named with arguments := some call.arguments }
  let kept : Parts := { listed with result := some call.result }
  let timed : Parts := { kept with timeout := some call.timeout }
  have name : record.Fills (· = ·) [("name", .text call.name)] {} named := by
    refine .stored rfl rfl (fun _ => rfl) rfl ?_
    rintro _ rfl
    rfl
  have arguments : record.Fills (· = ·) [("arguments", Value.texts call.arguments)] named listed := by
    refine .stored rfl rfl (fun _ => rfl) rfl ?_
    rintro _ rfl
    exact Value.readList_map fun _ _ => rfl
  have result : record.Fills (· = ·) [("result", Value.option .text call.result)] listed kept := by
    refine .stored rfl rfl (fun _ => rfl) rfl ?_
    rintro _ rfl
    exact Value.readOptional_option nofun fun _ => rfl
  have timeout : record.Fills (· = ·) [("timeout", Value.option Duration.toJson call.timeout)] kept
      timed := by
    refine .stored rfl rfl (fun _ => rfl) rfl ?_
    rintro _ rfl
    exact Value.readOptional_option nofun Duration.read_toJson
  exact Value.readRecord_of_fills (((name.append arguments).append result).append timeout) rfl

namespace Statement

def blockParts : Statement → List Statement
  | .sequence parts => parts
  | .parallel parts => parts
  | _ => []

theorem read_partsRecord {part : Value → Except Fault Statement} (title name : String)
    (parts : List Statement) (each : ∀ p ∈ parts, part p.toJson = .ok p) :
    Value.readRecord (partsRecord title name part) (.object [(name, .list (partsToJson parts))]) =
      .ok parts := by
  have found : Record.entry? (partsRecord title name part) name =
      (partsRecord title name part).entries.head? := by
    simp [ Record.entry?, partsRecord, Entry.answersTo]
  refine Value.readRecord_of_fills (.stored found rfl (fun _ => rfl) rfl ?_) rfl
  rintro _ rfl
  rw [partsToJson_eq]
  exact Value.readList_map each

theorem ofContent_members {part : Value → Except Fault Statement} (s : Statement)
    (each : ∀ p ∈ s.blockParts, part p.toJson = .ok p) :
    ofContent part s.kind (.object s.members) = .ok s := by
  cases s with
  | invocation call =>
    have read := call.read_members
    simp [ofContent, kind, read, bind, Except.bind, pure, Except.pure]
  | sequence elements =>
    have read := read_partsRecord "struct Sequence" "elements" elements each
    simp [ofContent, kind, members, read, bind, Except.bind, pure, Except.pure]
  | parallel branches =>
    have read := read_partsRecord "struct Parallel" "branches" branches each
    simp [ofContent, kind, members, read, bind, Except.bind, pure, Except.pure]
  | noop => rfl

theorem Kind.ofName_name (kind : Kind) : ofName kind.name = .ok kind := by cases kind <;> rfl

theorem splitValue_toJson (s : Statement) : splitValue s.toJson = .ok (s.kind, .object s.members) := by
  have rest {members : List (String × Value)} (plain : ∀ member ∈ members, member.1 ≠ "type") :
      splitMembers members (some s.kind) = .ok (s.kind, members) := by
    induction members with
    | nil => rfl
    | cons member members ih =>
      have other := plain member List.mem_cons_self
      have others := ih fun member mem => plain member (List.mem_cons_of_mem _ mem)
      simp [splitMembers, other, others, bind, Except.bind, pure, Except.pure]
  rw [toJson_eq]
  simp [splitValue, splitMembers, Kind.ofValue, Kind.ofName_name, rest s.members_ne_type, bind,
    Except.bind, pure, Except.pure, Except.mapError]

theorem depth_of_mem_blockParts {s p : Statement} (mem : p ∈ s.blockParts) :
    p.toJson.depth + 2 ≤ s.toJson.depth := by
  have within {name : String} {parts : List Statement} (mem : p ∈ parts)
      (member : (name, Value.list (partsToJson parts)) ∈ s.members) :
      p.toJson.depth + 2 ≤ s.toJson.depth := by
    have item := Value.depth_lt_list (List.mem_map_of_mem (f := toJson) mem)
    have list := Value.depth_lt_object (List.mem_cons_of_mem ("type", .text s.kind.name) member)
    rw [partsToJson_eq] at list
    rw [toJson_eq s]
    omega
  cases s with
  | sequence parts => exact within mem (List.mem_singleton_self _)
  | parallel parts => exact within mem (List.mem_singleton_self _)
  | invocation | noop => cases mem

theorem depth_pos (s : Statement) : 0 < s.toJson.depth := by
  rw [toJson_eq]
  exact Nat.succ_pos _

theorem induction_parts {motive : Statement → Prop}
    (step : ∀ s : Statement, (∀ p ∈ s.blockParts, motive p) → motive s) (s : Statement) : motive s := by
  induction s with
  | invocation call => exact step _ nofun
  | sequence elements ih => exact step _ ih
  | parallel branches ih => exact step _ ih
  | noop => exact step _ nofun

/-- A statement that has been taken out of its text is read, if it nests no deeper than its reader goes. -/
theorem ofValue_toJson {s : Statement} {fuel : Nat} (enough : s.toJson.depth ≤ fuel) :
    ofValue fuel s.toJson = .ok s := by
  induction s using induction_parts generalizing fuel with
  | step s ih =>
    have positive := s.depth_pos
    match fuel with
    | 0 => omega
    | fuel + 1 =>
      have each : ∀ p ∈ s.blockParts, ofValue fuel p.toJson = .ok p := by
        intro p mem
        have shallow := depth_of_mem_blockParts mem
        exact ih p mem (by omega)
      have content := ofContent_members s each
      simp [ofValue, splitValue_toJson, content, bind, Except.bind]

theorem splitFields_members {depth : Nat} {fields : List Json.Field} {members : List (String × Value)}
    (kind : Kind) (each : List.Forall₂ (fun field member => field.key = .ok member.1 ∧
      Cursor.Shows ⟨depth, field.value⟩ member.2) fields members)
    (plain : ∀ member ∈ members, member.1 ≠ "type") :
    splitFields depth fields (some kind) = .ok (some kind, members) := by
  induction each with
  | nil => rfl
  | cons first _ ih =>
    obtain ⟨key, shown⟩ := first
    have other := plain _ List.mem_cons_self
    have others := ih fun member mem => plain member (List.mem_cons_of_mem _ mem)
    rw [splitFields, key]
    simp only [bind, Except.bind, if_neg other]
    rw [show Json.Node.toValue _ _ = _ from shown, others]
    rfl

theorem Kind.ofNode_of_shows {depth : Nat} {node : Json.Node} {kind : Kind}
    (shows : Cursor.Shows ⟨depth, node⟩ (.text kind.name)) : ofNode node = .ok kind := by
  cases shows.form
  simp [ofNode, ofName_name, Except.mapError]

variable {cursor : Cursor}

theorem splitNode_toJson {s : Statement} (shows : cursor.Shows s.toJson) :
    splitNode cursor = .ok (s.kind, .object s.members) := by
  rw [toJson_eq] at shows
  obtain ⟨depth, node⟩ := cursor
  cases shows.form with
  | object start stop deep each =>
    cases each with
    | cons first others =>
      obtain ⟨key, shown⟩ := first
      have kind := Kind.ofNode_of_shows shown
      have rest := splitFields_members s.kind others s.members_ne_type
      simp [splitNode, splitFields, Cursor.enter_of_deep deep, key, kind, rest, Json.Ending.wantedObject,
        bind, Except.bind, pure, Except.pure]

theorem read_toJson {s : Statement} (within : s.toJson.depth ≤ nestingLimit)
    (shows : cursor.Shows s.toJson) : Statement.read cursor = .ok s := by
  have each : ∀ p ∈ s.blockParts, ofValue nestingLimit p.toJson = .ok p := by
    intro p mem
    have shallow := depth_of_mem_blockParts mem
    exact ofValue_toJson (by omega)
  have content := ofContent_members s each
  simp [Statement.read, splitNode_toJson shows, content, bind, Except.bind]

end Statement

namespace Statement

/-- A call takes two levels: its own, and that of its arguments or its timeout. -/
theorem depth_invocation_le (call : Invocation) : (Statement.invocation call).toJson.depth ≤ 2 := by
  have texts : (Value.texts call.arguments).depth ≤ 1 := by
    refine Value.depth_list_le.2 fun item mem => ?_
    obtain ⟨name, -, rfl⟩ := List.mem_map.1 mem
    exact le_rfl
  have result : (Value.option .text call.result).depth ≤ 1 := by
    cases call.result <;> exact Nat.zero_le 1
  have timeout : (Value.option Duration.toJson call.timeout).depth ≤ 1 := by
    cases call.timeout <;> exact Nat.le_of_ble_eq_true rfl
  refine Value.depth_object_le.2 fun member mem => ?_
  simp only [List.mem_cons, List.not_mem_nil, or_false] at mem
  rcases mem with rfl | rfl | rfl | rfl | rfl
  · exact Nat.zero_le 1
  · exact Nat.zero_le 1
  · exact texts
  · exact result
  · exact timeout

theorem depth_block_le (kind name : String) {parts : List Statement} {n : Nat}
    (each : ∀ p ∈ parts, p.toJson.depth ≤ n) :
    (Value.object [("type", .text kind), (name, .list (partsToJson parts))]).depth ≤ n + 2 := by
  refine Value.depth_object_le.2 fun member mem => ?_
  simp only [List.mem_cons, List.not_mem_nil, or_false] at mem
  rcases mem with rfl | rfl
  · exact Nat.zero_le _
  · rw [partsToJson_eq]
    refine Value.depth_list_le.2 fun item mem => ?_
    obtain ⟨p, here, rfl⟩ := List.mem_map.1 mem
    exact each p here

end Statement

namespace Authored

variable {cursor : Cursor}

def PartsFit (depth : Nat) (parts : List Statement) : Prop :=
  2 < depth ∧ ∀ s ∈ parts, ∀ made : FlowTree.Statement, s.Becomes made → made.toJson.depth + 2 < depth

theorem partsFit_of_read {title name : String} {part : Cursor → Except Fault Statement}
    {parts : List Statement}
    (read : cursor.record (partsRecord Json.format title name part) = .ok parts)
    (each : ∀ node s, part ⟨cursor.depth - 2, node⟩ = .ok s →
      ∀ made : FlowTree.Statement, s.Becomes made → made.toJson.depth < cursor.depth - 2) :
    PartsFit (cursor.depth + 1) parts := by
  have kept := Cursor.record_keeps (motive := fun parts : Option (List Statement) =>
      ∀ list, parts = some list → ∀ s ∈ list, ∀ made : FlowTree.Statement, s.Becomes made →
        made.toJson.depth + 1 < cursor.depth) read (by rintro _ ⟨⟩) (by
    intro entry mem node before after _ entered
    obtain rfl := List.mem_singleton.1 mem
    obtain ⟨list, listed, same⟩ := bind_eq_ok.1 entered
    cases pure_eq_ok.1 same
    rintro _ ⟨⟩ s here made becomes
    obtain ⟨deep, items⟩ := Cursor.of_list_eq_ok listed
    obtain ⟨inner, found⟩ := items s here
    have shallow := each inner s found made becomes
    omega)
  obtain ⟨deep, gathered, kept, finished⟩ := kept
  cases finished
  refine ⟨Nat.succ_lt_succ deep, fun s mem made becomes => ?_⟩
  cases gathered with
  | none => cases mem
  | some list =>
    have shallow := kept list rfl s mem made becomes
    omega

namespace Statement

/-- A statement leaves room in its text for what it may become. -/
structure Fits (depth : Nat) (s : Statement) : Prop where
  deep : 1 < depth
  call : ∀ call, s.invocation = some call → 2 < depth
  elements : ∀ elements, s.sequence = some elements → PartsFit depth elements
  branches : ∀ branches, s.parallel = some branches → PartsFit depth branches

/-- Whatever has been read of a statement leaves room for what it may become. -/
theorem fits_of_read {part : Cursor → Except Fault Statement} {s : Statement}
    (read : cursor.record (record Json.format part) = .ok s)
    (each : ∀ node s, part ⟨cursor.depth - 3, node⟩ = .ok s →
      ∀ made : FlowTree.Statement, s.Becomes made → made.toJson.depth < cursor.depth - 3) :
    s.Fits cursor.depth := by
  have block {title name : String} {node : Json.Node} {parts : List Statement}
      (found : Cursor.optional (Cursor.record (partsRecord Json.format title name part))
        ⟨cursor.depth - 1, node⟩ = .ok (some parts)) : PartsFit cursor.depth parts := by
    obtain ⟨deep, fit⟩ := partsFit_of_read (Cursor.optional_eq_some found) each
    have level : cursor.depth - 1 + 1 = cursor.depth := by
      simp at deep
      omega
    rw [level] at deep fit
    exact ⟨deep, fit⟩
  have kept := Cursor.record_keeps (motive := fun parts : StatementParts =>
      (∀ call, parts.invocation = some (some call) → 2 < cursor.depth) ∧
      (∀ elements, parts.sequence = some (some elements) → PartsFit cursor.depth elements) ∧
      (∀ branches, parts.parallel = some (some branches) → PartsFit cursor.depth branches)) read
      (by refine ⟨?_, ?_, ?_⟩ <;> rintro _ ⟨⟩) (by
    intro entry mem node before after ⟨calls, sequences, parallels⟩ entered
    simp only [record, List.mem_cons, List.not_mem_nil, or_false] at mem
    rcases mem with rfl | rfl | rfl
    · obtain ⟨content, found, same⟩ := bind_eq_ok.1 entered
      cases pure_eq_ok.1 same
      refine ⟨?_, sequences, parallels⟩
      rintro call ⟨⟩
      have deep := (Cursor.record_keeps (motive := fun _ => True) (Cursor.optional_eq_some found)
        trivial fun _ _ _ _ _ _ _ => trivial).1
      simp at deep
      omega
    · obtain ⟨content, found, same⟩ := bind_eq_ok.1 entered
      cases pure_eq_ok.1 same
      refine ⟨calls, ?_, parallels⟩
      rintro elements ⟨⟩
      exact block found
    · obtain ⟨content, found, same⟩ := bind_eq_ok.1 entered
      cases pure_eq_ok.1 same
      refine ⟨calls, sequences, ?_⟩
      rintro branches ⟨⟩
      exact block found)
  obtain ⟨deep, parts, ⟨calls, sequences, parallels⟩, finished⟩ := kept
  have given {α : Type} {content : Option (Option α)} {a : α} (there : content.getD none = some a) :
      content = some (some a) := by
    cases content with
    | none => cases there
    | some b => exact congrArg some there
  cases finished
  exact ⟨deep, fun call set => calls call (given set), fun elements set => sequences elements (given set),
    fun branches set => parallels branches (given set)⟩

theorem Fits.depth_lt {depth : Nat} {s : Statement} (fits : s.Fits depth) {made : FlowTree.Statement}
    (becomes : s.Becomes made) : made.toJson.depth < depth := by
  -- A block takes three levels in a definition and two once it is resolved: there is one to spare.
  have inside {parts : List Statement} {made : List FlowTree.Statement} (fit : PartsFit depth parts)
      (each : List.Forall₂ Statement.Becomes parts made) : ∀ p ∈ made, p.toJson.depth ≤ depth - 3 := by
    intro p mem
    obtain ⟨s, here, becomes⟩ := exists_of_forall₂ each mem
    have shallow := fit.2 s here p becomes
    omega
  cases becomes with
  | noop => exact fits.deep
  | @invocation call made becomes =>
    have deep := fits.call call rfl
    have shallow := FlowTree.Statement.depth_invocation_le made
    omega
  | @sequence elements made each =>
    have fit := fits.elements elements rfl
    have shallow := FlowTree.Statement.depth_block_le "sequence" "elements" (inside fit each)
    have deep := fit.1
    show (Value.object _).depth < _
    omega
  | @parallel branches made each =>
    have fit := fits.branches branches rfl
    have shallow := FlowTree.Statement.depth_block_le "parallel" "branches" (inside fit each)
    have deep := fit.1
    show (Value.object _).depth < _
    omega

/-- What a statement becomes nests less deep than its text was allowed to. -/
theorem depth_lt_of_read {fuel : Nat} {s : Statement} (found : read Json.format fuel cursor = .ok s)
    {made : FlowTree.Statement} (becomes : s.Becomes made) : made.toJson.depth < cursor.depth := by
  induction fuel generalizing cursor s made with
  | zero => cases found
  | succ fuel ih =>
    have fits := fits_of_read found fun node s inner made becomes => ih inner becomes
    exact fits.depth_lt becomes

end Statement

theorem Workflow.depth_root_of_ofJson {text : String} {definition : Workflow}
    (accepted : ofJson text = .ok definition) {made : FlowTree.Statement}
    (becomes : definition.root.Becomes made) : made.toJson.depth ≤ 126 := by
  have document := mapError_eq_ok.1 accepted
  rw [Json.Document.value, bind_eq_ok] at document
  obtain ⟨whole, read, ended⟩ := document
  have same : whole = definition := by
    split at ended
    · exact pure_eq_ok.1 ended
    · cases ended
  cases same
  -- Only the root matters; it is read one level below the document.
  obtain ⟨-, parts, kept, finished⟩ := Cursor.record_keeps (motive := fun parts : WorkflowParts =>
      ∀ root, parts.root = some root → ∀ made : FlowTree.Statement, root.Becomes made →
        made.toJson.depth ≤ 126) read (by rintro _ ⟨⟩) (by
    intro entry mem node before after kept entered
    simp only [Workflow.record, List.mem_cons, List.not_mem_nil, or_false] at mem
    rcases mem with rfl | rfl | rfl | rfl <;>
      obtain ⟨root, found, same⟩ := bind_eq_ok.1 entered <;>
      cases pure_eq_ok.1 same
    · exact kept
    · exact kept
    · exact kept
    · rintro _ ⟨⟩ made becomes
      exact Nat.le_of_lt_succ (Statement.depth_lt_of_read found becomes))
  have root := congrArg Workflow.root (Except.ok.inj finished)
  cases given : parts.root with
  | none =>
    rw [given] at root
    rw [← root] at becomes
    cases becomes
    decide
  | some found =>
    rw [given] at root
    cases root
    exact kept _ given made becomes

end Authored

namespace Workflow

def jsonWith (workflow : Workflow) (entries : List (String × String)) : Value :=
  .object [("workflow_id", .text workflow.id), ("name", .text workflow.name),
    ("variables", .object (entries.map fun (name, value) => (name, .text value))),
    ("root", workflow.root.toJson)]

theorem jsonWith_toList (workflow : Workflow) :
    workflow.jsonWith workflow.seed.toList = workflow.toJson := rfl

theorem depth_jsonWith_le {workflow : Workflow} {entries : List (String × String)} {n : Nat} :
    (workflow.jsonWith entries).depth ≤ n + 2 ↔ workflow.root.toJson.depth ≤ n + 1 := by
  constructor
  · intro within
    exact Value.depth_object_le.1 within ("root", workflow.root.toJson) (by simp)
  · intro within
    refine Value.depth_object_le.2 fun member mem => ?_
    simp only [List.mem_cons, List.not_mem_nil, or_false] at mem
    rcases mem with rfl | rfl | rfl | rfl
    · exact Nat.zero_le _
    · exact Nat.zero_le _
    · refine Value.depth_object_le.2 fun entry mem => ?_
      obtain ⟨_, -, rfl⟩ := List.mem_map.1 mem
      exact Nat.zero_le _
    · exact within

variable {cursor : Cursor}

theorem read_jsonWith {workflow : Workflow} {entries : List (String × String)}
    (order : entries.Perm workflow.seed.toList) (within : workflow.root.toJson.depth ≤ 126)
    (shows : cursor.Shows (workflow.jsonWith entries)) : cursor.record record = .ok workflow := by
  let identified : Parts := { id := some workflow.id }
  let named : Parts := { identified with name := some workflow.name }
  let seeded : Parts := { named with seed := some workflow.seed }
  let rooted : Parts := { seeded with root := some workflow.root }
  have first : record.Fills (Cursor.ShowsAt (cursor.depth - 1))
      [("workflow_id", .text workflow.id)] {} identified :=
    .stored rfl rfl (fun _ => rfl) rfl fun _ shown => shown.shows.text
  have second : record.Fills (Cursor.ShowsAt (cursor.depth - 1))
      [("name", .text workflow.name)] identified named :=
    .stored rfl rfl (fun _ => rfl) rfl fun _ shown => shown.shows.text
  have third : record.Fills (Cursor.ShowsAt (cursor.depth - 1))
      [("variables", .object (entries.map fun (name, value) => (name, .text value)))] named seeded :=
    .stored rfl rfl (fun _ => rfl) rfl fun _ shown => shown.shows.store order
  have fourth : record.Fills (Cursor.ShowsAt (cursor.depth - 1))
      [("root", workflow.root.toJson)] seeded rooted := by
    refine .stored rfl rfl (fun _ => rfl) rfl fun _ shown => Statement.read_toJson ?_ shown.shows
    simp only [Statement.nestingLimit]
    omega
  exact Cursor.Shows.record shows (((first.append second).append third).append fourth) rfl

end Workflow

theorem Duration.plain_toJson (d : Duration) : d.toJson.Plain := by
  have bound := d.inRange
  refine .object fun member mem => ?_
  simp only [List.mem_cons, List.not_mem_nil, or_false] at mem
  rcases mem with rfl | rfl
  · refine .natural ?_
    simp only [secs]
    omega
  · refine .natural ?_
    simp only [subsecNanos, Text.wordBound]
    omega

theorem Statement.plain_toJson (s : Statement) : s.toJson.Plain := by
  have block {kind name : String} {parts : List Statement} (each : ∀ p ∈ parts, p.toJson.Plain) :
      (Value.object [("type", .text kind), (name, .list (partsToJson parts))]).Plain := by
    refine .object fun member mem => ?_
    simp only [List.mem_cons, List.not_mem_nil, or_false] at mem
    rcases mem with rfl | rfl
    · exact .text kind
    · rw [partsToJson_eq]
      refine .list fun item mem => ?_
      obtain ⟨p, here, rfl⟩ := List.mem_map.1 mem
      exact each p here
  induction s with
  | invocation call =>
    refine .object fun member mem => ?_
    simp only [List.mem_cons, List.not_mem_nil, or_false] at mem
    rcases mem with rfl | rfl | rfl | rfl | rfl
    · exact .text _
    · exact .text _
    · exact Value.plain_texts call.arguments
    · cases call.result with
      | none => exact .null
      | some key => exact .text key
    · cases call.timeout with
      | none => exact .null
      | some d => exact d.plain_toJson
  | sequence elements ih => exact block ih
  | parallel branches ih => exact block ih
  | noop =>
    refine .object fun member mem => ?_
    obtain rfl := List.mem_singleton.1 mem
    exact .text _

namespace Workflow

theorem plain_jsonWith (workflow : Workflow) (entries : List (String × String)) :
    (workflow.jsonWith entries).Plain := by
  refine .object fun member mem => ?_
  simp only [List.mem_cons, List.not_mem_nil, or_false] at mem
  rcases mem with rfl | rfl | rfl | rfl
  · exact .text workflow.id
  · exact .text workflow.name
  · exact Value.plain_entries entries
  · exact workflow.root.plain_toJson

/-- The runs of a workflow one after another on one host, with more variables laid over its own. -/
def answer (extra : List (String × String)) (setting : Setting) (cancellation : Cancellation)
    (times : Nat) (workflow : Workflow) : List Run :=
  { workflow with seed := workflow.seed.insertAll extra }.runRepeatedly setting cancellation times []

/-- Every workflow that nests at most as deep as texts may is read back from its JSON. What a definition
in JSON is resolved to never nests deeper, so running it from its own JSON answers the same as running it
from the definition. -/
theorem ofJson_inverts_json :
    (∀ (workflow : Workflow) (entries : List (String × String)), entries.Perm workflow.seed.toList →
      (workflow.jsonWith entries).depth ≤ 127 →
      ∀ text ∈ (workflow.jsonWith entries).printings, ofJson text = .ok workflow) ∧
    (∀ (text : String) (definition : Authored.Workflow) (made : Workflow),
      Authored.Workflow.ofJson text = .ok definition → definition.resolve = .ok made →
      ∀ entries : List (String × String), entries.Perm made.seed.toList →
        (made.jsonWith entries).depth ≤ 127 ∧
        ∀ printed ∈ (made.jsonWith entries).printings, ∀ extra setting cancellation times,
          (ofJson printed).toOption.map (answer extra setting cancellation times) =
            ((Authored.Workflow.ofJson text).toOption.bind (·.resolve.toOption)).map
              (answer extra setting cancellation times)) := by
  have inverts (workflow : Workflow) (entries : List (String × String))
      (order : entries.Perm workflow.seed.toList) (within : (workflow.jsonWith entries).depth ≤ 127) :
      ∀ text ∈ (workflow.jsonWith entries).printings, ofJson text = .ok workflow := by
    intro text printed
    exact (workflow.plain_jsonWith entries).ofText_printings within
      (fun root shows => read_jsonWith order (depth_jsonWith_le.1 within) shows) printed
  refine ⟨inverts, fun text definition made accepted resolved entries order => ?_⟩
  have becomes := Authored.Statement.becomes_of_resolve (Authored.Workflow.root_of_resolve resolved).1
  have within : (made.jsonWith entries).depth ≤ 127 :=
    depth_jsonWith_le.2 (Authored.Workflow.depth_root_of_ofJson accepted becomes)
  refine ⟨within, fun printed mem extra setting cancellation times => ?_⟩
  rw [inverts made entries order within printed mem, accepted]
  simp [Except.toOption, resolved]

/-- A definition is read, resolved and printed, and what is printed is read. -/
theorem tidied_inverts_json : ∃ made, Authored.Workflow.tidied.resolve = .ok made ∧
    Authored.Workflow.ofJson Authored.Workflow.tidied.toJson.toText = .ok Authored.Workflow.tidied ∧
    made.toJson.depth ≤ 127 ∧ ∀ text ∈ made.toJson.printings, ofJson text = .ok made := by
  have accepted : Authored.Workflow.ofJson Authored.Workflow.tidied.toJson.toText =
      .ok Authored.Workflow.tidied := by
    rw [← Authored.Workflow.jsonWith_toList]
    exact (Authored.Workflow.tidied.plain_jsonWith _).ofText_printings (by decide)
      (fun root shows => Authored.Workflow.read_jsonWith (.refl _) le_rfl shows) List.mem_cons_self
  obtain ⟨made, resolved⟩ : ∃ made, Authored.Workflow.tidied.resolve = .ok made := ⟨_, rfl⟩
  have within := (ofJson_inverts_json.2 _ _ made accepted resolved _ (.refl _)).1
  refine ⟨made, resolved, accepted, ?_⟩
  rw [← jsonWith_toList]
  exact ⟨within, ofJson_inverts_json.1 made _ (.refl _) within⟩

end Workflow

end FlowTree
