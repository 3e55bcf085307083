import FlowTree.Proofs.Definitions
import FlowTree.Proofs.Json.Fields
import FlowTree.Proofs.Json.Strictness

/-! The spelling of a definition in JSON. Its records may have their fields in any order, with unknown
fields among them, and the call of a statement has two names. -/

set_option autoImplicit false

namespace FlowTree

namespace Authored

open Json (Agree Cursor RecordsAgree Place Strict Tree Value agree_stored)
open Json.Cursor (agree_text agree_word agree_optional agree_list agree_store agree_record strict_text strict_word
  strict_optional strict_list strict_store strict_stored strict_record)

theorem Invocation.record_agree :
    RecordsAgree (Invocation.record Json.format) (Invocation.record Place.format) where
  entries := .cons ⟨rfl, rfl, rfl, rfl, fun _ => agree_stored agree_text _⟩
    (.cons ⟨rfl, rfl, rfl, rfl, fun _ => agree_stored (agree_list agree_text) _⟩
    (.cons ⟨rfl, rfl, rfl, rfl, fun _ => agree_stored (agree_optional agree_text) _⟩
    (.cons ⟨rfl, rfl, rfl, rfl, fun _ => agree_stored (agree_optional agree_word) _⟩ .nil)))
  blank := rfl
  finish := rfl
  closed := rfl

theorem partsRecord_agree (title name : String) {part : Cursor → Except Json.Fault Statement}
    {part' : Place → Option Statement} (agree : Agree part part') :
    RecordsAgree (partsRecord Json.format title name part) (partsRecord Place.format title name part') where
  entries := .cons ⟨rfl, rfl, rfl, rfl, fun _ => agree_stored (agree_list agree) _⟩ .nil
  blank := rfl
  finish := rfl
  closed := rfl

theorem Statement.record_agree {part : Cursor → Except Json.Fault Statement}
    {part' : Place → Option Statement} (agree : Agree part part') :
    RecordsAgree (Statement.record Json.format part) (Statement.record Place.format part') where
  entries :=
    have call := agree_optional (agree_record Invocation.record_agree)
    have block (title name : String) := agree_optional (agree_record (partsRecord_agree title name agree))
    .cons ⟨rfl, rfl, rfl, rfl, fun _ => agree_stored call _⟩
    (.cons ⟨rfl, rfl, rfl, rfl, fun _ => agree_stored (block _ _) _⟩
    (.cons ⟨rfl, rfl, rfl, rfl, fun _ => agree_stored (block _ _) _⟩ .nil))
  blank := rfl
  finish := rfl
  closed := rfl

theorem Statement.read_agree (depth : Nat) :
    Agree (Statement.read Json.format depth) (Statement.read Place.format depth) := by
  induction depth with
  | zero => exact fun _ _ _ => rfl
  | succ depth ih => exact agree_record (Statement.record_agree ih)

theorem Workflow.record_agree :
    RecordsAgree (Workflow.record Json.format) (Workflow.record Place.format) where
  entries := .cons ⟨rfl, rfl, rfl, rfl, fun _ => agree_stored (agree_optional agree_text) _⟩
    (.cons ⟨rfl, rfl, rfl, rfl, fun _ => agree_stored (agree_optional agree_text) _⟩
    (.cons ⟨rfl, rfl, rfl, rfl, fun _ => agree_stored agree_store _⟩
    (.cons ⟨rfl, rfl, rfl, rfl, fun _ => agree_stored (Statement.read_agree _) _⟩ .nil)))
  blank := rfl
  finish := rfl
  closed := rfl

theorem Workflow.read_agree : Agree (Workflow.read Json.format) (Workflow.read Place.format) :=
  agree_record Workflow.record_agree

theorem Invocation.read_strict : Strict (Cursor.record (Invocation.record Json.format)) :=
  strict_record (List.forall_mem_cons.2 ⟨fun _ => strict_stored strict_text _,
    List.forall_mem_cons.2 ⟨fun _ => strict_stored (strict_list strict_text) _,
    List.forall_mem_cons.2 ⟨fun _ => strict_stored (strict_optional strict_text) _,
    List.forall_mem_singleton.2 fun _ => strict_stored (strict_optional strict_word) _⟩⟩⟩)

theorem partsRecord_strict (title name : String) {part : Cursor → Except Json.Fault Statement}
    (strict : Strict part) : Strict (Cursor.record (partsRecord Json.format title name part)) :=
  strict_record (List.forall_mem_singleton.2 fun _ => strict_stored (strict_list strict) _)

theorem Statement.read_strict (depth : Nat) : Strict (Statement.read Json.format depth) := by
  induction depth with
  | zero => rintro cursor statement ⟨⟩
  | succ depth ih =>
    have call := strict_optional Invocation.read_strict
    have block (title name : String) := strict_optional (partsRecord_strict title name ih)
    exact strict_record (List.forall_mem_cons.2 ⟨fun _ => strict_stored call _,
      List.forall_mem_cons.2 ⟨fun _ => strict_stored (block _ _) _,
      List.forall_mem_singleton.2 fun _ => strict_stored (block _ _) _⟩⟩)

theorem Workflow.read_strict : Strict (Workflow.read Json.format) :=
  strict_record (List.forall_mem_cons.2 ⟨fun _ => strict_stored (strict_optional strict_text) _,
    List.forall_mem_cons.2 ⟨fun _ => strict_stored (strict_optional strict_text) _,
    List.forall_mem_cons.2 ⟨fun _ => strict_stored strict_store _,
    List.forall_mem_singleton.2 fun _ => strict_stored (Statement.read_strict _) _⟩⟩⟩)

inductive Kind where
  | workflow | statement | invocation | sequence | parallel
  /-- The parts of a sequence or of a parallel block. -/
  | statements
  /-- A text, a number or a map of variables. -/
  | plain
  deriving DecidableEq

namespace Kind

def fields : Kind → List (String × Kind)
  | workflow => [("workflow_id", plain), ("name", plain), ("variables", plain), ("root", statement)]
  | statement =>
    [("invocation", invocation), ("activity", invocation), ("sequence", sequence), ("parallel", parallel)]
  | invocation => [("name", plain), ("arguments", plain), ("result", plain), ("timeout_ms", plain)]
  | sequence => [("elements", statements)]
  | parallel => [("branches", statements)]
  | statements | plain => []

def field? (kind : Kind) (key : String) : Option Kind := kind.fields.lookup key

def isRecord : Kind → Bool
  | statements | plain => false
  | _ => true

end Kind

inductive Respells : Kind → Tree → Tree → Prop where
  | refl (kind : Kind) (tree : Tree) : Respells kind tree tree
  | trans {kind : Kind} {tree tree' tree'' : Tree} (first : Respells kind tree tree')
    (second : Respells kind tree' tree'') : Respells kind tree tree''
  /-- The fields of a record stand in another order. -/
  | permute {kind : Kind} {fields fields' : List (Option String × Tree)} (record : kind.isRecord)
    (order : fields.Perm fields') : Respells kind (.object fields) (.object fields')
  | activity (before after : List (Option String × Tree)) (tree : Tree) :
    Respells .statement (.object (before ++ (some "invocation", tree) :: after))
      (.object (before ++ (some "activity", tree) :: after))
  | invocation (before after : List (Option String × Tree)) (tree : Tree) :
    Respells .statement (.object (before ++ (some "activity", tree) :: after))
      (.object (before ++ (some "invocation", tree) :: after))
  /-- A field that a record does not know holds anything. -/
  | unknown {kind : Kind} {key : String} (record : kind.isRecord) (unknown : kind.field? key = none)
    (before after : List (Option String × Tree)) (tree : Tree) :
    Respells kind (.object (before ++ after)) (.object (before ++ (some key, tree) :: after))
  /-- A part of a record is spelled in another way. -/
  | field {kind kind' : Kind} {key : String} {tree tree' : Tree} (known : kind.field? key = some kind')
    (respells : Respells kind' tree tree') (before after : List (Option String × Tree)) :
    Respells kind (.object (before ++ (some key, tree) :: after))
      (.object (before ++ (some key, tree') :: after))
  | item {tree tree' : Tree} (respells : Respells .statement tree tree') (before after : List Tree) :
    Respells .statements (.list (before ++ tree :: after)) (.list (before ++ tree' :: after))

/-- A statement within a definition names its call twice. -/
inductive Doubles : Kind → Tree → Prop where
  | both {fields : List (Option String × Tree)} (invocation : some "invocation" ∈ fields.map Prod.fst)
    (activity : some "activity" ∈ fields.map Prod.fst) : Doubles .statement (.object fields)
  | field {kind kind' : Kind} {key : String} {tree : Tree} {fields : List (Option String × Tree)}
    (known : kind.field? key = some kind') (mem : (some key, tree) ∈ fields) (doubles : Doubles kind' tree) :
    Doubles kind (.object fields)
  | item {tree : Tree} {items : List Tree} (mem : tree ∈ items) (doubles : Doubles .statement tree) :
    Doubles .statements (.list items)

inductive Kind.Describes : Kind → {σ α : Type} → Record Option Place σ α → Prop where
  | workflow : Describes .workflow (Workflow.record Place.format)
  | statement (limit : Nat) :
    Describes .statement (Statement.record Place.format (Statement.read Place.format limit))
  | invocation : Describes .invocation (Invocation.record Place.format)
  | sequence (limit : Nat) : Describes .sequence
      (partsRecord Place.format "struct SequenceDef" "elements" (Statement.read Place.format limit))
  | parallel (limit : Nat) : Describes .parallel
      (partsRecord Place.format "struct ParallelDef" "branches" (Statement.read Place.format limit))

inductive Kind.Takes : Kind → {β : Type} → (Place → Option β) → Prop where
  | workflow : Takes .workflow (Workflow.read Place.format)
  | statement (limit : Nat) : Takes .statement (Statement.read Place.format limit)
  /-- The content of a statement, which may be null. -/
  | content {kind : Kind} {σ α : Type} {record : Record Option Place σ α}
    (describes : kind.Describes record) : Takes kind (Place.optional (Place.record record))
  | statements (limit : Nat) : Takes .statements (Place.list (Statement.read Place.format limit))
  | plain {β : Type} (take : Place → Option β) : Takes .plain take

namespace Kind.Describes

variable {kind kind' : Kind} {σ α : Type} {record : Record Option Place σ α} {key : String}

theorem keys_eq (describes : kind.Describes record) : record.keys = kind.fields.map Prod.fst := by
  cases describes <;> rfl

theorem lawful (describes : kind.Describes record) : record.Lawful := by
  cases describes with
  | workflow | invocation =>
    refine ⟨?_, ?_, rfl⟩ <;>
      simp only [Workflow.record, Invocation.record, List.forall_mem_cons, List.pairwise_cons,
        List.not_mem_nil, false_imp_iff, implies_true, and_true, List.Pairwise.nil]
    · refine ⟨?_, ?_, ?_, ?_⟩ <;> exact ⟨_, _, _, rfl, fun _ _ => rfl⟩
    · refine ⟨⟨?_, ?_, ?_⟩, ⟨?_, ?_⟩, ?_⟩ <;>
        refine Entry.Puts.apart (by exact ⟨rfl, fun _ _ => rfl⟩) (by exact ⟨rfl, fun _ _ => rfl⟩) ?_ ?_ ?_ <;>
        intros <;> rfl
  | statement limit =>
    refine ⟨?_, ?_, rfl⟩ <;>
      simp only [Statement.record, List.forall_mem_cons, List.pairwise_cons,
        List.not_mem_nil, false_imp_iff, implies_true, and_true, List.Pairwise.nil]
    · refine ⟨?_, ?_, ?_⟩ <;> exact ⟨_, _, _, rfl, fun _ _ => rfl⟩
    · refine ⟨⟨?_, ?_⟩, ?_⟩ <;>
        refine Entry.Puts.apart (by exact ⟨rfl, fun _ _ => rfl⟩) (by exact ⟨rfl, fun _ _ => rfl⟩) ?_ ?_ ?_ <;>
        intros <;> rfl
  | sequence limit | parallel limit =>
    refine ⟨List.forall_mem_singleton.2 ?_, List.pairwise_singleton _ _, rfl⟩
    exact ⟨_, _, _, rfl, fun _ _ => rfl⟩

theorem entry?_eq_none (describes : kind.Describes record) (unknown : kind.field? key = none) :
    record.entry? key = none := by
  refine Record.entry?_eq_none ?_
  rw [describes.keys_eq]
  exact NameMap.lookup_eq_none.1 unknown

theorem entry?_eq_some (describes : kind.Describes record) (known : kind.field? key = some kind') :
    ∃ entry, record.entry? key = some entry ∧
      ∃ (β : Type) (take : Place → Option β) (put : β → σ → σ),
        kind'.Takes take ∧ entry.Puts take put := by
  obtain ⟨before, after, fields, -⟩ := List.lookup_eq_some_iff.1 known
  have mem : (key, kind') ∈ kind.fields := by simp [fields]
  cases describes <;>
    simp only [Kind.fields, List.mem_cons, Prod.mk.injEq, List.not_mem_nil, or_false] at mem
  case workflow =>
    rcases mem with ⟨rfl, rfl⟩ | ⟨rfl, rfl⟩ | ⟨rfl, rfl⟩ | ⟨rfl, rfl⟩
    · exact ⟨_, rfl, _, _, _, .plain _, rfl, fun _ _ => rfl⟩
    · exact ⟨_, rfl, _, _, _, .plain _, rfl, fun _ _ => rfl⟩
    · exact ⟨_, rfl, _, _, _, .plain _, rfl, fun _ _ => rfl⟩
    · exact ⟨_, rfl, _, _, _, .statement _, rfl, fun _ _ => rfl⟩
  case statement =>
    rcases mem with ⟨rfl, rfl⟩ | ⟨rfl, rfl⟩ | ⟨rfl, rfl⟩ | ⟨rfl, rfl⟩
    · exact ⟨_, rfl, _, _, _, .content .invocation, rfl, fun _ _ => rfl⟩
    · exact ⟨_, rfl, _, _, _, .content .invocation, rfl, fun _ _ => rfl⟩
    · exact ⟨_, rfl, _, _, _, .content (.sequence _), rfl, fun _ _ => rfl⟩
    · exact ⟨_, rfl, _, _, _, .content (.parallel _), rfl, fun _ _ => rfl⟩
  case invocation =>
    rcases mem with ⟨rfl, rfl⟩ | ⟨rfl, rfl⟩ | ⟨rfl, rfl⟩ | ⟨rfl, rfl⟩ <;>
      exact ⟨_, rfl, _, _, _, .plain _, rfl, fun _ _ => rfl⟩
  case sequence | parallel =>
    obtain ⟨rfl, rfl⟩ := mem
    exact ⟨_, rfl, _, _, _, .statements _, rfl, fun _ _ => rfl⟩

end Kind.Describes

theorem Kind.isRecord_of_field? {kind kind' : Kind} {key : String} (known : kind.field? key = some kind') :
    kind.isRecord = true := by
  cases kind with
  | statements | plain => cases known
  | _ => rfl

structure Alike (kind : Kind) (tree tree' : Tree) : Prop where
  null : tree = .null ↔ tree' = .null
  take : ∀ {β : Type} {take : Place → Option β}, kind.Takes take →
    ∀ depth, take ⟨depth, tree⟩ = take ⟨depth, tree'⟩

section Objects

variable {kind kind' : Kind} {fields fields' : List (Option String × Tree)} {key : String} {tree tree' : Tree}

theorem Alike.of_objects (isRecord : kind.isRecord = true)
    (same : ∀ {σ α : Type} {record : Record Option Place σ α}, kind.Describes record →
      ∀ depth, Place.record record ⟨depth, .object fields⟩ =
        Place.record record ⟨depth, .object fields'⟩) :
    Alike kind (.object fields) (.object fields') where
  null := by simp
  take takes depth := by
    cases takes with
    | workflow => exact same .workflow depth
    | statement limit =>
      cases limit with
      | zero => rfl
      | succ limit => exact same (.statement limit) depth
    | content describes => exact congrArg (Option.map some) (same describes depth)
    | statements => rfl
    | plain => cases isRecord

theorem Alike.permute (isRecord : kind.isRecord = true) (order : fields.Perm fields') :
    Alike kind (.object fields) (.object fields') :=
  .of_objects isRecord fun describes _ => Place.record_perm describes.lawful order

theorem Alike.renamed (before after : List (Option String × Tree)) (tree : Tree) :
    Alike .statement (.object (before ++ (some "invocation", tree) :: after))
      (.object (before ++ (some "activity", tree) :: after)) := by
  refine .of_objects rfl fun describes depth => ?_
  cases describes with
  | statement limit => exact Place.record_congr fun _ _ => rfl

theorem Alike.unknown (isRecord : kind.isRecord = true) (unknown : kind.field? key = none)
    (before after : List (Option String × Tree)) (tree : Tree) :
    Alike kind (.object (before ++ after)) (.object (before ++ (some key, tree) :: after)) :=
  .of_objects isRecord fun describes _ =>
    (Place.record_unknown describes.lawful (describes.entry?_eq_none unknown) tree).symm

theorem Alike.field (known : kind.field? key = some kind') (alike : Alike kind' tree tree')
    (before after : List (Option String × Tree)) :
    Alike kind (.object (before ++ (some key, tree) :: after))
      (.object (before ++ (some key, tree') :: after)) := by
  refine .of_objects (Kind.isRecord_of_field? known) fun describes _ => ?_
  refine Place.record_congr fun depth parts => ?_
  obtain ⟨entry, found, _, take, put, takes, puts⟩ := describes.entry?_eq_some known
  simp only [Place.readField_known found, puts.read, alike.take takes]

theorem Alike.item (alike : Alike .statement tree tree') (before after : List Tree) :
    Alike .statements (.list (before ++ tree :: after)) (.list (before ++ tree' :: after)) where
  null := by simp
  take takes depth := by
    cases takes with
    | content describes => cases describes
    | statements limit =>
      simp only [Place.list, Place.enter, List.mapM_append, List.mapM_cons, alike.take (.statement limit)]

end Objects

theorem Respells.alike {kind : Kind} {tree tree' : Tree} (respells : Respells kind tree tree') :
    Alike kind tree tree' := by
  induction respells with
  | refl => exact ⟨.rfl, fun _ _ => rfl⟩
  | trans _ _ first second =>
    exact ⟨first.null.trans second.null,
      fun takes depth => (first.take takes depth).trans (second.take takes depth)⟩
  | permute isRecord order => exact .permute isRecord order
  | activity before after tree => exact .renamed before after tree
  | invocation before after tree =>
    have alike := Alike.renamed before after tree
    exact ⟨alike.null.symm, fun takes depth => (alike.take takes depth).symm⟩
  | unknown isRecord unknown before after tree => exact .unknown isRecord unknown before after tree
  | field known _ before after ih => exact .field known ih before after
  | item _ before after ih => exact .item ih before after

structure Refused (kind : Kind) (tree : Tree) : Prop where
  null : tree ≠ .null
  take : ∀ {β : Type} {take : Place → Option β}, kind.Takes take →
    ∀ depth, take ⟨depth, tree⟩ = none

theorem Refused.of_object {kind : Kind} {fields : List (Option String × Tree)}
    (isRecord : kind.isRecord = true)
    (refused : ∀ {σ α : Type} {record : Record Option Place σ α}, kind.Describes record →
      ∀ depth, fields.foldlM (Place.readField record depth) record.blank = none) :
    Refused kind (.object fields) where
  null := by simp
  take takes depth := by
    have whole {σ α : Type} {record : Record Option Place σ α} (describes : kind.Describes record)
        (depth : Nat) : Place.record record ⟨depth, .object fields⟩ = none := by
      simp only [Place.record, refused describes]
      cases Place.enter ⟨depth, .object fields⟩ <;> rfl
    cases takes with
    | workflow => exact whole .workflow depth
    | statement limit =>
      cases limit with
      | zero => rfl
      | succ limit => exact whole (.statement limit) depth
    | content describes => exact congrArg (Option.map some) (whole describes depth)
    | statements => rfl
    | plain => cases isRecord

theorem exists_perm_pair {fields : List (Option String × Tree)} {key key' : Option String}
    (apart : key ≠ key') (mem : key ∈ fields.map Prod.fst) (mem' : key' ∈ fields.map Prod.fst) :
    ∃ tree tree' rest, fields.Perm ((key, tree) :: (key', tree') :: rest) := by
  obtain ⟨⟨key, tree⟩, here, rfl⟩ := List.mem_map.1 mem
  obtain ⟨before, after, rfl⟩ := List.append_of_mem here
  have order := @List.perm_middle _ (key, tree) before after
  have there : key' ∈ (before ++ after).map Prod.fst :=
    (List.mem_cons.1 ((order.map Prod.fst).mem_iff.1 mem')).resolve_left apart.symm
  obtain ⟨⟨key', tree'⟩, here', rfl⟩ := List.mem_map.1 there
  obtain ⟨before', after', split⟩ := List.append_of_mem here'
  refine ⟨tree, tree', before' ++ after', order.trans (.cons _ ?_)⟩
  rw [split]
  exact List.perm_middle

theorem Refused.both {fields : List (Option String × Tree)}
    (invocation : some "invocation" ∈ fields.map Prod.fst)
    (activity : some "activity" ∈ fields.map Prod.fst) : Refused .statement (.object fields) := by
  refine .of_object rfl fun describes depth => ?_
  obtain ⟨tree, tree', rest, order⟩ := exists_perm_pair (by decide) invocation activity
  rw [Place.foldlM_perm (Place.readField_comm describes.lawful) order, List.foldlM_cons]
  simp only [List.foldlM_cons, ← bind_assoc]
  cases describes with
  | statement limit =>
    have twice := Kind.Describes.lawful (.statement limit)
    rw [Place.readField_twice twice rfl rfl]
    rfl

theorem foldlM_eq_none {γ σ : Type} {step : σ → γ → Option σ} {items : List γ} {item : γ}
    (mem : item ∈ items) (refused : ∀ parts, step parts item = none) (parts : σ) :
    items.foldlM step parts = none := by
  obtain ⟨before, after, rfl⟩ := List.append_of_mem mem
  simp only [List.foldlM_append, List.foldlM_cons, refused]
  exact Option.bind_fun_none _

theorem Refused.field {kind kind' : Kind} {key : String} {tree : Tree} {fields : List (Option String × Tree)}
    (known : kind.field? key = some kind') (mem : (some key, tree) ∈ fields) (refused : Refused kind' tree) :
    Refused kind (.object fields) := by
  refine .of_object (Kind.isRecord_of_field? known) fun describes depth => ?_
  refine foldlM_eq_none mem (fun parts => ?_) _
  obtain ⟨entry, found, _, take, put, takes, puts⟩ := describes.entry?_eq_some known
  simp only [Place.readField_known found, puts.read, refused.take takes]
  exact ite_self _

theorem Refused.item {tree : Tree} {items : List Tree} (mem : tree ∈ items)
    (refused : Refused .statement tree) : Refused .statements (.list items) where
  null := by simp
  take takes depth := by
    cases takes with
    | content describes => cases describes
    | statements limit =>
      obtain ⟨before, after, rfl⟩ := List.append_of_mem mem
      simp only [Place.list, List.mapM_append, List.mapM_cons, refused.take (.statement limit)]
      cases Place.enter ⟨depth, .list (before ++ tree :: after)⟩ with
      | none => rfl
      | some depth => exact Option.bind_fun_none _

theorem Doubles.refused {kind : Kind} {tree : Tree} (doubles : Doubles kind tree) : Refused kind tree := by
  induction doubles with
  | both invocation activity => exact .both invocation activity
  | field known mem _ ih => exact .field known mem ih
  | item mem _ ih => exact .item mem ih

namespace Workflow

theorem ofJson_eq_ok {tree : Tree} {text : String} (spelled : tree.Spelled text) {workflow : Workflow} :
    ofJson text = .ok workflow ↔ read Place.format ⟨128, tree⟩ = some workflow := by
  rw [← toOption_eq_some, ofJson, spelled.toOption_ofText read_agree]

/-- A text that is accepted has a form, and all spellings of it are accepted as the same definition. A text
with a statement that names its call twice is refused. -/
theorem ofJson_respelled :
    (∀ (text : String) (workflow : Workflow), ofJson text = .ok workflow →
      (∃ tree : Tree, tree.Spelled text) ∧
      ∀ (tree tree' : Tree) (text' : String), tree.Spelled text → Respells .workflow tree tree' →
        tree'.Spelled text' → ofJson text' = .ok workflow) ∧
    ∀ (tree : Tree) (text : String), tree.Spelled text → Doubles .workflow tree →
      ∀ workflow, ofJson text ≠ .ok workflow := by
  refine ⟨fun text workflow accepted => ⟨read_strict.spelled accepted, ?_⟩, ?_⟩
  · intro tree tree' text' spelled respells spelled'
    rw [ofJson_eq_ok spelled] at accepted
    rw [ofJson_eq_ok spelled', ← respells.alike.take .workflow, accepted]
  · intro tree text spelled doubles workflow accepted
    rw [ofJson_eq_ok spelled, doubles.refused.take .workflow] at accepted
    cases accepted

def single : Workflow where
  root := { invocation := some { name := "f", arguments := ["a"] } }

/-- The fields of the definition and of its call in another order, the call under its other name, and an
unknown field in the statement. -/
def singleRespelled : Value :=
  .object [
    ("root", .object [
      ("note", .list [.null]),
      ("activity", .object [("arguments", .texts ["a"]), ("name", .text "f")])]),
    ("variables", .object [])]

def singleDoubled : Value :=
  .object [("root", .object [("invocation", .null), ("activity", .object [("name", .text "f")])])]

theorem respells_single : Respells .workflow single.toJson.tree singleRespelled.tree := by
  have call := @Respells.permute .invocation _ _ rfl (.swap (some "arguments", (Value.texts ["a"]).tree)
    (some "name", (Value.text "f").tree) [])
  have invoked : Kind.field? .statement "invocation" = some .invocation := rfl
  have noted : Kind.field? .statement "note" = none := rfl
  have statement := ((Respells.field invoked call [] []).trans (.activity [] [] _)).trans
    (.unknown rfl noted [] [_] (.list [.null]))
  have root : Kind.field? .workflow "root" = some .statement := rfl
  exact (Respells.permute rfl (.swap _ _ [])).trans (.field root statement [] [_])

theorem plain_singleRespelled : singleRespelled.Plain := by
  have seed : (Value.object []).Plain := Value.plain_entries []
  have note : (Value.list [.null]).Plain := .list (List.forall_mem_singleton.2 .null)
  have call : (Value.object [("arguments", .texts ["a"]), ("name", .text "f")]).Plain :=
    .object (List.forall_mem_cons.2 ⟨Value.plain_texts _, List.forall_mem_singleton.2 (.text _)⟩)
  have root : (Value.object [("note", .list [.null]), ("activity", .object [("arguments", .texts ["a"]),
      ("name", .text "f")])]).Plain :=
    .object (List.forall_mem_cons.2 ⟨note, List.forall_mem_singleton.2 call⟩)
  exact .object (List.forall_mem_cons.2 ⟨root, List.forall_mem_singleton.2 seed⟩)

theorem plain_singleDoubled : singleDoubled.Plain := by
  have call : (Value.object [("name", .text "f")]).Plain := .object (List.forall_mem_singleton.2 (.text _))
  refine .object (List.forall_mem_singleton.2 ?_)
  exact .object (List.forall_mem_cons.2 ⟨.null, List.forall_mem_singleton.2 call⟩)

theorem ofJson_singleRespelled : ofJson singleRespelled.toText = .ok single ∧
    ∀ workflow, ofJson singleDoubled.toText ≠ .ok workflow := by
  have printed (value : Value) : value.toText ∈ value.printings := List.mem_cons_self
  have spelled := (single.plain_jsonWith []).spelled_printings (printed _)
  have order : List.Perm [] single.seed.toList := .refl _
  have accepted := single.ofJson_printings order (by decide) _ (printed _)
  exact ⟨(ofJson_respelled.1 _ single accepted).2 _ _ _ spelled respells_single
      (plain_singleRespelled.spelled_printings (printed _)),
    ofJson_respelled.2 _ _ (plain_singleDoubled.spelled_printings (printed _))
      (.field rfl List.mem_cons_self (.both (by decide) (by decide)))⟩

end Workflow

end Authored

end FlowTree
