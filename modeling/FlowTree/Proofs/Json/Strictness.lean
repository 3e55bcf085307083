import FlowTree.Proofs.Json.Building
import FlowTree.Proofs.Json.Cursors

/-! What a reader accepts is well formed, so a text that is accepted is a text of some form. -/

set_option autoImplicit false

namespace FlowTree

namespace Json

/-- Induction in which a list or an object has the hypothesis for each of its parts. -/
@[induction_eliminator]
theorem Node.induction {motive : Node → Prop} (null : ∀ start stop, motive (.null start stop))
    (boolean : ∀ start stop b, motive (.boolean start stop b))
    (number : ∀ start stop value, motive (.number start stop value))
    (text : ∀ start stop value, motive (.text start stop value))
    (list : ∀ start items ending, (∀ item ∈ items, motive item) → motive (.list start items ending))
    (object : ∀ start fields ending, (∀ field ∈ fields, motive field.value) →
      motive (.object start fields ending))
    (brokenText : ∀ start defect, motive (.brokenText start defect))
    (broken : ∀ start defect, motive (.broken start defect)) (node : Node) : motive node :=
  @Node.rec motive (fun field => motive field.value) (fun items => ∀ item ∈ items, motive item)
    (fun fields => ∀ field ∈ fields, motive field.value)
    null boolean number text list object brokenText broken (fun _ _ _ _ _ value => value)
    (List.forall_mem_nil _) (fun _ _ head tail => List.forall_mem_cons.2 ⟨head, tail⟩)
    (List.forall_mem_nil _) (fun _ _ head tail => List.forall_mem_cons.2 ⟨head, tail⟩) node

def Node.HasForm (node : Node) : Prop := ∃ tree, node.tree? = some tree

theorem Ending.eq_of_skippedList {ending : Ending} (ended : ending.skippedList = .ok ()) :
    ∃ stop, ending = .closed stop := by
  cases ending with
  | closed stop => exact ⟨stop, rfl⟩
  | _ => cases ended

theorem Ending.eq_of_skippedObject {ending : Ending} (ended : ending.skippedObject = .ok ()) :
    ∃ stop, ending = .closed stop := by
  cases ending with
  | closed stop => exact ⟨stop, rfl⟩
  | _ => cases ended

theorem Node.hasForm_list {start stop : Nat} {nodes : List Node} (each : ∀ node ∈ nodes, node.HasForm) :
    (Node.list start nodes (.closed stop)).HasForm := by
  have forms : ∃ items, List.Forall₂ (fun node item => Node.tree? node = some item) nodes items := by
    induction nodes with
    | nil => exact ⟨[], .nil⟩
    | cons node nodes ih =>
      obtain ⟨⟨tree, form⟩, others⟩ := List.forall_mem_cons.1 each
      obtain ⟨items, rest⟩ := ih others
      exact ⟨tree :: items, .cons form rest⟩
  obtain ⟨items, forms⟩ := forms
  exact ⟨_, tree?_list forms start stop⟩

theorem Node.hasForm_object {start stop : Nat} {fields : List Field}
    (each : ∀ field ∈ fields, field.value.HasForm) : (Node.object start fields (.closed stop)).HasForm := by
  have forms : ∃ parts, List.Forall₂ Field.Bears fields parts := by
    induction fields with
    | nil => exact ⟨[], .nil⟩
    | cons field fields ih =>
      obtain ⟨⟨tree, form⟩, others⟩ := List.forall_mem_cons.1 each
      obtain ⟨parts, rest⟩ := ih others
      exact ⟨(field.key.toOption, tree) :: parts, .cons ⟨rfl, form⟩ rest⟩
  obtain ⟨parts, forms⟩ := forms
  exact ⟨_, tree?_object forms start stop⟩

theorem forall_of_skipItems {nodes : List Node} (skipped : skipItems nodes = .ok ()) :
    ∀ node ∈ nodes, node.skip = .ok () := by
  induction nodes with
  | nil => exact List.forall_mem_nil _
  | cons node nodes ih =>
    rw [skipItems] at skipped
    obtain ⟨_, head, tail⟩ := bind_eq_ok.1 skipped
    exact List.forall_mem_cons.2 ⟨head, ih tail⟩

theorem forall_of_skipFields {fields : List Field} (skipped : skipFields fields = .ok ()) :
    ∀ field ∈ fields, field.value.skip = .ok () := by
  induction fields with
  | nil => exact List.forall_mem_nil _
  | cons field fields ih =>
    obtain ⟨key, stop, refused, node, next⟩ := field
    rw [skipFields] at skipped
    obtain ⟨_, head, tail⟩ := bind_eq_ok.1 skipped
    exact List.forall_mem_cons.2 ⟨head, ih tail⟩

theorem Node.hasForm_of_skip {node : Node} (skipped : node.skip = .ok ()) : node.HasForm := by
  induction node with
  | list start items ending ih =>
    rw [skip] at skipped
    obtain ⟨_, each, ended⟩ := bind_eq_ok.1 skipped
    obtain ⟨stop, rfl⟩ := Ending.eq_of_skippedList ended
    exact hasForm_list fun item mem => ih item mem (forall_of_skipItems each item mem)
  | object start fields ending ih =>
    rw [skip] at skipped
    obtain ⟨_, each, ended⟩ := bind_eq_ok.1 skipped
    obtain ⟨stop, rfl⟩ := Ending.eq_of_skippedObject ended
    exact hasForm_object fun field mem => ih field mem (forall_of_skipFields each field mem)
  | brokenText | broken => cases skipped
  | _ => exact ⟨_, rfl⟩

def Strict {α : Type} (read : Cursor → Except Fault α) : Prop :=
  ∀ cursor a, read cursor = .ok a → cursor.node.HasForm

namespace Cursor

variable {σ α : Type}

theorem strict_text : Strict text := by
  rintro ⟨depth, node⟩ s read
  cases node with
  | text => exact ⟨_, rfl⟩
  | _ => cases read

theorem strict_word : Strict word := by
  rintro ⟨depth, node⟩ n read
  cases node with
  | number => exact ⟨_, rfl⟩
  | _ => cases read

theorem strict_optional {read : Cursor → Except Fault α} (strict : Strict read) : Strict (optional read) := by
  rintro ⟨depth, node⟩ a taken
  cases node with
  | null => exact ⟨_, rfl⟩
  | _ =>
    obtain ⟨b, taken, -⟩ := map_eq_ok.1 taken
    exact strict _ _ taken

theorem strict_list {read : Cursor → Except Fault α} (strict : Strict read) : Strict (list read) := by
  rintro ⟨depth, node⟩ as taken
  cases node with
  | list start items ending =>
    obtain ⟨inner, -, taken⟩ := bind_eq_ok.1 taken
    obtain ⟨values, mapped, taken⟩ := bind_eq_ok.1 taken
    obtain ⟨stop, ended, -⟩ := bind_eq_ok.1 taken
    cases Ending.eq_of_wantedList ended
    refine Node.hasForm_list fun node mem => ?_
    obtain ⟨a, -, taken⟩ := exists_of_forall₂ (mapM_eq_ok.1 mapped).flip mem
    exact strict _ a taken
  | _ => cases taken

theorem forall_of_fields {read : Cursor → Except Fault α} (strict : Strict read) {depth : Nat}
    {parts : List Field} {entries : List (String × α)} (taken : fields read depth parts = .ok entries) :
    ∀ field ∈ parts, field.value.HasForm := by
  induction parts generalizing entries with
  | nil => exact List.forall_mem_nil _
  | cons field rest ih =>
    rw [fields] at taken
    obtain ⟨key, -, taken⟩ := bind_eq_ok.1 taken
    obtain ⟨a, head, taken⟩ := bind_eq_ok.1 taken
    obtain ⟨others, tail, -⟩ := bind_eq_ok.1 taken
    exact List.forall_mem_cons.2 ⟨strict _ a head, ih tail⟩

theorem strict_store : Strict store := by
  rintro ⟨depth, node⟩ s taken
  cases node with
  | object start parts ending =>
    obtain ⟨inner, -, taken⟩ := bind_eq_ok.1 taken
    obtain ⟨entries, read, taken⟩ := bind_eq_ok.1 taken
    obtain ⟨stop, ended, -⟩ := bind_eq_ok.1 taken
    cases Ending.eq_of_wantedObject ended
    exact Node.hasForm_object (forall_of_fields strict_text read)
  | _ => cases taken

theorem strict_stored {β : Type} {read : Cursor → Except Fault α} (strict : Strict read) (store : α → β) :
    Strict (fun cursor => do return store (← read cursor)) := by
  intro cursor b stored
  obtain ⟨a, taken, -⟩ := bind_eq_ok.1 stored
  exact strict cursor a taken

variable {record : Record (Except Fault) Cursor σ α}

/-- A field that the record does not know is passed over, and every other one is read. -/
theorem forall_of_recordFields (each : ∀ entry ∈ record.entries, ∀ parts, Strict (entry.read · parts))
    {depth : Nat} {ending : Ending} {fields : List Field} {parts last : σ}
    (read : recordFields record depth ending fields parts = .ok last) :
    ∀ field ∈ fields, field.value.HasForm := by
  induction fields generalizing parts with
  | nil => exact List.forall_mem_nil _
  | cons field rest ih =>
    rw [recordFields] at read
    obtain ⟨key, -, read⟩ := bind_eq_ok.1 read
    cases found : record.entry? key with
    | none =>
      simp only [found] at read
      cases closed : record.closed with
      | true => simp [closed, bind, Except.bind] at read
      | false =>
        simp only [closed, Bool.false_eq_true, if_false] at read
        obtain ⟨_, skipped, read⟩ := bind_eq_ok.1 read
        exact List.forall_mem_cons.2 ⟨Node.hasForm_of_skip skipped, ih read⟩
    | some entry =>
      have known : entry ∈ record.entries := List.mem_of_find?_eq_some found
      simp only [found] at read
      split at read
      · cases read
      · split at read
        · next next taken => exact List.forall_mem_cons.2 ⟨each entry known parts _ next taken, ih read⟩
        · cases read

theorem forall_of_recordItems {title : String} {depth : Nat} {ending : Ending}
    {entries : List (Entry (Except Fault) Cursor σ)}
    (each : ∀ entry ∈ entries, ∀ parts, Strict (entry.read · parts))
    {index : Nat} {items : List Node} {parts last : σ} {stop : Nat}
    (read : recordItems title depth ending index entries items parts = .ok (last, stop)) :
    (∀ item ∈ items, item.HasForm) ∧ ∃ stop, ending = .closed stop := by
  induction entries generalizing index items parts with
  | nil =>
    rw [recordItems] at read
    obtain ⟨end', ended, -⟩ := map_eq_ok.1 read
    unfold endOfList at ended
    split at ended
    · cases ended
    · cases ended
    · cases ended
    · exact ⟨List.forall_mem_nil _, _, Ending.eq_of_wantedList ended⟩
  | cons entry entries ih =>
    obtain ⟨first, others⟩ := List.forall_mem_cons.1 each
    cases items with
    | nil =>
      rw [recordItems] at read
      obtain ⟨end', ended, -⟩ := bind_eq_ok.1 read
      exact ⟨List.forall_mem_nil _, _, Ending.eq_of_wantedList ended⟩
    | cons node rest =>
      rw [recordItems] at read
      split at read
      · next next taken =>
        obtain ⟨forms, closed⟩ := ih others read
        exact ⟨List.forall_mem_cons.2 ⟨first parts _ next taken, forms⟩, closed⟩
      · cases read

theorem strict_record (each : ∀ entry ∈ record.entries, ∀ parts, Strict (entry.read · parts)) :
    Strict (Cursor.record record) := by
  rintro ⟨depth, node⟩ a taken
  cases node with
  | object start fields ending =>
    obtain ⟨inner, -, taken⟩ := bind_eq_ok.1 taken
    obtain ⟨parts, gathered, taken⟩ := bind_eq_ok.1 taken
    obtain ⟨stop, ended, -⟩ := bind_eq_ok.1 taken
    cases Ending.eq_of_wantedObject ended
    exact Node.hasForm_object (forall_of_recordFields each gathered)
  | list start items ending =>
    obtain ⟨inner, -, taken⟩ := bind_eq_ok.1 taken
    obtain ⟨⟨parts, stop⟩, gathered, -⟩ := bind_eq_ok.1 taken
    obtain ⟨forms, stop, rfl⟩ := forall_of_recordItems each gathered
    exact Node.hasForm_list forms
  | _ => cases taken

end Cursor

theorem Strict.spelled {α : Type} {read : Cursor → Except Fault α} (strict : Strict read) {text : String}
    {a : α} (accepted : ofText read text = .ok a) : ∃ tree : Tree, tree.Spelled text := by
  rw [ofText, mapError_eq_ok] at accepted
  obtain ⟨b, taken, ended⟩ := bind_eq_ok.1 accepted
  obtain ⟨tree, form⟩ := strict _ b taken
  refine ⟨tree, Tree.spelled_iff.2 ⟨(Document.read text).root, ?_, form⟩⟩
  cases document : Document.read text with
  | mk root trailing =>
    rw [document] at ended
    cases trailing with
    | none => rfl
    | some start => cases ended

end Json

end FlowTree
