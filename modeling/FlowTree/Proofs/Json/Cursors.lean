import FlowTree.Json.Plain
import FlowTree.Proofs.Json.Trees
import FlowTree.Proofs.Maps
import FlowTree.Proofs.Results

/-! What readers get at a place in a tree that shows a value. A record is read from the members of an
object one by one; what it has gathered then depends on the members only. -/

set_option autoImplicit false

namespace FlowTree

namespace Json

theorem Ending.eq_of_wantedList {ending : Ending} {stop : Nat} (wanted : ending.wantedList = .ok stop) :
    ending = .closed stop := by
  cases ending <;> simp_all [wantedList]

theorem Ending.eq_of_wantedObject {ending : Ending} {stop : Nat}
    (wanted : ending.wantedObject = .ok stop) : ending = .closed stop := by
  cases ending <;> simp_all [wantedObject]

theorem Cursor.enter_eq_ok {cursor : Cursor} {inner : Nat} (entered : cursor.enter = .ok inner) :
    1 < cursor.depth ∧ inner = cursor.depth - 1 := by
  unfold enter at entered
  split at entered
  · cases entered
  · next deep =>
    cases entered
    exact ⟨Nat.lt_of_not_le deep, rfl⟩

def Cursor.Shows (cursor : Cursor) (value : Value) : Prop :=
  cursor.node.toValue cursor.depth = .ok value

theorem forall₂_of_toValues {depth : Nat} {nodes : List Node} {items : List Value}
    (values : toValues depth nodes = .ok items) :
    List.Forall₂ (fun node item => Cursor.Shows ⟨depth, node⟩ item) nodes items := by
  induction nodes generalizing items with
  | nil =>
    cases values
    exact .nil
  | cons node nodes ih =>
    rw [toValues, bind_eq_ok] at values
    obtain ⟨value, first, values⟩ := values
    obtain ⟨others, rest, same⟩ := bind_eq_ok.1 values
    cases pure_eq_ok.1 same
    exact .cons first (ih rest)

theorem forall₂_of_toMembers {depth : Nat} {fields : List Field} {members : List (String × Value)}
    (values : toMembers depth fields = .ok members) :
    List.Forall₂ (fun field member => field.key = .ok member.1 ∧
      Cursor.Shows ⟨depth, field.value⟩ member.2) fields members := by
  induction fields generalizing members with
  | nil =>
    cases values
    exact .nil
  | cons field fields ih =>
    obtain ⟨key, stop, refused, node, next⟩ := field
    rw [toMembers, bind_eq_ok] at values
    obtain ⟨name, named, values⟩ := values
    obtain ⟨value, first, values⟩ := bind_eq_ok.1 values
    obtain ⟨others, rest, same⟩ := bind_eq_ok.1 values
    cases pure_eq_ok.1 same
    exact .cons ⟨named, first⟩ (ih rest)

structure Cursor.ShowsAt (depth : Nat) (cursor : Cursor) (value : Value) : Prop where
  depth : cursor.depth = depth
  shows : cursor.Shows value

/-- What a node is from which a value has been taken out. -/
inductive Node.Form (depth : Nat) : Node → Value → Prop where
  | null (start stop : Nat) : Form depth (.null start stop) .null
  | boolean (start stop : Nat) (b : Bool) : Form depth (.boolean start stop b) (.boolean b)
  | number (start stop : Nat) (n : Number) : Form depth (.number start stop (.ok n)) (.number n)
  | text (start stop : Nat) (s : String) : Form depth (.text start stop (.ok s)) (.text s)
  | list (start stop : Nat) {nodes : List Node} {items : List Value} (deep : 1 < depth)
    (each : List.Forall₂ (fun node item => Cursor.Shows ⟨depth - 1, node⟩ item) nodes items) :
    Form depth (.list start nodes (.closed stop)) (.list items)
  | object (start stop : Nat) {fields : List Field} {members : List (String × Value)}
    (deep : 1 < depth)
    (each : List.Forall₂ (fun field member => field.key = .ok member.1 ∧
      Cursor.Shows ⟨depth - 1, field.value⟩ member.2) fields members) :
    Form depth (.object start fields (.closed stop)) (.object members)

namespace Cursor

variable {depth : Nat} {node : Node} {value : Value}

theorem enter_of_deep (deep : 1 < depth) : enter ⟨depth, node⟩ = .ok (depth - 1) := by
  simp [enter]
  omega

theorem Shows.form (shows : Shows ⟨depth, node⟩ value) : node.Form depth value := by
  unfold Shows at shows
  cases node with
  | null =>
    cases shows
    exact .null _ _
  | boolean =>
    cases shows
    exact .boolean _ _ _
  | number start stop number =>
    rw [Node.toValue] at shows
    obtain ⟨n, rfl, rfl⟩ := map_eq_ok.1 shows
    exact .number start stop n
  | text start stop text =>
    rw [Node.toValue] at shows
    obtain ⟨s, rfl, rfl⟩ := map_eq_ok.1 shows
    exact .text start stop s
  | list start nodes ending =>
    rw [Node.toValue, bind_eq_ok] at shows
    obtain ⟨inner, entered, shows⟩ := shows
    obtain ⟨items, values, shows⟩ := bind_eq_ok.1 shows
    obtain ⟨stop, ended, same⟩ := bind_eq_ok.1 shows
    obtain ⟨deep, rfl⟩ := enter_eq_ok entered
    cases Ending.eq_of_wantedList ended
    cases pure_eq_ok.1 same
    exact .list start stop deep (forall₂_of_toValues values)
  | object start fields ending =>
    rw [Node.toValue, bind_eq_ok] at shows
    obtain ⟨inner, entered, shows⟩ := shows
    obtain ⟨members, values, shows⟩ := bind_eq_ok.1 shows
    obtain ⟨stop, ended, same⟩ := bind_eq_ok.1 shows
    obtain ⟨deep, rfl⟩ := enter_eq_ok entered
    cases Ending.eq_of_wantedObject ended
    cases pure_eq_ok.1 same
    exact .object start stop deep (forall₂_of_toMembers values)
  | brokenText | broken => cases shows

theorem Shows.deep {members : List (String × Value)} (shows : Shows ⟨depth, node⟩ (.object members)) :
    1 < depth := by
  cases shows.form with
  | object start stop deep => exact deep

theorem Shows.text {s : String} (shows : Shows ⟨depth, node⟩ (.text s)) :
    Cursor.text ⟨depth, node⟩ = .ok s := by
  cases shows.form
  rfl

theorem Shows.word {n : Nat} (shows : Shows ⟨depth, node⟩ (.natural n)) :
    Cursor.word ⟨depth, node⟩ = .ok (UInt64.ofNat n) := by
  cases shows.form
  rfl

theorem Shows.optional {α : Type} {read : Cursor → Except Fault α} {a : α}
    (shows : Shows ⟨depth, node⟩ value) (some : value ≠ .null) (reads : read ⟨depth, node⟩ = .ok a) :
    Cursor.optional read ⟨depth, node⟩ = .ok (.some a) := by
  cases shows.form with
  | null => exact absurd rfl some
  | _ => simp [Cursor.optional, reads, Except.map]

theorem Shows.list {α : Type} {read : Cursor → Except Fault α} {as : List α} {write : α → Value}
    (shows : Shows ⟨depth, node⟩ (.list (as.map write)))
    (reads : ∀ a ∈ as, ∀ node, Shows ⟨depth - 1, node⟩ (write a) → read ⟨depth - 1, node⟩ = .ok a) :
    Cursor.list read ⟨depth, node⟩ = .ok as := by
  cases shows.form with
  | @list start stop nodes items deep each =>
    rw [List.forall₂_map_right_iff] at each
    have values : nodes.mapM (fun node => read ⟨depth - 1, node⟩) = .ok as :=
      mapM_eq_ok.2 (forall₂_of_mem each reads)
    simp [Cursor.list, enter_of_deep deep, values, Ending.wantedList, bind, Except.bind, pure,
      Except.pure]

theorem Shows.texts {names : List String} (shows : Shows ⟨depth, node⟩ (Value.texts names)) :
    Cursor.list Cursor.text ⟨depth, node⟩ = .ok names :=
  shows.list fun _ _ _ shown => shown.text

theorem fields_eq_ok {inner : Nat} {fields : List Field} {entries : List (String × String)}
    (each : List.Forall₂ (fun field (entry : String × String) => field.key = .ok entry.1 ∧
      Shows ⟨inner, field.value⟩ (.text entry.2)) fields entries) :
    Cursor.fields Cursor.text inner fields = .ok entries := by
  induction each with
  | nil => rfl
  | cons first _ ih =>
    simp [Cursor.fields, first.1, first.2.text, ih, bind, Except.bind, pure, Except.pure]

theorem Shows.store {entries : List (String × String)} {map : Store} (order : entries.Perm map.toList)
    (shows : Shows ⟨depth, node⟩ (.object (entries.map fun (name, value) => (name, .text value)))) :
    Cursor.store ⟨depth, node⟩ = .ok map := by
  generalize written : entries.map _ = members at shows
  cases shows.form with
  | @object start stop fields members deep each =>
    rw [← written, List.forall₂_map_right_iff] at each
    simp [Cursor.store, enter_of_deep deep, fields_eq_ok each, NameMap.ofList_of_perm order,
      Ending.wantedObject, bind, Except.bind, pure, Except.pure]

end Cursor

end Json

section Records

open Json (Fault Value)

variable {ν σ α : Type}

/-- Members that are read into a record one by one, from what the record has gathered before them to
what it has gathered after them. `shows` tells what a node is read as. -/
inductive Record.Fills (record : Record (Except Fault) ν σ α) (shows : ν → Value → Prop) :
    List (String × Value) → σ → σ → Prop where
  | nil (parts : σ) : Fills record shows [] parts parts
  | cons {name : String} {value : Value} {rest : List (String × Value)}
    {entry : Entry (Except Fault) ν σ} {parts next last : σ} (found : record.entry? name = some entry)
    (fresh : entry.given parts = false)
    (read : ∀ node, shows node value → entry.read node parts = .ok next)
    (further : Fills record shows rest next last) :
    Fills record shows ((name, value) :: rest) parts last

namespace Record.Fills

variable {record : Record (Except Fault) ν σ α} {shows : ν → Value → Prop}
  {members others : List (String × Value)} {parts next last : σ}

theorem append (first : record.Fills shows members parts next)
    (second : record.Fills shows others next last) :
    record.Fills shows (members ++ others) parts last := by
  induction first with
  | nil => exact second
  | cons found fresh read _ ih => exact .cons found fresh read (ih second)

theorem single {name : String} {value : Value} {entry : Entry (Except Fault) ν σ}
    (found : record.entry? name = some entry) (fresh : entry.given parts = false)
    (read : ∀ node, shows node value → entry.read node parts = .ok next) :
    record.Fills shows [(name, value)] parts next :=
  .cons found fresh read (.nil next)

theorem stored {β : Type} {name : String} {value : Value} {entry : Entry (Except Fault) ν σ}
    {read : ν → Except Fault β} {store : β → Except Fault σ} {b : β}
    (found : record.entry? name = some entry) (fresh : entry.given parts = false)
    (stores : ∀ node, entry.read node parts = read node >>= store) (last : store b = .ok next)
    (reads : ∀ node, shows node value → read node = .ok b) :
    record.Fills shows [(name, value)] parts next := by
  refine .single found fresh fun node shown => ?_
  rw [stores, reads node shown]
  exact last

end Record.Fills

namespace Json.Cursor

theorem recordFields_of_fills {record : Record (Except Fault) Cursor σ α} {depth : Nat} {ending : Ending}
    {fields : List Field} {members : List (String × Value)} {parts last : σ}
    (each : List.Forall₂ (fun field member => field.key = .ok member.1 ∧
      Shows ⟨depth, field.value⟩ member.2) fields members)
    (fills : record.Fills (ShowsAt depth) members parts last) :
    recordFields record depth ending fields parts = .ok last := by
  induction fills generalizing fields with
  | nil =>
    cases each
    rfl
  | cons found fresh read _ ih =>
    cases each with
    | cons first others =>
      obtain ⟨key, shown⟩ := first
      rw [recordFields, key]
      simp [bind, Except.bind, found, fresh, read _ ⟨rfl, shown⟩, ih others]

/-- A member that may be left out, for an entry that stores what a reader makes of it. -/
theorem fills_optional {record : Record (Except Fault) Cursor σ α} {depth : Nat} {parts last : σ}
    {β : Type} {name : String} {write : β → Value} {content : Option β}
    {entry : Entry (Except Fault) Cursor σ} {read : Cursor → Except Fault β}
    {store : Option β → Except Fault σ} (found : record.entry? name = some entry)
    (fresh : entry.given parts = false)
    (stores : ∀ node, entry.read node parts = Cursor.optional read node >>= store)
    (something : ∀ b, write b ≠ .null) (absent : content = none → parts = last)
    (present : ∀ b, content = some b → store (some b) = .ok last)
    (reads : ∀ b, content = some b → ∀ node, ShowsAt depth node (write b) → read node = .ok b) :
    record.Fills (ShowsAt depth) (Value.optionalMember name write content) parts last := by
  cases content with
  | none =>
    cases absent rfl
    exact .nil parts
  | some b =>
    refine .stored found fresh stores (present b rfl) fun node shown => ?_
    exact shown.shows.optional (something b) (reads b rfl node shown)

theorem Shows.record {record : Record (Except Fault) Cursor σ α} {depth : Nat} {node : Node}
    {members : List (String × Value)} {parts : σ} {whole : α}
    (shows : Shows ⟨depth, node⟩ (.object members))
    (fills : record.Fills (ShowsAt (depth - 1)) members record.blank parts)
    (finished : record.finish parts = .ok whole) :
    Cursor.record record ⟨depth, node⟩ = .ok whole := by
  cases shows.form with
  | object start stop deep each =>
    simp [Cursor.record, enter_of_deep deep, recordFields_of_fills each fills, Ending.wantedObject,
      finished, bind, Except.bind, Except.mapError]

section Keeps

variable {record : Record (Except Fault) Cursor σ α} {depth : Nat} {ending : Ending}
  {motive : σ → Prop}

theorem recordFields_keeps
    (step : ∀ entry ∈ record.entries, ∀ node parts next, motive parts →
      entry.read ⟨depth, node⟩ parts = .ok next → motive next)
    {fields : List Field} {parts last : σ} (start : motive parts)
    (read : recordFields record depth ending fields parts = .ok last) : motive last := by
  induction fields generalizing parts with
  | nil =>
    cases read
    exact start
  | cons field rest ih =>
    rw [recordFields, bind_eq_ok] at read
    obtain ⟨key, -, read⟩ := read
    cases found : record.entry? key with
    | none =>
      simp only [found] at read
      cases closed : record.closed with
      | true => simp [closed, bind, Except.bind] at read
      | false =>
        simp only [closed, Bool.false_eq_true, if_false] at read
        obtain ⟨_, -, read⟩ := bind_eq_ok.1 read
        exact ih start read
    | some entry =>
      have known : entry ∈ record.entries := List.mem_of_find?_eq_some found
      simp only [found] at read
      split at read
      · cases read
      · split at read
        · next entered => exact ih (step entry known field.value _ _ start entered) read
        · cases read

theorem recordItems_keeps {title : String} {entries : List (Entry (Except Fault) Cursor σ)}
    (step : ∀ entry ∈ entries, ∀ node parts next, motive parts →
      entry.read ⟨depth, node⟩ parts = .ok next → motive next)
    {index : Nat} {items : List Node} {parts last : σ} {stop : Nat} (start : motive parts)
    (read : recordItems title depth ending index entries items parts = .ok (last, stop)) :
    motive last := by
  induction entries generalizing index items parts with
  | nil =>
    rw [recordItems] at read
    obtain ⟨_, -, same⟩ := map_eq_ok.1 read
    cases same
    exact start
  | cons entry entries ih =>
    have later := fun entry mem => step entry (List.mem_cons_of_mem _ mem)
    cases items with
    | nil =>
      rw [recordItems, bind_eq_ok] at read
      obtain ⟨_, -, read⟩ := read
      split at read
      · exact ih later start read
      · cases read
    | cons node rest =>
      rw [recordItems] at read
      split at read
      · next entered => exact ih later (step entry List.mem_cons_self node _ _ start entered) read
      · cases read

/-- What holds of a record with nothing in it, and is kept by every entry that is read one level deeper,
holds of the parts of each record that is read. -/
theorem record_keeps {cursor : Cursor} {whole : α} (read : cursor.record record = .ok whole)
    (blank : motive record.blank)
    (step : ∀ entry ∈ record.entries, ∀ node parts next, motive parts →
      entry.read ⟨cursor.depth - 1, node⟩ parts = .ok next → motive next) :
    1 < cursor.depth ∧ ∃ parts, motive parts ∧ record.finish parts = .ok whole := by
  obtain ⟨depth, node⟩ := cursor
  cases node with
  | object start fields ending =>
    rw [Cursor.record, bind_eq_ok] at read
    obtain ⟨inner, entered, read⟩ := read
    obtain ⟨deep, rfl⟩ := enter_eq_ok entered
    obtain ⟨parts, gathered, read⟩ := bind_eq_ok.1 read
    obtain ⟨stop, -, read⟩ := bind_eq_ok.1 read
    exact ⟨deep, parts, recordFields_keeps step blank gathered, mapError_eq_ok.1 read⟩
  | list start items ending =>
    rw [Cursor.record, bind_eq_ok] at read
    obtain ⟨inner, entered, read⟩ := read
    obtain ⟨deep, rfl⟩ := enter_eq_ok entered
    obtain ⟨⟨parts, stop⟩, gathered, read⟩ := bind_eq_ok.1 read
    exact ⟨deep, parts, recordItems_keeps step blank gathered, mapError_eq_ok.1 read⟩
  | _ => cases read

end Keeps

variable {α : Type} {read : Cursor → Except Fault α} {cursor : Cursor}

theorem optional_eq_some {a : α} (present : Cursor.optional read cursor = .ok (some a)) :
    read cursor = .ok a := by
  unfold Cursor.optional at present
  split at present
  · cases present
  · obtain ⟨b, found, same⟩ := map_eq_ok.1 present
    cases same
    exact found

theorem of_list_eq_ok {items : List α} (listed : Cursor.list read cursor = .ok items) :
    1 < cursor.depth ∧ ∀ a ∈ items, ∃ node, read ⟨cursor.depth - 1, node⟩ = .ok a := by
  obtain ⟨depth, node⟩ := cursor
  cases node with
  | list start nodes ending =>
    rw [Cursor.list, bind_eq_ok] at listed
    obtain ⟨inner, entered, listed⟩ := listed
    obtain ⟨deep, rfl⟩ := enter_eq_ok entered
    obtain ⟨values, mapped, listed⟩ := bind_eq_ok.1 listed
    obtain ⟨stop, -, same⟩ := bind_eq_ok.1 listed
    cases pure_eq_ok.1 same
    refine ⟨deep, fun a mem => ?_⟩
    obtain ⟨node, -, read⟩ := exists_of_forall₂ (mapM_eq_ok.1 mapped) mem
    exact ⟨node, read⟩
  | _ => cases listed

end Json.Cursor

namespace Json.Value

theorem recordMembers_of_fills {record : Record (Except Fault) Value σ α}
    {members : List (String × Value)} {parts last : σ}
    (fills : record.Fills (· = ·) members parts last) :
    recordMembers record members parts = .ok last := by
  induction fills with
  | nil => rfl
  | cons found fresh read _ ih =>
    simp [recordMembers, found, fresh, read _ rfl, ih, bind, Except.bind]

/-- An object that has been taken out of its text is read as the record that its members fill. -/
theorem readRecord_of_fills {record : Record (Except Fault) Value σ α}
    {members : List (String × Value)} {parts : σ} {whole : α}
    (fills : record.Fills (· = ·) members record.blank parts)
    (finished : record.finish parts = .ok whole) :
    readRecord record (.object members) = .ok whole := by
  simp [readRecord, recordMembers_of_fills fills, finished, bind, Except.bind, Except.mapError]

theorem mem_optionalMember {β : Type} {name : String} {write : β → Value} {content : Option β}
    {member : String × Value} :
    member ∈ optionalMember name write content ↔ ∃ b, content = some b ∧ member = (name, write b) := by
  cases content <;> simp [optionalMember]

theorem plain_texts (names : List String) : (texts names).Plain := by
  refine .list fun item mem => ?_
  obtain ⟨name, -, rfl⟩ := List.mem_map.1 mem
  exact .text name

theorem plain_entries (entries : List (String × String)) :
    (Value.object (entries.map fun (name, value) => (name, .text value))).Plain := by
  refine .object fun member mem => ?_
  obtain ⟨entry, -, rfl⟩ := List.mem_map.1 mem
  exact .text entry.2

/-- A printed text is read as what a reader makes of the value, if the value nests at most as deep as
texts may. -/
theorem Plain.ofText_printings {value : Value} (plain : value.Plain) (within : value.depth ≤ 127)
    {read : Cursor → Except Fault α} {a : α}
    (reads : ∀ root, Cursor.Shows ⟨128, root⟩ value → read ⟨128, root⟩ = .ok a) {text : String}
    (printed : text ∈ value.printings) : Json.ofText read text = .ok a := by
  obtain ⟨root, tree, holds⟩ := plain.read_printings printed
  have whole := reads root (holds 128 (Nat.lt_succ_of_le within))
  simp [Json.ofText, tree, Document.value, whole, bind, Except.bind, pure, Except.pure, Except.mapError]

end Json.Value

end Records

end FlowTree
