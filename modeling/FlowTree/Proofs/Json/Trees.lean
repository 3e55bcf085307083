import FlowTree.Proofs.Json.Spelling
import Mathlib.Order.MinMax

/-! The tree of a text of some form has that form, and that of a text that is written for a value holds the
value. -/

set_option autoImplicit false

namespace FlowTree.Json

namespace Value

mutual

def depth : Value → Nat
  | .null | .boolean _ | .number _ | .text _ => 0
  | .list items => depthOfItems items + 1
  | .object members => depthOfMembers members + 1

def depthOfItems : List Value → Nat
  | [] => 0
  | item :: rest => max (depth item) (depthOfItems rest)

def depthOfMembers : List (String × Value) → Nat
  | [] => 0
  | (_, value) :: rest => max (depth value) (depthOfMembers rest)

end

theorem depth_list_le {items : List Value} {n : Nat} :
    (Value.list items).depth ≤ n + 1 ↔ ∀ item ∈ items, item.depth ≤ n := by
  have parts : depthOfItems items ≤ n ↔ ∀ item ∈ items, item.depth ≤ n := by
    induction items with
    | nil => simp [depthOfItems]
    | cons item rest ih => simp [depthOfItems, ih]
  rw [depth, Nat.succ_le_succ_iff, parts]

theorem depth_object_le {members : List (String × Value)} {n : Nat} :
    (Value.object members).depth ≤ n + 1 ↔ ∀ member ∈ members, member.2.depth ≤ n := by
  have parts : depthOfMembers members ≤ n ↔ ∀ member ∈ members, member.2.depth ≤ n := by
    induction members with
    | nil => simp [depthOfMembers]
    | cons member rest ih => simp [depthOfMembers, ih]
  rw [depth, Nat.succ_le_succ_iff, parts]

theorem depth_lt_list {items : List Value} {item : Value} (mem : item ∈ items) :
    item.depth < (Value.list items).depth :=
  Nat.lt_succ_of_le (depth_list_le.1 le_rfl item mem)

theorem depth_lt_object {members : List (String × Value)} {name : String} {value : Value}
    (mem : (name, value) ∈ members) : value.depth < (Value.object members).depth :=
  Nat.lt_succ_of_le (depth_object_le.1 le_rfl (name, value) mem)

end Value

mutual

def Node.tree? : Node → Option Tree
  | .null _ _ => some .null
  | .boolean _ _ b => some (.boolean b)
  | .number _ _ value => some (.number value.toOption)
  | .text _ _ value => some (.text value.toOption)
  | .list _ items (.closed _) => (trees? items).map .list
  | .object _ fields (.closed _) => (fieldTrees? fields).map .object
  | .list _ _ _ | .object _ _ _ | .brokenText _ _ | .broken _ _ => none

def trees? : List Node → Option (List Tree)
  | [] => some []
  | node :: rest => do
    let tree ← Node.tree? node
    let others ← trees? rest
    return tree :: others

def fieldTrees? : List Field → Option (List (Option String × Tree))
  | [] => some []
  | .mk key _ _ node _ :: rest => do
    let tree ← Node.tree? node
    let others ← fieldTrees? rest
    return (key.toOption, tree) :: others

end

/-- A field has a key, if that pairs its surrogates, and a value that is well formed. -/
structure Field.Bears (field : Field) (part : Option String × Tree) : Prop where
  key : field.key.toOption = part.1
  value : field.value.tree? = some part.2

theorem trees?_eq_some {nodes : List Node} {items : List Tree} :
    trees? nodes = some items ↔ List.Forall₂ (fun node item => node.tree? = some item) nodes items := by
  induction nodes generalizing items with
  | nil => simp [trees?, eq_comm]
  | cons node nodes ih =>
    rw [trees?, List.forall₂_cons_left_iff]
    simp only [Option.bind_eq_bind, Option.bind_eq_some_iff, Option.pure_def, Option.some.injEq, ih]
    constructor
    · rintro ⟨tree, head, others, tail, rfl⟩
      exact ⟨tree, others, head, tail, rfl⟩
    · rintro ⟨tree, others, head, tail, rfl⟩
      exact ⟨tree, head, others, tail, rfl⟩

theorem fieldTrees?_eq_some {fields : List Field} {parts : List (Option String × Tree)} :
    fieldTrees? fields = some parts ↔ List.Forall₂ Field.Bears fields parts := by
  induction fields generalizing parts with
  | nil => simp [fieldTrees?, eq_comm]
  | cons field fields ih =>
    obtain ⟨key, stop, refused, node, next⟩ := field
    rw [fieldTrees?, List.forall₂_cons_left_iff]
    simp only [Option.bind_eq_bind, Option.bind_eq_some_iff, Option.pure_def, Option.some.injEq, ih]
    constructor
    · rintro ⟨tree, head, others, tail, rfl⟩
      exact ⟨(key.toOption, tree), others, ⟨rfl, head⟩, tail, rfl⟩
    · rintro ⟨⟨_, tree⟩, others, ⟨rfl, head⟩, tail, rfl⟩
      exact ⟨tree, head, others, tail, rfl⟩

theorem Node.tree?_list {nodes : List Node} {items : List Tree}
    (each : List.Forall₂ (fun node item => node.tree? = some item) nodes items) (start stop : Nat) :
    (Node.list start nodes (.closed stop)).tree? = some (.list items) := by
  rw [tree?, trees?_eq_some.2 each, Option.map_some]

theorem Node.tree?_object {fields : List Field} {parts : List (Option String × Tree)}
    (each : List.Forall₂ Field.Bears fields parts) (start stop : Nat) :
    (Node.object start fields (.closed stop)).tree? = some (.object parts) := by
  rw [tree?, fieldTrees?_eq_some.2 each, Option.map_some]

namespace Document

def Turn.inner? (frames : List Frame) : Turn → Option (List Frame)
  | .value => some frames
  | .listStart start => some (.list start [] :: frames)
  | .listItem start items => some (.list start items :: frames)
  | _ => none

variable {turn : Turn} {frames inner : List Frame} {placed : Placed} {rest : List Placed}

theorem build_done {node : Node} (next : turn.inner? frames = some inner)
    (done : opening placed = .done node) :
    build turn frames (placed :: rest) = build (.after node) inner rest := by
  cases turn <;> cases next <;> rw [build]
  · rw [done]
  all_goals
    unfold opening at done
    split at done <;> simp_all [opening]

theorem build_opens {turn' : Turn} (next : turn.inner? frames = some inner)
    (opens : opening placed = .opens turn') :
    build turn frames (placed :: rest) = build turn' inner rest := by
  cases turn <;> cases next <;> rw [build]
  · rw [opens]
  all_goals
    unfold opening at opens
    split at opens <;> simp_all [opening]

def Turn.object? : Turn → Option (Nat × List Field)
  | .objectStart start => some (start, [])
  | .objectKey start fields => some (start, fields)
  | _ => none

theorem build_key {start : Nat} {before : List Field} {key : Except Fault String}
    (next : turn.object? = some (start, before)) (named : placed.token = .text key) :
    build turn frames (placed :: rest) = build (.colon start before key placed.stop) frames rest := by
  cases turn <;> cases next <;> rw [build] <;> simp [named]

end Document

inductive Node.Formed : Node → Tree → Prop where
  | null (start stop : Nat) : Formed (.null start stop) .null
  | boolean (start stop : Nat) (b : Bool) : Formed (.boolean start stop b) (.boolean b)
  | number (start stop : Nat) (value : Except Fault Number) :
    Formed (.number start stop value) (.number value.toOption)
  | text (start stop : Nat) (value : Except Fault String) :
    Formed (.text start stop value) (.text value.toOption)
  | list (start stop : Nat) {nodes : List Node} {items : List Tree}
    (each : List.Forall₂ (fun node item => node.tree? = some item) nodes items) :
    Formed (.list start nodes (.closed stop)) (.list items)
  | object (start stop : Nat) {fields : List Field} {parts : List (Option String × Tree)}
    (each : List.Forall₂ Field.Bears fields parts) :
    Formed (.object start fields (.closed stop)) (.object parts)

theorem Node.formed {node : Node} {tree : Tree} (form : node.tree? = some tree) : node.Formed tree := by
  unfold tree? at form
  split at form
  · cases form
    exact .null _ _
  · cases form
    exact .boolean _ _ _
  · cases form
    exact .number _ _ _
  · cases form
    exact .text _ _ _
  · obtain ⟨items, each, rfl⟩ := Option.map_eq_some_iff.1 form
    exact .list _ _ (trees?_eq_some.1 each)
  · obtain ⟨parts, each, rfl⟩ := Option.map_eq_some_iff.1 form
    exact .object _ _ (fieldTrees?_eq_some.1 each)
  all_goals cases form

def Sign.Tells : Sign → Token → Prop
  | .openList, token => token = .openList
  | .closeList, token => token = .closeList
  | .openObject, token => token = .openObject
  | .closeObject, token => token = .closeObject
  | .comma, token => token = .comma
  | .colon, token => token = .colon
  | .null, token => token = .null
  | .boolean b, token => token = .boolean b
  | .number n, token => ∃ value, token = .number value ∧ value.toOption = n
  | .text s, token => ∃ value, token = .text value ∧ value.toOption = s
  | .eof, token => token = .eof
  | .flaw, _ => True

theorem Placed.tells {placed : Placed} {sign : Sign} (same : placed.sign = sign) :
    sign.Tells placed.token := by
  subst same
  obtain ⟨start, stop, token⟩ := placed
  cases token with
  | number value | text value => exact ⟨value, rfl, rfl⟩
  | brokenText | brokenValue | stray => trivial
  | _ => rfl

namespace Tree

open Document (build Turn build_done build_opens build_key)

/-- Words of a value, with any others after them, are built into a node of that form, wherever it
stands. -/
def Builds (tree : Tree) : Prop :=
  ∀ (placed : List Placed) (signs : List Sign), placed.map Placed.sign = tree.signs ++ signs →
    ∃ (node : Node) (rest : List Placed), rest.map Placed.sign = signs ∧ node.tree? = some tree ∧
      ∀ (turn : Turn) (frames inner : List Frame), turn.inner? frames = some inner →
        build turn frames placed = build (.after node) inner rest

theorem builds_single {tree : Tree} {sign : Sign} (single : tree.signs = [sign])
    (done : ∀ start stop token, sign.Tells token →
      ∃ node, Document.opening ⟨start, stop, token⟩ = .done node ∧ node.tree? = some tree) :
    tree.Builds := by
  intro placed signs spelled
  rw [single, List.singleton_append] at spelled
  obtain ⟨head, rest, rfl, same, others⟩ := List.map_eq_cons_iff.1 spelled
  obtain ⟨node, done, form⟩ := done head.start head.stop head.token (Placed.tells same)
  exact ⟨node, rest, others, form, fun turn frames inner next => build_done next done⟩

-- Without items the builder stands elsewhere: a list may end at once, but not after a comma.
theorem builds_items {items : List Tree} (some : items ≠ []) (each : ∀ item ∈ items, item.Builds)
    {placed : List Placed} {signs : List Sign}
    (spelled : placed.map Placed.sign = itemSigns items ++ .closeList :: signs) :
    ∃ (nodes : List Node) (stop : Nat) (rest : List Placed), rest.map Placed.sign = signs ∧
      List.Forall₂ (fun node item => node.tree? = .some item) nodes items ∧
      ∀ (turn : Turn) (frames : List Frame) (start : Nat) (before : List Node),
        turn.inner? frames = .some (.list start before :: frames) →
        build turn frames placed =
          build (.after (.list start (before.reverse ++ nodes) (.closed stop))) frames rest := by
  induction items generalizing placed with
  | nil => exact absurd rfl some
  | cons item items ih =>
    have first := each item List.mem_cons_self
    cases items with
    | nil =>
      obtain ⟨node, left, close, form, builds⟩ := first placed _ spelled
      obtain ⟨last, rest, rfl, closes, others⟩ := List.map_eq_cons_iff.1 close
      have closes : last.token = .closeList := Placed.tells closes
      refine ⟨[node], last.stop, rest, others, .cons form .nil, ?_⟩
      intro turn frames start before next
      rw [builds turn frames _ next, build]
      simp [closes]
    | cons second items =>
      rw [itemSigns, List.append_assoc] at spelled
      · obtain ⟨node, left, comma, form, builds⟩ := first placed _ spelled
        obtain ⟨mark, later, rfl, separates, others⟩ := List.map_eq_cons_iff.1 comma
        have separates : mark.token = .comma := Placed.tells separates
        obtain ⟨nodes, stop, rest, after, forms, further⟩ := ih (List.cons_ne_nil _ _)
          (fun item mem => each item (List.mem_cons_of_mem _ mem)) others
        refine ⟨node :: nodes, stop, rest, after, .cons form forms, ?_⟩
        intro turn frames start before next
        have item : build (.after node) (.list start before :: frames) (mark :: later) =
            build (.listItem start (node :: before)) frames later := by
          rw [build]
          simp [separates]
        rw [builds turn frames _ next, item, further _ frames start (node :: before) rfl]
        simp
      · exact List.cons_ne_nil _ _

/-- A key and a colon, and then the value within the frame of its object. -/
theorem builds_field {key : Option String} {tree : Tree} (content : tree.Builds) {placed : List Placed}
    {signs : List Sign}
    (spelled : placed.map Placed.sign = .text key :: .colon :: (tree.signs ++ signs)) :
    ∃ (value : Except Fault String) (node : Node) (stop refused : Nat) (rest : List Placed),
      rest.map Placed.sign = signs ∧ value.toOption = key ∧ node.tree? = some tree ∧
      ∀ (turn : Turn) (frames : List Frame) (start : Nat) (before : List Field),
        turn.object? = .some (start, before) →
        build turn frames placed =
          build (.after node) (.object start before value stop refused :: frames) rest := by
  obtain ⟨name, left, rfl, isKey, spelled⟩ := List.map_eq_cons_iff.1 spelled
  obtain ⟨colon, left, rfl, isColon, spelled⟩ := List.map_eq_cons_iff.1 spelled
  obtain ⟨value, isKey, same⟩ := Placed.tells isKey
  have isColon : colon.token = .colon := Placed.tells isColon
  obtain ⟨node, rest, others, form, builds⟩ := content left _ spelled
  refine ⟨value, node, name.stop, colon.start, rest, others, same, form, ?_⟩
  intro turn frames start before next
  rw [build_key next isKey, build, isColon]
  exact builds .value _ _ rfl

theorem builds_fields {parts : List (Option String × Tree)} (some : parts ≠ [])
    (each : ∀ part ∈ parts, part.2.Builds) {placed : List Placed} {signs : List Sign}
    (spelled : placed.map Placed.sign = fieldSigns parts ++ .closeObject :: signs) :
    ∃ (fields : List Field) (stop : Nat) (rest : List Placed), rest.map Placed.sign = signs ∧
      List.Forall₂ Field.Bears fields parts ∧
      ∀ (turn : Turn) (frames : List Frame) (start : Nat) (before : List Field),
        turn.object? = .some (start, before) →
        build turn frames placed =
          build (.after (.object start (before.reverse ++ fields) (.closed stop))) frames rest := by
  induction parts generalizing placed with
  | nil => exact absurd rfl some
  | cons part parts ih =>
    obtain ⟨key, tree⟩ := part
    have first := each (key, tree) List.mem_cons_self
    cases parts with
    | nil =>
      obtain ⟨value, node, keyStop, refused, left, close, same, form, builds⟩ := builds_field first spelled
      obtain ⟨last, rest, rfl, closes, others⟩ := List.map_eq_cons_iff.1 close
      have closes : last.token = .closeObject := Placed.tells closes
      refine ⟨[.mk value keyStop refused node last.start], last.stop, rest, others,
        .cons ⟨same, form⟩ .nil, ?_⟩
      intro turn frames start before next
      rw [builds turn frames start before next, build]
      simp [closes]
    | cons second parts =>
      rw [fieldSigns] at spelled
      · simp only [List.cons_append, List.append_assoc] at spelled
        obtain ⟨value, node, keyStop, refused, left, comma, same, form, builds⟩ := builds_field first spelled
        obtain ⟨mark, later, rfl, separates, others⟩ := List.map_eq_cons_iff.1 comma
        have separates : mark.token = .comma := Placed.tells separates
        obtain ⟨fields, stop, rest, after, forms, further⟩ := ih (List.cons_ne_nil _ _)
          (fun part mem => each part (List.mem_cons_of_mem _ mem)) others
        refine ⟨.mk value keyStop refused node mark.start :: fields, stop, rest, after,
          .cons ⟨same, form⟩ forms, ?_⟩
        intro turn frames start before next
        have field : build (.after node) (.object start before value keyStop refused :: frames)
            (mark :: later) =
            build (.objectKey start (.mk value keyStop refused node mark.start :: before)) frames
              later := by
          rw [build]
          simp [separates]
        rw [builds turn frames start before next, field, further _ frames start _ rfl]
        simp
      · exact List.cons_ne_nil _ _

theorem builds (tree : Tree) : tree.Builds := by
  induction tree with
  | null =>
    refine builds_single rfl ?_
    rintro start stop _ ⟨⟩
    exact ⟨_, rfl, rfl⟩
  | boolean b =>
    refine builds_single rfl ?_
    rintro start stop _ ⟨⟩
    exact ⟨_, rfl, rfl⟩
  | number n =>
    refine builds_single rfl ?_
    rintro start stop _ ⟨value, rfl, rfl⟩
    exact ⟨_, rfl, rfl⟩
  | text s =>
    refine builds_single rfl ?_
    rintro start stop _ ⟨value, rfl, rfl⟩
    exact ⟨_, rfl, rfl⟩
  | list items ih =>
    intro placed signs spelled
    rw [Tree.signs, List.cons_append, List.append_assoc] at spelled
    obtain ⟨head, left, rfl, opens, spelled⟩ := List.map_eq_cons_iff.1 spelled
    have opens : head.token = .openList := Placed.tells opens
    have opening : Document.opening head = .opens (.listStart head.start) := by
      simp [Document.opening, opens]
    by_cases some : items = []
    · subst some
      obtain ⟨last, rest, rfl, closes, others⟩ := List.map_eq_cons_iff.1 spelled
      have closes : last.token = .closeList := Placed.tells closes
      refine ⟨_, rest, others, Node.tree?_list .nil head.start last.stop, ?_⟩
      intro turn frames inner next
      rw [build_opens next opening, build]
      simp [closes]
    · obtain ⟨nodes, stop, rest, others, forms, further⟩ := builds_items some ih spelled
      refine ⟨_, rest, others, Node.tree?_list forms head.start stop, ?_⟩
      intro turn frames inner next
      rw [build_opens next opening]
      exact further _ inner head.start [] rfl
  | object parts ih =>
    intro placed signs spelled
    rw [Tree.signs, List.cons_append, List.append_assoc] at spelled
    obtain ⟨head, left, rfl, opens, spelled⟩ := List.map_eq_cons_iff.1 spelled
    have opens : head.token = .openObject := Placed.tells opens
    have opening : Document.opening head = .opens (.objectStart head.start) := by
      simp [Document.opening, opens]
    by_cases some : parts = []
    · subst some
      obtain ⟨last, rest, rfl, closes, others⟩ := List.map_eq_cons_iff.1 spelled
      have closes : last.token = .closeObject := Placed.tells closes
      refine ⟨_, rest, others, Node.tree?_object .nil head.start last.stop, ?_⟩
      intro turn frames inner next
      rw [build_opens next opening, build]
      simp [closes]
    · obtain ⟨fields, stop, rest, others, forms, further⟩ := builds_fields some ih spelled
      refine ⟨_, rest, others, Node.tree?_object forms head.start stop, ?_⟩
      intro turn frames inner next
      rw [build_opens next opening]
      exact further _ inner head.start [] rfl

/-- A text of one value is a document with a root of that form, and nothing after it. -/
theorem Spelled.read {tree : Tree} {text : String} (spelled : tree.Spelled text) :
    ∃ root, Document.read text = ⟨root, none⟩ ∧ root.tree? = some tree := by
  obtain ⟨root, rest, ended, form, builds⟩ := tree.builds _ _ (Spells.signs_list spelled)
  obtain ⟨last, after, rfl, eof, -⟩ := List.map_eq_cons_iff.1 ended
  have eof : last.token = .eof := Placed.tells eof
  refine ⟨root, ?_, form⟩
  rw [Document.read, builds .value [] [] rfl, build]
  simp [eof]

end Tree

theorem Cursor.enter_add_two (depth : Nat) (node : Node) :
    Cursor.enter ⟨depth + 2, node⟩ = .ok (depth + 1) := by
  simp [Cursor.enter]

/-- A node holds a value: a reader that may go as deep as the value nests can take it out. -/
def Node.Holds (node : Node) (value : Value) : Prop :=
  ∀ depth, value.depth < depth → node.toValue depth = .ok value

structure Field.Holds (field : Field) (member : String × Value) : Prop where
  key : field.key = .ok member.1
  value : field.value.Holds member.2

section Values

variable {depth : Nat}

theorem toValues_of_holds {nodes : List Node} {items : List Value}
    (each : List.Forall₂ Node.Holds nodes items) (within : ∀ item ∈ items, item.depth < depth) :
    toValues depth nodes = .ok items := by
  induction each with
  | nil => rfl
  | @cons node item nodes items first _ ih =>
    have head := first depth (within item List.mem_cons_self)
    have tail := ih fun item mem => within item (List.mem_cons_of_mem _ mem)
    simp [toValues, head, tail, bind, Except.bind, pure, Except.pure]

theorem toMembers_of_holds {fields : List Field} {members : List (String × Value)}
    (each : List.Forall₂ Field.Holds fields members)
    (within : ∀ member ∈ members, member.2.depth < depth) :
    toMembers depth fields = .ok members := by
  induction each with
  | nil => rfl
  | @cons field member fields members first _ ih =>
    obtain ⟨key, stop, refused, value, next⟩ := field
    have name : key = .ok member.1 := first.key
    have head : value.toValue depth = .ok member.2 :=
      first.value depth (within member List.mem_cons_self)
    have tail := ih fun member mem => within member (List.mem_cons_of_mem _ mem)
    simp [toMembers, name, head, tail, bind, Except.bind, pure, Except.pure]

end Values

namespace Node

theorem holds_list {nodes : List Node} {items : List Value} (each : List.Forall₂ Holds nodes items)
    (start stop : Nat) : (Node.list start nodes (.closed stop)).Holds (.list items) := by
  intro depth within
  match depth with
  | 0 | 1 => simp [Value.depth] at within
  | depth + 2 =>
    have inside := Value.depth_list_le.1 (Nat.le_of_lt_succ within)
    have values := toValues_of_holds each fun item mem => Nat.lt_succ_of_le (inside item mem)
    simp [toValue, Cursor.enter_add_two, values, Ending.wantedList, bind, Except.bind, pure,
      Except.pure]

theorem holds_object {fields : List Field} {members : List (String × Value)}
    (each : List.Forall₂ Field.Holds fields members) (start stop : Nat) :
    (Node.object start fields (.closed stop)).Holds (.object members) := by
  intro depth within
  match depth with
  | 0 | 1 => simp [Value.depth] at within
  | depth + 2 =>
    have inside := Value.depth_object_le.1 (Nat.le_of_lt_succ within)
    have values := toMembers_of_holds each fun member mem => Nat.lt_succ_of_le (inside member mem)
    simp [toValue, Cursor.enter_add_two, values, Ending.wantedObject, bind, Except.bind, pure,
      Except.pure]

end Node

namespace Value

theorem trees_eq_map (items : List Value) : trees items = items.map tree := by
  induction items with
  | nil => rfl
  | cons item items ih => rw [trees, List.map_cons, ih]

theorem memberTrees_eq_map (members : List (String × Value)) :
    memberTrees members = members.map fun member => (some member.1, member.2.tree) := by
  induction members with
  | nil => rfl
  | cons member members ih => rw [memberTrees, List.map_cons, ih]

theorem holds_of_tree? {value : Value} {node : Node} (form : node.tree? = some value.tree) :
    node.Holds value := by
  induction value generalizing node with
  | list items ih =>
    rw [tree, trees_eq_map] at form
    cases Node.formed form with
    | list start stop each =>
      refine Node.holds_list ?_ start stop
      exact forall₂_of_mem (List.forall₂_map_right_iff.1 each) fun item mem node form => ih item mem form
  | object members ih =>
    rw [tree, memberTrees_eq_map] at form
    cases Node.formed form with
    | object start stop each =>
      refine Node.holds_object ?_ start stop
      exact forall₂_of_mem (List.forall₂_map_right_iff.1 each) fun member mem field bears =>
        ⟨toOption_eq_some.1 bears.key, ih member mem bears.value⟩
  | number n =>
    rw [tree] at form
    generalize value : some n = kept at form
    cases Node.formed form
    obtain rfl := toOption_eq_some.1 value.symm
    exact fun _ _ => rfl
  | text s =>
    rw [tree] at form
    generalize value : some s = kept at form
    cases Node.formed form
    obtain rfl := toOption_eq_some.1 value.symm
    exact fun _ _ => rfl
  | null | boolean =>
    cases Node.formed form
    exact fun _ _ => rfl

/-- Every text that is printed for a value is a document with a root that holds the value, and nothing
after it. -/
theorem Plain.read_printings {value : Value} (plain : value.Plain) {text : String}
    (printed : text ∈ value.printings) :
    ∃ root, Document.read text = ⟨root, none⟩ ∧ root.Holds value := by
  obtain ⟨root, read, form⟩ := (plain.spelled_printings printed).read
  exact ⟨root, read, holds_of_tree? form⟩

end Value

end FlowTree.Json
