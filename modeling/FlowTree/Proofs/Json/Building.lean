import FlowTree.Proofs.Json.Lexing
import FlowTree.Proofs.Json.Trees

/-! A document with a root of some form and nothing after it has the words of that form. The words that have
been passed are kept by the frames around the current place, and every step passes one more. -/

set_option autoImplicit false

namespace FlowTree.Json

namespace Tree

def itemsBefore (items : List Tree) : List Sign :=
  items.flatMap fun item => item.signs ++ [.comma]

def fieldsBefore (fields : List (Option String × Tree)) : List Sign :=
  fields.flatMap fun field => .text field.1 :: .colon :: (field.2.signs ++ [.comma])

theorem itemSigns_concat (items : List Tree) (last : Tree) :
    itemSigns (items ++ [last]) = itemsBefore items ++ last.signs := by
  induction items with
  | nil => rfl
  | cons item items ih =>
    rw [List.cons_append, itemSigns, ih]
    · simp [itemsBefore]
    · simp

theorem fieldSigns_concat (fields : List (Option String × Tree)) (key : Option String) (last : Tree) :
    fieldSigns (fields ++ [(key, last)]) = fieldsBefore fields ++ .text key :: .colon :: last.signs := by
  induction fields with
  | nil => rfl
  | cons field fields ih =>
    rw [List.cons_append, fieldSigns, ih]
    · simp [fieldsBefore]
    · simp

end Tree

open FlowTree.Json.Tree (itemsBefore fieldsBefore itemSigns_concat fieldSigns_concat)

namespace Document

/-- What the builder does with one token, when it goes on. -/
inductive Steps : Turn → List Frame → Placed → Turn → List Frame → Prop where
  | done {turn : Turn} {frames inner : List Frame} {placed : Placed} {node : Node}
    (next : turn.inner? frames = some inner) (done : opening placed = .done node) :
    Steps turn frames placed (.after node) inner
  | opens {turn turn' : Turn} {frames inner : List Frame} {placed : Placed}
    (next : turn.inner? frames = some inner) (opens : opening placed = .opens turn') :
    Steps turn frames placed turn' inner
  | emptyList {start : Nat} {frames : List Frame} {placed : Placed} (closes : placed.token = .closeList) :
    Steps (.listStart start) frames placed (.after (.list start [] (.closed placed.stop))) frames
  | emptyObject {start : Nat} {frames : List Frame} {placed : Placed} (closes : placed.token = .closeObject) :
    Steps (.objectStart start) frames placed (.after (.object start [] (.closed placed.stop))) frames
  | key {turn : Turn} {start : Nat} {before : List Field} {frames : List Frame} {placed : Placed}
    {key : Except Fault String} (next : turn.object? = some (start, before)) (named : placed.token = .text key) :
    Steps turn frames placed (.colon start before key placed.stop) frames
  | colon {start stop : Nat} {before : List Field} {key : Except Fault String} {frames : List Frame}
    {placed : Placed} (parts : placed.token = .colon) :
    Steps (.colon start before key stop) frames placed .value
      (.object start before key stop placed.start :: frames)
  | listComma {node : Node} {start : Nat} {items : List Node} {frames : List Frame} {placed : Placed}
    (parts : placed.token = .comma) :
    Steps (.after node) (.list start items :: frames) placed (.listItem start (node :: items)) frames
  | listClose {node : Node} {start : Nat} {items : List Node} {frames : List Frame} {placed : Placed}
    (closes : placed.token = .closeList) :
    Steps (.after node) (.list start items :: frames) placed
      (.after (.list start (node :: items).reverse (.closed placed.stop))) frames
  | objectComma {node : Node} {start stop refused : Nat} {fields : List Field} {key : Except Fault String}
    {frames : List Frame} {placed : Placed} (parts : placed.token = .comma) :
    Steps (.after node) (.object start fields key stop refused :: frames) placed
      (.objectKey start (.mk key stop refused node placed.start :: fields)) frames
  | objectClose {node : Node} {start stop refused : Nat} {fields : List Field} {key : Except Fault String}
    {frames : List Frame} {placed : Placed} (closes : placed.token = .closeObject) :
    Steps (.after node) (.object start fields key stop refused :: frames) placed
      (.after (.object start (.mk key stop refused node placed.start :: fields).reverse (.closed placed.stop)))
      frames

inductive Ends : Turn → List Frame → Placed → Document → Prop where
  | whole {node : Node} {placed : Placed} (eof : placed.token = .eof) :
    Ends (.after node) [] placed ⟨node, none⟩
  | trailing {turn : Turn} {frames : List Frame} {placed : Placed} {node : Node} (start : Nat) :
    Ends turn frames placed ⟨node, some start⟩
  | broken {turn : Turn} {frames : List Frame} {placed : Placed} {document : Document}
    (formless : document.root.tree? = none) : Ends turn frames placed document

theorem formless_cutFrames {node : Node} (formless : node.tree? = none) (frames : List Frame) :
    (cutFrames node frames).root.tree? = none := by
  induction frames generalizing node with
  | nil => exact formless
  | cons frame frames ih => cases frame <;> exact ih rfl

theorem formless_of_opening {placed : Placed} {node : Node} (breaks : opening placed = .breaks node) :
    node.tree? = none := by
  unfold opening at breaks
  split at breaks <;> cases breaks <;> rfl

theorem formless_of_keyless (start : Nat) (fields : List Field) (placed : Placed) :
    (Node.object start fields (keyless placed)).tree? = none := by
  unfold keyless
  split <;> rfl

theorem build_cases (turn : Turn) (frames : List Frame) (placed : Placed) (rest : List Placed) :
    (∃ turn' frames', Steps turn frames placed turn' frames' ∧
      build turn frames (placed :: rest) = build turn' frames' rest) ∨
    Ends turn frames placed (build turn frames (placed :: rest)) := by
  cases next : turn.inner? frames with
  | some inner =>
    -- A value comes next, or a list ends without one.
    cases place : opening placed with
    | done node => exact .inl ⟨_, _, .done next place, build_done next place⟩
    | opens turn' => exact .inl ⟨_, _, .opens next place, build_opens next place⟩
    | breaks node =>
      have formless := formless_of_opening place
      cases turn with
      | value =>
        rw [build, place]
        exact .inr (.broken (formless_cutFrames formless _))
      | listStart start =>
        rw [build, place]
        split
        · next closes => exact .inl ⟨_, _, .emptyList closes, rfl⟩
        · exact .inr (.broken (formless_cutFrames rfl _))
        · exact .inr (.broken (formless_cutFrames formless _))
      | listItem start items =>
        rw [build, place]
        split
        · exact .inr (.broken (formless_cutFrames rfl _))
        · exact .inr (.broken (formless_cutFrames rfl _))
        · exact .inr (.broken (formless_cutFrames formless _))
      | _ => cases next
  | none =>
    cases turn with
    | value | listStart | listItem => cases next
    | objectStart start =>
      rw [build]
      split
      · next closes => exact .inl ⟨_, _, .emptyObject closes, rfl⟩
      · exact .inr (.broken (formless_cutFrames rfl _))
      · next key named => exact .inl ⟨_, _, .key rfl named, rfl⟩
      · exact .inr (.broken (formless_cutFrames (formless_of_keyless _ _ _) _))
    | objectKey start fields =>
      rw [build]
      split
      · exact .inr (.broken (formless_cutFrames rfl _))
      · exact .inr (.broken (formless_cutFrames rfl _))
      · next key named => exact .inl ⟨_, _, .key rfl named, rfl⟩
      · exact .inr (.broken (formless_cutFrames (formless_of_keyless _ _ _) _))
    | colon start fields key stop =>
      rw [build]
      split
      · next parts => exact .inl ⟨_, _, .colon parts, rfl⟩
      · exact .inr (.broken (formless_cutFrames rfl _))
    | after node =>
      cases frames with
      | nil =>
        rw [build]
        split
        · next eof => exact .inr (.whole eof)
        · exact .inr (.trailing _)
      | cons frame frames =>
        cases frame with
        | list start items =>
          rw [build]
          split
          · next parts => exact .inl ⟨_, _, .listComma parts, rfl⟩
          · next closes => exact .inl ⟨_, _, .listClose closes, rfl⟩
          · exact .inr (.broken (formless_cutFrames rfl _))
          · exact .inr (.broken (formless_cutFrames rfl _))
        | object start fields key stop refused =>
          rw [build]
          split
          · next parts => exact .inl ⟨_, _, .objectComma parts, rfl⟩
          · next closes => exact .inl ⟨_, _, .objectClose closes, rfl⟩
          · exact .inr (.broken (formless_cutFrames rfl _))
          · exact .inr (.broken (formless_cutFrames rfl _))

/-- The words before the place that is within the frames. -/
inductive Opened : List Frame → List Sign → Prop where
  | nil : Opened [] []
  | list {frames : List Frame} {signs : List Sign} {nodes : List Node} {items : List Tree}
    (outer : Opened frames signs) (start : Nat)
    (each : List.Forall₂ (fun node item => node.tree? = some item) nodes items) :
    Opened (.list start nodes :: frames) (signs ++ .openList :: itemsBefore items.reverse)
  | object {frames : List Frame} {signs : List Sign} {fields : List Field}
    {parts : List (Option String × Tree)} (outer : Opened frames signs) (start : Nat)
    (each : List.Forall₂ Field.Bears fields parts) (key : Except Fault String) (stop refused : Nat) :
    Opened (.object start fields key stop refused :: frames)
      (signs ++ .openObject :: (fieldsBefore parts.reverse ++ [.text key.toOption, .colon]))

inductive Reached : Turn → List Frame → List Sign → Prop where
  | inner {turn : Turn} {frames inner : List Frame} {signs : List Sign} (next : turn.inner? frames = some inner)
    (opened : Opened inner signs) : Reached turn frames signs
  | keys {turn : Turn} {frames : List Frame} {signs : List Sign} {start : Nat} {fields : List Field}
    {parts : List (Option String × Tree)} (next : turn.object? = some (start, fields))
    (outer : Opened frames signs) (each : List.Forall₂ Field.Bears fields parts) :
    Reached turn frames (signs ++ .openObject :: fieldsBefore parts.reverse)
  | colon {frames : List Frame} {signs : List Sign} {fields : List Field}
    {parts : List (Option String × Tree)} (outer : Opened frames signs) (start : Nat)
    (each : List.Forall₂ Field.Bears fields parts) (key : Except Fault String) (stop : Nat) :
    Reached (.colon start fields key stop) frames
      (signs ++ .openObject :: (fieldsBefore parts.reverse ++ [.text key.toOption]))
  | after {frames : List Frame} {signs : List Sign} {node : Node} {tree : Tree} (outer : Opened frames signs)
    (form : node.tree? = some tree) : Reached (.after node) frames (signs ++ tree.signs)

theorem signs_of_opening {placed : Placed} {node : Node} {tree : Tree} (done : opening placed = .done node)
    (form : node.tree? = some tree) : tree.signs = [placed.sign] := by
  rw [Placed.sign]
  unfold opening at done
  split at done <;> cases done <;> cases form
  all_goals
    next token =>
      rw [token]
      rfl

theorem sign_of_opens {placed : Placed} {turn : Turn} (opens : opening placed = .opens turn) :
    (turn = .listStart placed.start ∧ placed.sign = .openList) ∨
      (turn = .objectStart placed.start ∧ placed.sign = .openObject) := by
  rw [Placed.sign]
  unfold opening at opens
  split at opens <;> cases opens
  · next token => exact .inl ⟨rfl, by rw [token, Token.sign]⟩
  · next token => exact .inr ⟨rfl, by rw [token, Token.sign]⟩

theorem Opened.of_list {start : Nat} {nodes : List Node} {frames : List Frame} {signs : List Sign}
    (opened : Opened (.list start nodes :: frames) signs) : ∃ before items, Opened frames before ∧
      List.Forall₂ (fun node item => node.tree? = some item) nodes items ∧
      signs = before ++ .openList :: itemsBefore items.reverse := by
  cases opened with
  | list outer _ each => exact ⟨_, _, outer, each, rfl⟩

theorem Reached.of_after {node : Node} {frames : List Frame} {signs : List Sign}
    (reached : Reached (.after node) frames signs) : ∃ before tree, Opened frames before ∧
      node.tree? = some tree ∧ signs = before ++ tree.signs := by
  cases reached with
  | inner next => cases next
  | keys next => cases next
  | after outer form => exact ⟨_, _, outer, form, rfl⟩

theorem Reached.of_inner {turn : Turn} {frames inner : List Frame} {signs : List Sign}
    (reached : Reached turn frames signs) (next : turn.inner? frames = some inner) : Opened inner signs := by
  cases reached with
  | inner next' opened =>
    obtain rfl := Option.some.inj (next'.symm.trans next)
    exact opened
  | keys next' => cases turn <;> cases next <;> cases next'
  | colon => cases next
  | after => cases next

theorem Reached.of_object {turn : Turn} {start : Nat} {fields : List Field} {frames : List Frame}
    {signs : List Sign} (reached : Reached turn frames signs) (next : turn.object? = some (start, fields)) :
    ∃ before parts, Opened frames before ∧ List.Forall₂ Field.Bears fields parts ∧
      signs = before ++ .openObject :: fieldsBefore parts.reverse := by
  cases reached with
  | inner next' => cases turn <;> cases next <;> cases next'
  | keys next' outer each =>
    obtain ⟨-, rfl⟩ := Prod.mk.inj (Option.some.inj (next'.symm.trans next))
    exact ⟨_, _, outer, each, rfl⟩
  | colon => cases next
  | after => cases next

theorem forall₂_reverse_cons {α β : Type} {r : α → β → Prop} {a : α} {as : List α} {bs : List β}
    (each : List.Forall₂ r (a :: as).reverse bs) :
    ∃ before last, bs = List.reverse before ++ [last] ∧ List.Forall₂ r as before ∧ r a last := by
  rw [← List.reverse_reverse bs, List.forall₂_reverse_iff] at each
  obtain ⟨last, before, head, others, same⟩ := List.forall₂_cons_left_iff.1 each
  refine ⟨before, last, ?_, others, head⟩
  rw [← List.reverse_reverse bs, same, List.reverse_cons]

theorem Steps.passes {turn turn' : Turn} {frames frames' : List Frame} {placed : Placed} {signs : List Sign}
    (steps : Steps turn frames placed turn' frames') (reached : Reached turn' frames' signs) :
    ∃ before, Reached turn frames before ∧ signs = before ++ [placed.sign] := by
  cases steps with
  | done next done =>
    obtain ⟨before, tree, outer, form, rfl⟩ := reached.of_after
    exact ⟨before, .inner next outer, by rw [signs_of_opening done form]⟩
  | opens next opens =>
    obtain ⟨rfl, sign⟩ | ⟨rfl, sign⟩ := sign_of_opens opens
    · obtain ⟨before, items, outer, ⟨⟩, rfl⟩ := (reached.of_inner rfl).of_list
      exact ⟨before, .inner next outer, by rw [sign]; rfl⟩
    · obtain ⟨before, parts, outer, ⟨⟩, rfl⟩ := reached.of_object rfl
      exact ⟨before, .inner next outer, by rw [sign]; rfl⟩
  | emptyList closes =>
    obtain ⟨before, tree, outer, form, rfl⟩ := reached.of_after
    cases form
    refine ⟨before ++ [.openList], .inner rfl (.list outer _ .nil), ?_⟩
    rw [Placed.sign, closes, List.append_assoc]
    rfl
  | emptyObject closes =>
    obtain ⟨before, tree, outer, form, rfl⟩ := reached.of_after
    cases form
    refine ⟨before ++ [.openObject], .keys rfl outer .nil, ?_⟩
    rw [Placed.sign, closes, List.append_assoc]
    rfl
  | key next named =>
    cases reached with
    | inner next' => cases next'
    | keys next' => cases next'
    | colon outer _ each =>
      refine ⟨_, .keys next outer each, ?_⟩
      rw [Placed.sign, named, List.append_assoc]
      rfl
  | colon parts =>
    cases reached.of_inner rfl with
    | object outer _ each =>
      refine ⟨_, .colon outer _ each _ _, ?_⟩
      rw [Placed.sign, parts]
      simp [Token.sign]
  | listComma parts =>
    obtain ⟨before, items, outer, each, rfl⟩ := (reached.of_inner rfl).of_list
    obtain ⟨tree, items, form, others, rfl⟩ := List.forall₂_cons_left_iff.1 each
    refine ⟨_, .after (.list outer _ others) form, ?_⟩
    rw [Placed.sign, parts]
    simp [itemsBefore, Token.sign]
  | listClose closes =>
    obtain ⟨before, tree, outer, form, rfl⟩ := reached.of_after
    cases Node.formed form with
    | @list _ _ _ items each =>
      obtain ⟨items, last, rfl, others, form⟩ := forall₂_reverse_cons each
      refine ⟨_, .after (.list outer _ others) form, ?_⟩
      rw [Placed.sign, closes, Tree.signs, itemSigns_concat]
      simp [Token.sign]
  | objectComma parts =>
    obtain ⟨before, parts', outer, each, rfl⟩ := reached.of_object rfl
    obtain ⟨⟨key, tree⟩, parts', bears, others, rfl⟩ := List.forall₂_cons_left_iff.1 each
    refine ⟨_, .after (.object outer _ others _ _ _) bears.value, ?_⟩
    obtain rfl := bears.key
    rw [Placed.sign, parts]
    simp [fieldsBefore, Token.sign, Field.key]
  | objectClose closes =>
    obtain ⟨before, tree, outer, form, rfl⟩ := reached.of_after
    cases Node.formed form with
    | @object _ _ _ parts each =>
      obtain ⟨parts, ⟨key, last⟩, rfl, others, bears⟩ := forall₂_reverse_cons each
      refine ⟨_, .after (.object outer _ others _ _ _) bears.value, ?_⟩
      obtain rfl := bears.key
      rw [Placed.sign, closes, Tree.signs, fieldSigns_concat]
      simp [Token.sign, Field.key]

/-- The words that have been passed, and those of the tokens up to the end of the text, are the words of the
form that comes out. -/
theorem signs_of_build {turn : Turn} {frames : List Frame} {tokens : List Placed} {root : Node} {tree : Tree}
    (built : build turn frames tokens = ⟨root, none⟩) (form : root.tree? = some tree) :
    ∃ before more, Reached turn frames before ∧
      before ++ tokens.map Placed.sign = tree.signs ++ .eof :: more := by
  induction tokens generalizing turn frames with
  | nil =>
    have formless : (build turn frames []).root.tree? = none := formless_cutFrames rfl frames
    rw [built, form] at formless
    cases formless
  | cons placed rest ih =>
    obtain ⟨turn', frames', steps, next⟩ | ends := build_cases turn frames placed rest
    · obtain ⟨signs, more, reached, passed⟩ := ih (next.symm.trans built)
      obtain ⟨before, here, rfl⟩ := steps.passes reached
      exact ⟨before, more, here, by simpa using passed⟩
    · rw [built] at ends
      cases ends with
      | whole eof =>
        refine ⟨_, rest.map Placed.sign, .after .nil form, ?_⟩
        rw [List.map_cons, Placed.sign, eof]
        rfl
      | broken formless =>
        rw [form] at formless
        cases formless

end Document

namespace Tree

theorem sound_signs (tree : Tree) : ∀ sign ∈ tree.signs, sign ≠ .flaw ∧ sign ≠ .eof := by
  induction tree with
  | null | boolean | number | text => simp [signs]
  | list items ih =>
    have each : ∀ sign ∈ itemSigns items, sign ≠ .flaw ∧ sign ≠ .eof := by
      induction items with
      | nil => simp [itemSigns]
      | cons item items further =>
        obtain ⟨first, others⟩ := List.forall_mem_cons.1 ih
        cases items with
        | nil => simpa [itemSigns] using first
        | cons second items =>
          have rest := further others
          rw [itemSigns]
          · simp only [List.forall_mem_append, List.forall_mem_cons]
            exact ⟨first, by simp, rest⟩
          · simp
    simpa [signs, or_imp, forall_and] using each
  | object parts ih =>
    have each : ∀ sign ∈ fieldSigns parts, sign ≠ .flaw ∧ sign ≠ .eof := by
      induction parts with
      | nil => simp [fieldSigns]
      | cons part parts further =>
        obtain ⟨first, others⟩ := List.forall_mem_cons.1 ih
        cases parts with
        | nil => simpa [fieldSigns] using first
        | cons second parts =>
          have rest := further others
          rw [fieldSigns]
          · simp only [List.forall_mem_append, List.forall_mem_cons]
            exact ⟨by simp, by simp, first, by simp, rest⟩
          · simp
    simpa [signs, or_imp, forall_and] using each

/-- A text is of some form if it is read as a document with a root of that form, and nothing after it. -/
theorem spelled_iff {tree : Tree} {text : String} :
    tree.Spelled text ↔ ∃ root, Document.read text = ⟨root, none⟩ ∧ root.tree? = some tree := by
  refine ⟨Spelled.read, ?_⟩
  rintro ⟨root, read, form⟩
  obtain ⟨before, more, reached, signs⟩ := Document.signs_of_build read form
  have start : before = [] := by
    cases reached.of_inner rfl
    rfl
  rw [start, List.nil_append] at signs
  exact .of_listFrom signs tree.sound_signs (Nat.lt_succ_self _)

end Tree

end FlowTree.Json
