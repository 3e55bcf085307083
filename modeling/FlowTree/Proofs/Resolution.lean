import FlowTree.Authored.Resolution
import FlowTree.Proofs.Quoting

/-! Which definitions can be resolved, and which statement is named where one cannot. A statement offends
by itself or not at all; resolution looks for the first one that does, among those that it comes to
without passing another. The path in its report leads to that statement and to no other. -/

set_option autoImplicit false

namespace FlowTree.Authored

open Function (Injective)

/-- Of two steps from one statement the first leads to an earlier part. -/
inductive PathStep.Precedes : PathStep → PathStep → Prop where
  | sequence {i j : Nat} (earlier : i < j) : Precedes (.sequence i) (.sequence j)
  | parallel {i j : Nat} (earlier : i < j) : Precedes (.parallel i) (.parallel j)

/-- The order in which statements are written: one before its parts, and parts in list order. -/
inductive Path.Precedes : Path → Path → Prop where
  | whole (step : PathStep) (rest : Path) : Precedes [] (step :: rest)
  | apart {step other : PathStep} (earlier : step.Precedes other) (rest rest' : Path) :
    Precedes (step :: rest) (other :: rest')
  | within (step : PathStep) {rest rest' : Path} (later : Precedes rest rest') :
    Precedes (step :: rest) (step :: rest')

theorem PathStep.Precedes.asymm {step other : PathStep} (earlier : step.Precedes other) :
    ¬ other.Precedes step := by
  cases earlier with
  | sequence earlier | parallel earlier =>
    intro later
    cases later
    omega

theorem Path.Precedes.asymm {p q : Path} (earlier : Precedes p q) : ¬ Precedes q p := by
  induction earlier with
  | whole => nofun
  | apart earlier =>
    intro later
    cases later with
    | apart later => exact earlier.asymm later
    | within => exact earlier.asymm earlier
  | within step _ ih =>
    intro later
    cases later with
    | apart later => exact later.asymm later
    | within _ later => exact ih later

namespace Statement

/-- A statement that cannot be resolved, wherever it stands. -/
inductive Offends (s : Statement) : Prop where
  /-- More than one of its entries is set. -/
  | ambiguous (several : 1 < s.variantCount)
  /-- It is a call and has no name but white space. -/
  | nameless (call : Invocation) (only : s = ⟨some call, none, none⟩) (blank : Text.trim call.name = "")

inductive Blames (path : Path) (s : Statement) : Offence → Prop where
  | ambiguous (several : 1 < s.variantCount) : Blames path s (.ambiguous path)
  | nameless (call : Invocation) (only : s = ⟨some call, none, none⟩)
    (blank : Text.trim call.name = "") : Blames path s (.nameless path)

def part? (s : Statement) : PathStep → Option Statement
  | .sequence index => s.sequence.bind (·[index]?)
  | .parallel index => s.parallel.bind (·[index]?)

inductive Leads : Statement → Path → Statement → Prop where
  | here (s : Statement) : Leads s [] s
  | step {s r t : Statement} {step : PathStep} {rest : Path} (part : s.part? step = some r)
    (further : Leads r rest t) : Leads s (step :: rest) t

/-- A path leads to a statement by way of statements that do not offend. -/
inductive Reaches : Statement → Path → Statement → Prop where
  | here (s : Statement) : Reaches s [] s
  | step {s r t : Statement} {step : PathStep} {rest : Path} (fine : ¬ s.Offends)
    (part : s.part? step = some r) (further : Reaches r rest t) : Reaches s (step :: rest) t

structure FirstOffending (root : Statement) (path : Path) (s : Statement) : Prop where
  leads : root.Leads path s
  offends : s.Offends
  first : ∀ p t, root.Leads p t → t.Offends → p = path ∨ path.Precedes p

variable {s t : Statement} {path p : Path} {offence : Offence}

theorem Blames.offends (blames : s.Blames path offence) : s.Offends := by
  cases blames with
  | ambiguous several => exact .ambiguous several
  | nameless call only blank => exact .nameless call only blank

theorem Blames.unique {other : Offence} (blames : s.Blames path offence)
    (blames' : s.Blames path other) : offence = other := by
  cases blames with
  | ambiguous several =>
    cases blames' with
    | ambiguous => rfl
    | nameless call only =>
      subst only
      exact absurd several (Nat.lt_irrefl 1)
  | nameless call only =>
    cases blames' with
    | ambiguous several =>
      subst only
      exact absurd several (Nat.lt_irrefl 1)
    | nameless => rfl

theorem Leads.unique (leads : s.Leads path t) {u : Statement} (leads' : s.Leads path u) : t = u := by
  induction leads with
  | here =>
    cases leads'
    rfl
  | step part _ ih =>
    cases leads' with | step part' further =>
    cases part.symm.trans part'
    exact ih further

theorem Reaches.leads (reached : s.Reaches path t) : s.Leads path t := by
  induction reached with
  | here => exact .here _
  | step _ part _ ih => exact .step part ih

theorem FirstOffending.unique (first : s.FirstOffending path t) {u : Statement}
    (first' : s.FirstOffending p u) : p = path ∧ u = t := by
  have same : p = path := by
    rcases first.first p u first'.leads first'.offends with same | later
    · exact same
    · rcases first'.first path t first.leads first.offends with same | earlier
      · exact same.symm
      · exact absurd earlier later.asymm
  subst same
  exact ⟨rfl, first'.leads.unique first.leads⟩

theorem FirstOffending.here (offends : s.Offends) : s.FirstOffending [] s := by
  refine ⟨.here s, offends, fun p t _ _ => ?_⟩
  cases p with
  | nil => exact .inl rfl
  | cons step rest => exact .inr (.whole step rest)

def Clean (s : Statement) : Prop := ∀ path t, s.Leads path t → ¬ t.Offends

-- Behind a statement that offends nothing is reached, but that one is reached itself.
theorem clean_iff : s.Clean ↔ ∀ path t, s.Reaches path t → ¬ t.Offends := by
  constructor
  · exact fun clean path t reached => clean path t reached.leads
  · intro fine path t leads
    induction leads with
    | here s => exact fine [] s (.here s)
    | step part _ ih =>
      have whole := fine [] _ (.here _)
      exact ih fun path t reached => fine _ t (.step whole part reached)

theorem Clean.of_bare (fine : ¬ s.Offends) (bare : ∀ step, s.part? step = none) : s.Clean := by
  intro path t leads
  cases leads with
  | here => exact fine
  | step part =>
    rw [bare] at part
    cases part

/-- A result of resolution at a path that does a statement justice. -/
inductive Judges {α : Type} (path : Path) (s : Statement) : Except Offence α → Prop where
  | accepts (result : α) (clean : s.Clean) : Judges path s (.ok result)
  | refuses {p : Path} {t : Statement} {offence : Offence} (first : s.FirstOffending p t)
    (blames : t.Blames (path ++ p) offence) : Judges path s (.error offence)

/-- A result of resolution that does parts justice, of which the first has the given index. -/
inductive JudgesParts {α : Type} (place : Nat → Path) (index : Nat) (parts : List Statement) :
    Except Offence α → Prop where
  | accepts (result : α) (clean : ∀ s ∈ parts, s.Clean) : JudgesParts place index parts (.ok result)
  | refuses {i : Nat} {s : Statement} {offence : Offence} (part : parts[i]? = some s)
    (judges : Judges (place (index + i)) s (.error offence : Except Offence α))
    (before : ∀ j t, j < i → parts[j]? = some t → t.Clean) :
    JudgesParts place index parts (.error offence)

theorem Judges.of_offends {α : Type} (blames : s.Blames path offence) :
    Judges path s (.error offence : Except Offence α) := by
  refine .refuses (.here blames.offends) ?_
  rwa [List.append_nil]

theorem resolveParts_judges {parts : List Statement}
    (each : ∀ s ∈ parts, ∀ path, Judges path s (s.resolve path)) (place : Nat → Path) (index : Nat) :
    JudgesParts place index parts (resolveParts place index parts) := by
  induction parts generalizing index with
  | nil => exact .accepts [] nofun
  | cons s rest ih =>
    have judged := each s List.mem_cons_self (place index)
    have later := ih (fun t mem => each t (List.mem_cons_of_mem _ mem)) (index + 1)
    rw [resolveParts]
    generalize s.resolve (place index) = result at judged ⊢
    generalize resolveParts place (index + 1) rest = others at later ⊢
    cases judged with
    | refuses first blames => exact .refuses (i := 0) rfl (.refuses first blames) nofun
    | accepts result clean =>
      cases later with
      | accepts results cleans => exact .accepts (result :: results) (List.forall_mem_cons.2 ⟨clean, cleans⟩)
      | @refuses i t offence part judges before =>
        rw [Nat.add_assoc, Nat.add_comm 1] at judges
        refine .refuses (i := i + 1) part judges fun j u earlier part => ?_
        cases j with
        | zero =>
          cases part
          exact clean
        | succ j => exact before j u (Nat.lt_of_succ_lt_succ earlier) part

-- Sequences and parallel blocks differ only in their steps, so this serves for both.
theorem JudgesParts.block {α β : Type} {parts : List Statement} {steps : Nat → PathStep}
    {result : Except Offence α} (judged : JudgesParts (fun i => path ++ [steps i]) 0 parts result)
    (make : α → β) (fine : ¬ s.Offends)
    (only : ∀ {step r}, s.part? step = some r → ∃ i, step = steps i ∧ parts[i]? = some r)
    (part : ∀ i, s.part? (steps i) = parts[i]?)
    (order : ∀ {i j}, i < j → (steps i).Precedes (steps j)) : Judges path s (result.map make) := by
  cases judged with
  | accepts result clean =>
    refine .accepts (make result) fun q t leads => ?_
    cases leads with
    | here => exact fine
    | step there further =>
      obtain ⟨i, rfl, found⟩ := only there
      exact clean _ (List.mem_of_getElem? found) _ _ further
  | @refuses i r offence found judges before =>
    rw [Nat.zero_add] at judges
    cases judges with | @refuses p t _ first blames =>
    rw [List.append_assoc] at blames
    refine .refuses ⟨.step ((part i).trans found) first.leads, first.offends, ?_⟩ blames
    intro q u leads offends
    cases leads with
    | here => exact absurd offends fine
    | @step _ r' _ _ rest there further =>
      obtain ⟨j, rfl, found'⟩ := only there
      rcases Nat.lt_trichotomy j i with earlier | rfl | later
      · exact absurd offends (before j r' earlier found' rest u further)
      · cases found.symm.trans found'
        exact (first.first rest u further offends).imp (congrArg _) (.within _)
      · exact .inr (.apart (order later) _ _)

theorem not_offends_of_parts {sequence parallel : Option (List Statement)}
    (single : variantCount ⟨none, sequence, parallel⟩ ≤ 1) : ¬ Offends ⟨none, sequence, parallel⟩ := by
  intro offends
  cases offends with
  | ambiguous several => omega
  | nameless call only => cases only

theorem not_offends_of_named {call : Invocation} (named : Text.trim call.name ≠ "") :
    ¬ Offends ⟨some call, none, none⟩ := by
  intro offends
  cases offends with
  | ambiguous several => exact absurd several (Nat.lt_irrefl 1)
  | nameless call only blank =>
    cases only
    exact named blank

-- The cases are the entries that are set. Where several are, the parts are not looked at.
theorem resolve_judges (s : Statement) (path : Path) : Judges path s (s.resolve path) := by
  induction s generalizing path with
  | mk invocation sequence parallel elements branches =>
    cases invocation with
    | some call =>
      cases sequence with
      | some => exact .of_offends (.ambiguous (Nat.le_add_right 2 _))
      | none =>
        cases parallel with
        | some => exact .of_offends (.ambiguous (Nat.le_refl 2))
        | none =>
          rw [resolve, Invocation.resolve]
          split
          · next blank => exact .of_offends (.nameless call rfl blank)
          · next named =>
            exact .accepts _ (.of_bare (not_offends_of_named named) fun step => by cases step <;> rfl)
    | none =>
      cases sequence with
      | none =>
        cases parallel with
        | none =>
          exact .accepts _ (.of_bare (not_offends_of_parts (Nat.zero_le 1))
            fun step => by cases step <;> rfl)
        | some parts =>
          rw [resolve]
          refine (resolveParts_judges (branches parts rfl) _ 0).block _
            (not_offends_of_parts (Nat.le_refl 1)) ?_ (fun _ => rfl) .parallel
          intro step r there
          cases step with
          | sequence => cases there
          | parallel i => exact ⟨i, rfl, there⟩
      | some parts =>
        cases parallel with
        | some => exact .of_offends (.ambiguous (Nat.le_refl 2))
        | none =>
          rw [resolve]
          refine (resolveParts_judges (elements parts rfl) _ 0).block _
            (not_offends_of_parts (Nat.le_refl 1)) ?_ (fun _ => rfl) .sequence
          intro step r there
          cases step with
          | parallel => cases there
          | sequence i => exact ⟨i, rfl, there⟩

end Statement

section Texts

theorem bracket_notMem_decimal (n : Nat) : ']' ∉ (Text.decimal n).toList := by
  intro mem
  rw [Text.decimal, Nat.toList_repr] at mem
  exact absurd (Nat.isDigit_of_mem_toDigits (by decide) (by decide) mem) (by decide)

theorem PathStep.text_append_inj {step other : PathStep} {x y : List Char}
    (same : step.text.toList ++ x = other.text.toList ++ y) : step = other ∧ x = y := by
  have index {i j : Nat} (same : (Text.decimal i).toList ++ ']' :: x = (Text.decimal j).toList ++ ']' :: y) :
      i = j ∧ x = y := by
    obtain ⟨digits, rest⟩ :=
      Text.eq_of_marked (bracket_notMem_decimal i) (bracket_notMem_decimal j) same
    exact ⟨Text.decimal_injective (String.toList_inj.1 digits), rest⟩
  cases step <;> cases other <;>
    simp [PathStep.text] at same ⊢ <;>
    exact index same

theorem Path.text_injective : Injective Path.text := by
  have steps : Injective fun path : Path => path.flatMap fun step => step.text.toList := by
    intro path other same
    induction path generalizing other with
    | nil =>
      cases other with
      | nil => rfl
      | cons step rest => cases step <;> simp [PathStep.text] at same
    | cons step rest ih =>
      cases other with
      | nil => cases step <;> simp [PathStep.text] at same
      | cons step' rest' =>
        simp only [List.flatMap_cons] at same
        obtain ⟨rfl, later⟩ := PathStep.text_append_inj same
        rw [ih later]
  intro path other same
  have chars := congrArg String.toList same
  simp only [Path.text, String.toList_append, String.toList_join, List.flatMap_map,
    List.append_cancel_left_eq] at chars
  exact steps chars

example : Path.text [.sequence 1, .parallel 0] = "root.sequence[1].parallel[0]" := by decide

end Texts

structure Workflow.Judged (workflow : Workflow) : Prop where
  accepts : (∃ resolved, workflow.resolve = .ok resolved) ↔
    ∀ path s, workflow.root.Reaches path s → ¬ s.Offends
  refuses : ∀ offence, workflow.resolve = .error offence ↔
    ∃ path s, workflow.root.FirstOffending path s ∧ s.Blames path offence
  placed : ∀ path s offence, Statement.Blames path s offence →
    offence.place = if 1 < s.variantCount then path.text else path.text ++ ".invocation"
  alone : ∀ path s t, workflow.root.Leads path s → workflow.root.Leads path t → s = t
  apart : Injective Path.text

/-- Resolution accepts the definitions in which nothing offends that it comes to. Of any other it reports
the first statement that does, by a path that belongs to no other statement. -/
theorem Workflow.resolve_reports (workflow : Workflow) : workflow.Judged := by
  have judged := workflow.root.resolve_judges []
  have resolution : ∃ make : FlowTree.Statement → FlowTree.Workflow,
      workflow.resolve = (workflow.root.resolve []).map make := by
    let id := workflow.workflowId.getD FlowTree.Workflow.defaultId
    refine ⟨fun root => { id, name := workflow.name.getD id, seed := workflow.seed, root }, ?_⟩
    unfold resolve
    cases workflow.root.resolve [] <;> rfl
  obtain ⟨make, eq⟩ := resolution
  generalize workflow.root.resolve [] = result at judged eq
  constructor
  case accepts =>
    rw [eq, ← Statement.clean_iff]
    cases judged with
    | accepts root clean => exact ⟨fun _ => clean, fun _ => ⟨make root, rfl⟩⟩
    | refuses first =>
      exact ⟨nofun, fun clean => absurd first.offends (clean _ _ first.leads)⟩
  case refuses =>
    intro offence
    rw [eq]
    cases judged with
    | accepts root clean =>
      refine ⟨nofun, ?_⟩
      rintro ⟨path, s, first, _⟩
      exact absurd first.offends (clean path s first.leads)
    | @refuses p t reported first blames =>
      constructor
      · intro same
        cases same
        exact ⟨p, t, first, blames⟩
      · rintro ⟨path, s, first', blames'⟩
        obtain ⟨rfl, rfl⟩ := first'.unique first
        exact congrArg _ (blames.unique blames')
  case placed =>
    intro path s offence blames
    cases blames with
    | ambiguous several => exact (if_pos several).symm
    | nameless call only =>
      subst only
      exact (if_neg (Nat.lt_irrefl 1)).symm
  case alone => exact fun _ _ _ leads => leads.unique
  case apart => exact Path.text_injective

example : Workflow.resolve { root := { sequence := some [{}, { parallel := some [
      { invocation := some { name := "\t" } },
      { invocation := some { name := "a" }, sequence := some [] }] }] } } =
    .error (.nameless [.sequence 1, .parallel 0]) := by rfl

end FlowTree.Authored
