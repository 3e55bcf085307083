import FlowTree.Proofs.Results
import FlowTree.Proofs.Run.Poised

/-! Trees in which it cannot be seen when blocks hand back. A block hands back before it has come to all of
its branches only if two of them have asked to be polled again, and only blocks ask for that. What is
around it can take its turn then, so it must not have several branches. -/

set_option autoImplicit false

namespace FlowTree

open List (Forall₂)

namespace Statement

mutual

/-- Whether there is a parallel block in a statement. -/
def forks : Statement → Bool
  | .invocation _ | .noop => false
  | .sequence elements => forksAny elements
  | .parallel _ => true

def forksAny : List Statement → Bool
  | [] => false
  | s :: rest => forks s || forksAny rest

end

/-- Branches of which there are at most two, or of which at most one holds a block. -/
def Sparse (branches : List Statement) : Prop :=
  branches.length ≤ 2 ∨ branches.Pairwise fun s r => ¬ (s.forks = true ∧ r.forks = true)

/-- A statement of which every block has sparse branches. -/
inductive Slender : Statement → Prop where
  | noop : Slender .noop
  | invocation (call : Invocation) : Slender (.invocation call)
  | sequence {elements : List Statement} (each : ∀ s ∈ elements, Slender s) : Slender (.sequence elements)
  | parallel {branches : List Statement} (each : ∀ s ∈ branches, Slender s) (sparse : Sparse branches) :
    Slender (.parallel branches)

/-- A tree in which the blocks have sparse branches that stand in a block with several branches. -/
inductive Tame : Statement → Prop where
  | noop : Tame .noop
  | invocation (call : Invocation) : Tame (.invocation call)
  | sequence {elements : List Statement} (each : ∀ s ∈ elements, Tame s) : Tame (.sequence elements)
  | single {s : Statement} (tame : Tame s) : Tame (.parallel [s])
  | parallel {branches : List Statement} (each : ∀ s ∈ branches, Slender s) : Tame (.parallel branches)

theorem forksAny_iff {parts : List Statement} : forksAny parts = true ↔ ∃ s ∈ parts, s.forks = true := by
  induction parts with
  | nil => exact iff_of_false Bool.false_ne_true fun ⟨_, mem, _⟩ => List.not_mem_nil mem
  | cons s rest ih => rw [forksAny, Bool.or_eq_true, ih, List.exists_mem_cons_iff]

theorem Slender.tame {s : Statement} (slender : s.Slender) : s.Tame := by
  induction slender with
  | noop => exact .noop
  | invocation call => exact .invocation call
  | sequence _ ih => exact .sequence ih
  | parallel each => exact .parallel each

instance (branches : List Statement) : Decidable (Sparse branches) :=
  inferInstanceAs (Decidable (_ ∨ _))

mutual

def isSlender : Statement → Bool
  | .invocation _ | .noop => true
  | .sequence elements => areSlender elements
  | .parallel branches => areSlender branches && decide (Sparse branches)

def areSlender : List Statement → Bool
  | [] => true
  | s :: rest => isSlender s && areSlender rest

end

mutual

def isTame : Statement → Bool
  | .invocation _ | .noop => true
  | .sequence elements => areTame elements
  | .parallel branches => if branches.length = 1 then areTame branches else areSlender branches

def areTame : List Statement → Bool
  | [] => true
  | s :: rest => isTame s && areTame rest

end

theorem areSlender_iff {parts : List Statement} :
    areSlender parts = true ↔ ∀ s ∈ parts, s.isSlender = true := by
  induction parts with
  | nil => exact iff_of_true rfl nofun
  | cons s rest ih => rw [areSlender, Bool.and_eq_true, ih, List.forall_mem_cons]

theorem areTame_iff {parts : List Statement} : areTame parts = true ↔ ∀ s ∈ parts, s.isTame = true := by
  induction parts with
  | nil => exact iff_of_true rfl nofun
  | cons s rest ih => rw [areTame, Bool.and_eq_true, ih, List.forall_mem_cons]

theorem isSlender_iff {s : Statement} : s.isSlender = true ↔ s.Slender := by
  induction s with
  | invocation call => exact iff_of_true rfl (.invocation call)
  | noop => exact iff_of_true rfl .noop
  | sequence elements ih =>
    rw [isSlender, areSlender_iff]
    refine ⟨fun each => .sequence fun s mem => (ih s mem).1 (each s mem), fun slender s mem => ?_⟩
    cases slender with | sequence each
    exact (ih s mem).2 (each s mem)
  | parallel branches ih =>
    rw [isSlender, Bool.and_eq_true, areSlender_iff, decide_eq_true_iff]
    constructor
    · rintro ⟨each, sparse⟩
      exact .parallel (fun s mem => (ih s mem).1 (each s mem)) sparse
    · intro slender
      cases slender with | parallel each sparse
      exact ⟨fun s mem => (ih s mem).2 (each s mem), sparse⟩

theorem isTame_iff {s : Statement} : s.isTame = true ↔ s.Tame := by
  induction s with
  | invocation call => exact iff_of_true rfl (.invocation call)
  | noop => exact iff_of_true rfl .noop
  | sequence elements ih =>
    rw [isTame, areTame_iff]
    refine ⟨fun each => .sequence fun s mem => (ih s mem).1 (each s mem), fun tame s mem => ?_⟩
    cases tame with | sequence each
    exact (ih s mem).2 (each s mem)
  | parallel branches ih =>
    rw [isTame]
    split
    · next one =>
      obtain ⟨s, rfl⟩ := List.length_eq_one_iff.1 one
      rw [areTame, areTame, Bool.and_true, ih s List.mem_cons_self]
      refine ⟨.single, fun tame => ?_⟩
      cases tame with
      | single tame => exact tame
      | parallel each => exact (each s List.mem_cons_self).tame
    · next several =>
      simp only [areSlender_iff, isSlender_iff]
      refine ⟨.parallel, fun tame => ?_⟩
      cases tame with
      | single => exact absurd rfl several
      | parallel each => exact each

instance (s : Statement) : Decidable s.Tame := decidable_of_iff _ isTame_iff

theorem Sparse.of_forall₂ {parts others : List Statement}
    (each : Forall₂ (fun s r => s.forks = true → r.forks = true) parts others) (sparse : Sparse others) :
    Sparse parts := by
  rcases sparse with few | apart
  · exact .inl (each.length_eq ▸ few)
  refine .inr ?_
  induction each with
  | nil => exact .nil
  | cons first rest ih =>
    obtain ⟨head, tail⟩ := List.pairwise_cons.1 apart
    refine .cons (fun s mem both => ?_) (ih tail)
    obtain ⟨r, within, forks⟩ := exists_of_forall₂ rest.flip mem
    exact head r within ⟨first both.1, forks both.2⟩

theorem Sparse.of_sublist {parts others : List Statement} (sub : parts.Sublist others) (sparse : Sparse others) :
    Sparse parts :=
  sparse.imp (Nat.le_trans sub.length_le) fun apart => apart.sublist sub

/-- A statement that is as good as another one. -/
structure Milder (s r : Statement) : Prop where
  tame : r.Tame → s.Tame
  slender : r.Slender → s.Slender
  forks : s.forks = true → r.forks = true

namespace Milder

variable {s r t : Statement} {parts others : List Statement}

theorem refl (s : Statement) : s.Milder s := ⟨id, id, id⟩

theorem trans (first : s.Milder r) (next : r.Milder t) : s.Milder t where
  tame tame := first.tame (next.tame tame)
  slender slender := first.slender (next.slender slender)
  forks forks := next.forks (first.forks forks)

/-- Each element is as good as one of the others, in whatever order. -/
theorem sequence (each : ∀ s ∈ parts, ∃ r ∈ others, s.Milder r) :
    (Statement.sequence parts).Milder (.sequence others) where
  tame tame := by
    cases tame with | sequence old
    refine .sequence fun s mem => ?_
    obtain ⟨r, within, milder⟩ := each s mem
    exact milder.tame (old r within)
  slender slender := by
    cases slender with | sequence old
    refine .sequence fun s mem => ?_
    obtain ⟨r, within, milder⟩ := each s mem
    exact milder.slender (old r within)
  forks forks := by
    obtain ⟨s, mem, forks⟩ := forksAny_iff.1 forks
    obtain ⟨r, within, milder⟩ := each s mem
    exact forksAny_iff.2 ⟨r, within, milder.forks forks⟩

theorem element (mem : s ∈ parts) : s.Milder (.sequence parts) where
  tame tame := by
    cases tame with | sequence each
    exact each s mem
  slender slender := by
    cases slender with | sequence each
    exact each s mem
  forks forks := forksAny_iff.2 ⟨s, mem, forks⟩

theorem single (s : Statement) : s.Milder (.parallel [s]) where
  tame tame := by
    cases tame with
    | single tame => exact tame
    | parallel each => exact (each s List.mem_cons_self).tame
  slender slender := by
    cases slender with | parallel each
    exact each s List.mem_cons_self
  forks _ := rfl

theorem parallel (each : Forall₂ Milder parts others) :
    (Statement.parallel parts).Milder (.parallel others) where
  tame tame := by
    cases tame with
    | single tame =>
      cases each with | cons first rest
      cases rest
      exact .single (first.tame tame)
    | parallel old =>
      refine .parallel fun s mem => ?_
      obtain ⟨r, within, milder⟩ := exists_of_forall₂ each.flip mem
      exact milder.slender (old r within)
  slender slender := by
    cases slender with | parallel old sparse
    refine .parallel (fun s mem => ?_) (.of_forall₂ (each.imp fun _ _ => Milder.forks) sparse)
    obtain ⟨r, within, milder⟩ := exists_of_forall₂ each.flip mem
    exact milder.slender (old r within)
  forks _ := rfl

/-- A block with fewer branches. -/
theorem fewer (sub : parts.Sublist others) : (Statement.parallel parts).Milder (.parallel others) where
  tame tame := by
    cases tame with
    | @single s tame =>
      rcases List.sublist_singleton.1 sub with rfl | rfl
      · exact .parallel nofun
      · exact .single tame
    | parallel old => exact .parallel fun s mem => old s (sub.subset mem)
  slender slender := by
    cases slender with | parallel old sparse
    exact .parallel (fun s mem => old s (sub.subset mem)) (.of_sublist sub sparse)
  forks _ := rfl

end Milder

end Statement

namespace Task

/-- Whether there is a parallel block in what is left of a statement. -/
def forks : Task → Bool
  | .ended | .calling _ => false
  | .fresh s => s.forks
  | .sequence current _ rest => forks current || Statement.forksAny rest
  | .block _ _ _ => true

/-- Branches under way of which a third one is left only if at most one of them holds a block. -/
def Sparse (branches : List Task) : Prop :=
  ∀ i j k, (branches.getD i .ended).forks = true → (branches.getD j .ended).forks = true →
    (branches.getD k .ended).hasEnded = false → i = j ∨ k = i ∨ k = j

inductive Slender : Task → Prop where
  | ended : Slender .ended
  | fresh {s : Statement} (slender : s.Slender) : Slender (.fresh s)
  | calling (call : Call) : Slender (.calling call)
  | sequence {current : Task} {index : Nat} {rest : List Statement} (first : Slender current)
    (later : ∀ s ∈ rest, s.Slender) : Slender (.sequence current index rest)
  | block {branches : List Task} {queue : List Nat} {handedBack : Bool}
    (each : ∀ i, Slender (branches.getD i .ended)) (sparse : Sparse branches) :
    Slender (.block branches queue handedBack)

inductive Tame : Task → Prop where
  | ended : Tame .ended
  | fresh {s : Statement} (tame : s.Tame) : Tame (.fresh s)
  | calling (call : Call) : Tame (.calling call)
  | sequence {current : Task} {index : Nat} {rest : List Statement} (first : Tame current)
    (later : ∀ s ∈ rest, s.Tame) : Tame (.sequence current index rest)
  | single {branches : List Task} {queue : List Nat} {handedBack : Bool} (few : branches.length ≤ 1)
    (each : ∀ i, Tame (branches.getD i .ended)) : Tame (.block branches queue handedBack)
  | block {branches : List Task} {queue : List Nat} {handedBack : Bool}
    (each : ∀ i, Slender (branches.getD i .ended)) : Tame (.block branches queue handedBack)

theorem Slender.tame {t : Task} (slender : t.Slender) : t.Tame := by
  induction slender with
  | ended => exact .ended
  | fresh slender => exact .fresh slender.tame
  | calling call => exact .calling call
  | sequence _ later ih => exact .sequence ih fun s mem => (later s mem).tame
  | block each => exact .block each

/-- A task that is as good as another one. -/
structure Milder (t u : Task) : Prop where
  tame : u.Tame → t.Tame
  slender : u.Slender → t.Slender
  forks : t.forks = true → u.forks = true
  live : t.hasEnded = false → u.hasEnded = false

namespace Milder

variable {t u v : Task} {index : Nat} {rest : List Statement} {s : Statement} {branches others : List Task}
  {queue queue' : List Nat} {before after : Bool}

theorem trans (first : t.Milder u) (next : u.Milder v) : t.Milder v where
  tame tame := first.tame (next.tame tame)
  slender slender := first.slender (next.slender slender)
  forks forks := next.forks (first.forks forks)
  live live := next.live (first.live live)

theorem refl (t : Task) : t.Milder t := ⟨id, id, id, id⟩

theorem ended (t : Task) : Task.ended.Milder t := ⟨fun _ => .ended, fun _ => .ended, nofun, nofun⟩

theorem calling (call : Call) (active : t.hasEnded = false) : (Task.calling call).Milder t :=
  ⟨fun _ => .calling call, fun _ => .calling call, nofun, fun _ => active⟩

theorem sequence (first : t.Milder u) : (Task.sequence t index rest).Milder (.sequence u index rest) where
  tame tame := by
    cases tame with | sequence inner later
    exact .sequence (first.tame inner) later
  slender slender := by
    cases slender with | sequence inner later
    exact .sequence (first.slender inner) later
  forks forks := by
    rw [Task.forks, Bool.or_eq_true] at forks ⊢
    exact forks.imp_left first.forks
  live live := live

theorem elements : (Task.sequence (.fresh s) 0 rest).Milder (.fresh (.sequence (s :: rest))) where
  tame tame := by
    cases tame with | fresh tame
    cases tame with | sequence each
    exact .sequence (.fresh (each s List.mem_cons_self)) fun r mem => each r (List.mem_cons_of_mem s mem)
  slender slender := by
    cases slender with | fresh slender
    cases slender with | sequence each
    exact .sequence (.fresh (each s List.mem_cons_self)) fun r mem => each r (List.mem_cons_of_mem s mem)
  forks forks := forks
  live live := live

theorem next : (Task.sequence (.fresh s) (index + 1) rest).Milder (.sequence t index (s :: rest)) where
  tame tame := by
    cases tame with | sequence _ each
    exact .sequence (.fresh (each s List.mem_cons_self)) fun r mem => each r (List.mem_cons_of_mem s mem)
  slender slender := by
    cases slender with | sequence _ each
    exact .sequence (.fresh (each s List.mem_cons_self)) fun r mem => each r (List.mem_cons_of_mem s mem)
  forks forks := by
    rw [Task.forks, Bool.or_eq_true]
    exact .inr forks
  live live := live

theorem getD_set (first : t.Milder (branches.getD index .ended)) (i : Nat) :
    ((branches.set index t).getD i .ended).Milder (branches.getD i .ended) := by
  by_cases eq : index = i
  · subst eq
    rw [List.getD_eq_getElem?_getD, List.getElem?_set_self']
    cases found : branches[index]? with
    | none => exact .ended _
    | some old => exact first
  · rw [List.getD_eq_getElem?_getD, List.getElem?_set_ne eq, ← List.getD_eq_getElem?_getD]
    exact .refl _

theorem block (size : branches.length = others.length)
    (each : ∀ i, (branches.getD i .ended).Milder (others.getD i .ended)) :
    (Task.block branches queue after).Milder (.block others queue' before) where
  tame tame := by
    cases tame with
    | single few old => exact .single (size ▸ few) fun i => (each i).tame (old i)
    | block old => exact .block fun i => (each i).slender (old i)
  slender slender := by
    cases slender with | block old sparse
    exact .block (fun i => (each i).slender (old i)) fun i j k one other live =>
      sparse i j k ((each i).forks one) ((each j).forks other) ((each k).live live)
  forks forks := forks
  live live := live

theorem again : (Task.block branches queue after).Milder (.block branches queue' before) :=
  .block rfl fun _ => .refl _

theorem set (first : t.Milder (branches.getD index .ended)) :
    (Task.block (branches.set index t) queue after).Milder (.block branches queue' before) :=
  .block List.length_set first.getD_set

theorem sparse_fresh {parts : List Statement} (sparse : Statement.Sparse parts) :
    Task.Sparse (parts.map .fresh) := by
  intro i j k one other live
  rcases getD_fresh parts i with ⟨eq, -⟩ | ⟨s, eq, at_i⟩ <;> rw [eq] at one
  · cases one
  rcases getD_fresh parts j with ⟨eq, -⟩ | ⟨r, eq, at_j⟩ <;> rw [eq] at other
  · cases other
  rcases getD_fresh parts k with ⟨eq, -⟩ | ⟨q, eq, at_k⟩
  · rw [eq] at live
    cases live
  obtain ⟨i_lt, rfl⟩ := List.getElem?_eq_some_iff.1 at_i
  obtain ⟨j_lt, rfl⟩ := List.getElem?_eq_some_iff.1 at_j
  obtain ⟨k_lt, rfl⟩ := List.getElem?_eq_some_iff.1 at_k
  rcases sparse with few | apart
  · omega
  · rw [List.pairwise_iff_getElem] at apart
    rcases Nat.lt_trichotomy i j with less | eq | less
    · exact absurd ⟨one, other⟩ (apart i j i_lt j_lt less)
    · exact .inl eq
    · exact absurd ⟨other, one⟩ (apart j i j_lt i_lt less)

theorem started {parts : List Statement} :
    (Task.block (parts.map .fresh) queue after).Milder (.fresh (.parallel parts)) where
  tame tame := by
    cases tame with | fresh tame
    cases tame with
    | @single s tame =>
      refine .single (Nat.le_refl 1) fun i => ?_
      rcases getD_fresh [s] i with ⟨eq, -⟩ | ⟨r, eq, at_i⟩ <;> rw [eq]
      · exact .ended
      · rw [List.mem_singleton.1 (List.mem_of_getElem? at_i)]
        exact .fresh tame
    | parallel each =>
      refine .block fun i => ?_
      rcases getD_fresh parts i with ⟨eq, -⟩ | ⟨r, eq, at_i⟩ <;> rw [eq]
      · exact .ended
      · exact .fresh (each r (List.mem_of_getElem? at_i))
  slender slender := by
    cases slender with | fresh slender
    cases slender with | parallel each sparse
    refine .block (fun i => ?_) (sparse_fresh sparse)
    rcases getD_fresh parts i with ⟨eq, -⟩ | ⟨r, eq, at_i⟩ <;> rw [eq]
    · exact .ended
    · exact .fresh (each r (List.mem_of_getElem? at_i))
  forks forks := forks
  live live := live

end Milder

variable {setting : Setting} {place : Position} {w w' : World} {t new : Task}

/-- A task that goes on is as good as before. -/
theorem Polls.milder (h : Polls setting t place w w' (.waiting new)) : new.Milder t := by
  generalize eq : Progress.waiting new = progress at h
  induction h generalizing new with
  | ended | noop | skip | nothing | stop | last | branchFails => cases eq
  | @start _ _ _ _ state | @resume _ _ _ _ state =>
    rcases state with call | outcome <;> cases eq
    exact .calling call rfl
  | elements _ ih => exact (ih eq).trans .elements
  | wait _ ih =>
    cases eq
    exact .sequence (ih rfl)
  | next _ _ _ later => exact (later eq).trans .next
  | branches _ ih => exact (ih eq).trans .started
  | rest =>
    obtain ⟨rfl, -⟩ := ofBranches_waiting eq.symm
    exact .again
  | branchWaits _ _ ih later => exact (later eq).trans (.set (ih rfl))
  | branchWaitsLast _ _ ih =>
    obtain ⟨rfl, -⟩ := ofBranches_waiting eq.symm
    exact .set (ih rfl)
  | branchOk _ _ _ later => exact (later eq).trans (.set (.ended _))

/-- Only blocks ask to be polled again. -/
theorem Polls.forks_of_woken (h : Polls setting t place w w' (.waiting new)) (woken : new.woken = true) :
    new.forks = true := by
  generalize eq : Progress.waiting new = progress at h
  induction h generalizing new with
  | ended | noop | skip | nothing | stop | last | branchFails => cases eq
  | @start _ _ _ _ state | @resume _ _ _ _ state =>
    rcases state with call | outcome <;> cases eq
    cases woken
  | elements _ ih | branches _ ih => exact ih woken eq
  | @wait _ task _ _ _ _ _ _ ih =>
    cases eq
    have inner : task.forks = true := ih woken rfl
    rw [forks, inner, Bool.true_or]
  | next _ _ _ later | branchWaits _ _ _ later | branchOk _ _ _ later => exact later woken eq
  | rest | branchWaitsLast =>
    obtain ⟨rfl, -⟩ := ofBranches_waiting eq.symm
    rfl

end Task

end FlowTree
