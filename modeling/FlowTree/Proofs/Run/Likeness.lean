import FlowTree.Proofs.Run.Going
import Mathlib.Data.List.Forall2

/-! When two runs look alike. A likeness relates the worlds and the calls of two runs such that no
operation on a call tells them apart. Two tasks are alike if they wait for the same timers and, in
worlds that are alike, go on alike and end alike; statements are alike that do so from their start. -/

set_option autoImplicit false

namespace FlowTree

open List (Forall₂)

section Lists

variable {α : Type} {related : α → α → Prop} {a b : α} {as : List α} {change : α → α}

theorem forall₂_middle (same : ∀ a, related a a) (before after : List α) (new : related a b) :
    Forall₂ related (before ++ a :: after) (before ++ b :: after) :=
  List.rel_append (List.forall₂_same.2 fun c _ => same c) (.cons new (List.forall₂_same.2 fun c _ => same c))

theorem forall₂_modify
    (same : ∀ a, related a a) (changed : ∀ a, related a (change a)) (i : Nat) :
    Forall₂ related as (as.modify i change) := by
  induction as generalizing i with
  | nil =>
    rw [List.modify_nil]
    exact .nil
  | cons a as ih =>
    cases i with
    | zero => exact .cons (changed a) (List.forall₂_same.2 fun b _ => same b)
    | succ i => exact .cons (same a) (ih i)

end Lists

/-- What an operation on a call shows in two worlds that are alike. -/
inductive CallsShow (worlds : World → World → Prop) (calls : Call → Call → Prop) :
    World × (Call ⊕ Outcome) → World × (Call ⊕ Outcome) → Prop where
  | waits {a b : World} {c d : Call} (alike : worlds a b) (related : calls c d) :
    CallsShow worlds calls (a, .inl c) (b, .inl d)
  | ends {a b : World} {outcome : Outcome} (alike : worlds a b) :
    CallsShow worlds calls (a, .inr outcome) (b, .inr outcome)

/-- A likeness of worlds and of calls that the operations on calls keep. Entries about blocks and
places in the tree do not count. -/
structure Likeness (setting : Setting) where
  worlds : World → World → Prop
  calls : Call → Call → Prop
  /-- The invocations that start alike. -/
  covers : Invocation → Prop
  clock : ∀ {a b}, worlds a b → a.clock = b.clock
  token : ∀ {a b}, worlds a b → a.cancelled = b.cancelled
  skip : ∀ {a b}, worlds a b → ∀ (place place' : Position) (name : String),
    worlds (a.skip place name) (b.skip place' name)
  noteLeft : ∀ {a a' b}, worlds a b → a.Notes a' → worlds a' b
  noteRight : ∀ {a b b'}, worlds a b → b.Notes b' → worlds a b'
  pass : ∀ {a b}, worlds a b → ∀ instant,
    worlds { a with clock := instant } { b with clock := instant }
  cancel : ∀ {a b}, worlds a b → ∀ instant,
    worlds { a with clock := instant, cancelled := true } { b with clock := instant, cancelled := true }
  timers : ∀ {c d}, calls c d →
    c.nextInstant = d.nextInstant ∧ ∀ instant, c.dueAt instant = d.dueAt instant
  start : ∀ {a b call}, worlds a b → covers call → ∀ place place' : Position,
    CallsShow worlds calls (Call.start setting place call a) (Call.start setting place' call b)
  resume : ∀ {a b c d}, worlds a b → calls c d →
    CallsShow worlds calls (c.resume setting a) (d.resume setting b)
  unwind : ∀ {a b c d}, worlds a b → calls c d →
    worlds (c.unwind setting a).1 (d.unwind setting b).1 ∧
      (c.unwind setting a).2 = (d.unwind setting b).2

namespace Likeness

variable {setting : Setting} (l : Likeness setting) (instant : Nat)

structure Meets (a b : World) : Prop where
  alike : l.worlds a b
  clock : a.clock = instant

inductive Ends : World × Outcome → World × Outcome → Prop where
  | intro {a b : World} (outcome : Outcome) (meets : l.Meets instant a b) :
    Ends (a, outcome) (b, outcome)

/-- What statements show that go on alike: they end alike, or wait with tasks that are related. -/
inductive Shows (related : Task → Task → Prop) : World × Progress → World × Progress → Prop where
  | waiting {a b : World} {t u : Task} (meets : l.Meets instant a b) (tasks : related t u)
    (active : t.hasEnded = false) : Shows related (a, .waiting t) (b, .waiting u)
  | ended {a b : World} (outcome : Outcome) (meets : l.Meets instant a b)
    (live : outcome = .ok () → a.cancelled = false) : Shows related (a, .ended outcome) (b, .ended outcome)

/-- Tasks that wait alike, end alike, and go on to tasks that are related. -/
structure Matches (related : Task → Task → Prop) (t u : Task) : Prop where
  ended : t.hasEnded = u.hasEnded
  woken : t.woken = u.woken
  next : t.nextInstant = u.nextInstant
  due : ∀ instant, t.dueAt instant = u.dueAt instant
  wake : ∀ instant, related (t.wake instant) (u.wake instant)
  poll : ∀ {instant a b}, l.Meets instant a b → t.Going a → u.Going b → ∀ place place' : Position,
    l.Shows instant related (t.poll setting place a) (u.poll setting place' b)
  unwind : ∀ {instant a b}, l.Meets instant a b → ∀ place place' : Position,
    l.Ends instant (t.unwind setting place a) (u.unwind setting place' b)

/-- Tasks that cannot be told apart: some relation holds of them that goes on to hold. -/
def Tasks (t u : Task) : Prop :=
  ∃ related, (∀ t u, related t u → l.Matches related t u) ∧ related t u

def Statements (s r : Statement) : Prop := l.Tasks (.fresh s) (.fresh r)

variable {l instant} {a b : World} {t u : Task} {related other : Task → Task → Prop}

theorem Shows.fails (failure : Failure) (meets : l.Meets instant a b) :
    l.Shows instant related (a, .ended (.error failure)) (b, .ended (.error failure)) :=
  .ended _ meets fun eq => by cases eq

theorem Shows.mono (weaker : ∀ t u, related t u → other t u) {x y : World × Progress}
    (turn : l.Shows instant related x y) : l.Shows instant other x y := by
  cases turn with
  | waiting meets tasks active => exact .waiting meets (weaker _ _ tasks) active
  | ended outcome meets live => exact .ended outcome meets live

theorem Matches.mono (weaker : ∀ t u, related t u → other t u) (matched : l.Matches related t u) :
    l.Matches other t u where
  ended := matched.ended
  woken := matched.woken
  next := matched.next
  due := matched.due
  wake := fun instant => weaker _ _ (matched.wake instant)
  poll := fun meets left right place place' => (matched.poll meets left right place place').mono weaker
  unwind := matched.unwind

theorem Tasks.matched (tasks : l.Tasks t u) : l.Matches l.Tasks t u := by
  obtain ⟨related, goes, here⟩ := tasks
  exact (goes t u here).mono fun t u here => ⟨related, goes, here⟩

-- To see that tasks cannot be told apart it is enough to give a relation that holds until they go on
-- to tasks of which this is known already.
theorem Tasks.of_matches
    (goes : ∀ t u, related t u → l.Matches (fun t u => related t u ∨ l.Tasks t u) t u)
    (here : related t u) : l.Tasks t u := by
  refine ⟨fun t u => related t u ∨ l.Tasks t u, fun t u here => ?_, .inl here⟩
  rcases here with here | known
  · exact goes t u here
  · exact known.matched.mono fun _ _ => .inr

theorem Statements.skip {s r : Statement} (statements : l.Statements s r) (meets : l.Meets instant a b)
    (place place' : Position) :
    l.Ends instant (s.skip setting.mode place a) (r.skip setting.mode place' b) :=
  (Tasks.matched statements).unwind meets place place'

theorem Statements.polls {s r : Statement} (statements : l.Statements s r) (meets : l.Meets instant a b)
    (live : a.cancelled = false) (place place' : Position) : l.Shows instant l.Tasks
      ((Task.fresh s).poll setting place a) ((Task.fresh r).poll setting place' b) :=
  (Tasks.matched statements).poll meets (.fresh live s) (.fresh ((l.token meets.alike).symm.trans live) r)
    place place'

inductive Started (s r : Statement) : Task → Task → Prop where
  | intro : Started s r (.fresh s) (.fresh r)

/-- Statements are alike of which the first polls show what is alike, and that are skipped alike. -/
theorem Statements.of_shows {s r : Statement}
    (poll : ∀ {instant a b}, l.Meets instant a b → a.cancelled = false → ∀ place place' : Position,
      l.Shows instant l.Tasks ((Task.fresh s).poll setting place a) ((Task.fresh r).poll setting place' b))
    (skip : ∀ {instant a b}, l.Meets instant a b → ∀ place place' : Position,
      l.Ends instant (s.skip setting.mode place a) (r.skip setting.mode place' b)) :
    l.Statements s r := by
  refine Tasks.of_matches (fun t u here => ?_) Started.intro
  cases here
  exact ⟨rfl, rfl, rfl, fun _ => rfl, fun _ => .inl .intro,
    fun meets left _ place place' => (poll meets left.live place place').mono fun _ _ => .inr, skip⟩

namespace Meets

theorem observe_left (meets : l.Meets instant a b) (mode : FailureMode) (place : Position)
    (earlier : List Failure) (remaining : Nat) (failure : Failure) :
    l.Meets instant (observe mode place earlier remaining failure a) b := by
  rcases observe_notes mode place earlier remaining failure a with same | notes
  · rwa [same]
  · exact ⟨l.noteLeft meets.alike notes, notes.clock.trans meets.clock⟩

theorem observe_right (meets : l.Meets instant a b) (mode : FailureMode) (place : Position)
    (earlier : List Failure) (remaining : Nat) (failure : Failure) :
    l.Meets instant a (observe mode place earlier remaining failure b) := by
  rcases observe_notes mode place earlier remaining failure b with same | notes
  · rwa [same]
  · exact ⟨l.noteRight meets.alike notes, meets.clock⟩

theorem observe (meets : l.Meets instant a b) (mode : FailureMode) (place place' : Position)
    (earlier earlier' : List Failure) (remaining remaining' : Nat) (failure failure' : Failure) :
    l.Meets instant (observe mode place earlier remaining failure a)
      (FlowTree.observe mode place' earlier' remaining' failure' b) :=
  (meets.observe_left _ _ _ _ _).observe_right _ _ _ _ _

end Meets

end Likeness

end FlowTree
