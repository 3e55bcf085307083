import FlowTree.Proofs.Run.Elements
import FlowTree.Proofs.Run.Late
import FlowTree.Proofs.Run.Likeness
import FlowTree.Proofs.Run.Sites

/-! Sequences and blocks of things that are alike are alike, and so are whole runs. Idle elements, and
sequences around some elements of a sequence, make no difference to that. -/

set_option autoImplicit false

namespace FlowTree.Likeness

open List (Forall₂)

variable {setting : Setting} {l : Likeness setting} {instant : Nat} {a b : World}
  {related : Task → Task → Prop}

theorem ofCall_shows {a' b' : World} {state state' : Call ⊕ Outcome}
    (shown : CallsShow l.worlds l.calls (a', state) (b', state')) (clock : a'.clock = instant)
    {call : Call} {mid : World} (lands : call.Lands mid a' state)
    (calling : ∀ c d, l.calls c d → related (.calling c) (.calling d)) :
    l.Shows instant related (a', .ofCall state) (b', .ofCall state') := by
  cases shown with
  | waits alike same => exact .waiting ⟨alike, clock⟩ (calling _ _ same) rfl
  | ends alike =>
    refine .ended _ ⟨alike, clock⟩ fun well => Bool.eq_false_iff.2 fun late => ?_
    obtain ⟨failure, failed⟩ := lands.fails_of_late late
    cases well.symm.trans (Sum.inr.inj failed)

inductive Calling (l : Likeness setting) : Task → Task → Prop where
  | intro {c d : Call} (same : l.calls c d) : Calling l (.calling c) (.calling d)

theorem Tasks.calling {c d : Call} (same : l.calls c d) : l.Tasks (.calling c) (.calling d) := by
  refine of_matches (fun t u here => ?_) (Calling.intro same)
  cases here with | @intro c d same
  constructor
  case ended => rfl
  case woken => rfl
  case next => exact congrArg some (l.timers same).1
  case due => exact (l.timers same).2
  case wake => exact fun _ => .inl (.intro same)
  case poll =>
    intro instant a b meets _ _ place place'
    have shown := l.resume meets.alike same
    rcases resumed : c.resume setting a with ⟨a', state⟩
    rcases resumed' : d.resume setting b with ⟨b', state'⟩
    rw [resumed, resumed'] at shown
    rw [Task.poll_eq, Task.poll_eq, Task.pollWith, Task.pollWith, resumed, resumed']
    obtain ⟨_, _, lands⟩ := Call.resume_lands resumed
    exact ofCall_shows shown ((Call.resume_clock resumed).trans meets.clock) lands
      fun _ _ same => .inl (.intro same)
  case unwind =>
    intro instant a b meets place place'
    have shown := l.unwind meets.alike same
    rcases unwound : c.unwind setting a with ⟨a', failure⟩
    rcases unwound' : d.unwind setting b with ⟨b', failure'⟩
    rw [unwound, unwound'] at shown
    obtain ⟨alike, rfl⟩ := shown
    rw [Task.unwind, Task.unwind, unwound, unwound']
    exact .intro _ ⟨alike, (Call.unwind_clock unwound).trans meets.clock⟩

inductive Ended : Task → Task → Prop where
  | intro : Ended .ended .ended

theorem Tasks.ended : l.Tasks .ended .ended := by
  refine of_matches (fun t u here => ?_) Ended.intro
  cases here
  exact ⟨rfl, rfl, rfl, fun _ => rfl, fun _ => .inl .intro, fun meets left _ _ _ => .ended _ meets fun _ => left.live,
    fun meets _ _ => .intro _ meets⟩

namespace Statements

theorem noop : l.Statements .noop .noop :=
  .of_shows (fun meets live _ _ => .ended _ meets fun _ => live) (fun meets _ _ => .intro _ meets)

theorem invocation {call : Invocation} (covered : l.covers call) :
    l.Statements (.invocation call) (.invocation call) := by
  refine .of_shows (fun {instant a b} meets _ place place' => ?_) (fun {instant a b} meets place place' => ?_)
  · rw [Task.poll_eq, Task.poll_eq, Task.pollWith, Task.pollWith, Task.pollFresh, Task.pollFresh,
      ← l.token meets.alike]
    split
    · exact .fails _ ⟨l.skip meets.alike _ _ _, meets.clock⟩
    · have shown := l.start meets.alike covered place place'
      rcases started : Call.start setting place call a with ⟨a', state⟩
      rcases started' : Call.start setting place' call b with ⟨b', state'⟩
      rw [started, started'] at shown
      obtain ⟨_, _, _, lands⟩ := Call.start_lands started
      exact ofCall_shows shown ((Call.start_clock started).trans meets.clock) lands
        fun _ _ same => .calling same
  · exact .intro _ ⟨l.skip meets.alike _ _ _, meets.clock⟩

end Statements

section Sequences

variable {rest rest' : List Statement} {t u : Task} {index index' : Nat}

/-- Elements that are alike, once sequences among them are spliced and idle elements are left out. -/
inductive Flattens (l : Likeness setting) : List Statement → List Statement → Prop where
  | nil : Flattens l [] []
  | keep {s r : Statement} {rest rest' : List Statement} (first : l.Statements s r)
    (later : Flattens l rest rest') : Flattens l (s :: rest) (r :: rest')
  | drop {s : Statement} {rest rest' : List Statement} (idle : s.Idle)
    (later : Flattens l rest rest') : Flattens l (s :: rest) rest'
  | splice {inner inner' rest rest' : List Statement} (inside : Flattens l inner inner')
    (later : Flattens l rest rest') : Flattens l (.sequence inner :: rest) (inner' ++ rest')

theorem Flattens.of_forall₂ (each : Forall₂ l.Statements rest rest') : Flattens l rest rest' := by
  induction each with
  | nil => exact .nil
  | cons first _ ih => exact .keep first ih

/-- A task, which may be a sequence at a sequence among its elements, beside a flat sequence: the elements
that these are at are alike, and so are those to come. -/
inductive Flattened (l : Likeness setting) : Task → Task → List Statement → Prop where
  | bare {t u : Task} (tasks : l.Tasks t u) (active : t.hasEnded = false) : Flattened l t u []
  | within {t u : Task} {index : Nat} {inner rest rest' : List Statement}
    (inside : Flattened l t u inner) (later : Flattens l rest rest') :
    Flattened l (.sequence t index rest) u (inner ++ rest')

inductive Sequences (l : Likeness setting) : Task → Task → Prop where
  | intro {t u : Task} {rest : List Statement} (index : Nat) (flat : Flattened l t u rest) :
    Sequences l t (.sequence u index rest)

theorem Sequences.within (sequences : Sequences l t u) (later : Flattens l rest rest') (index : Nat) :
    Sequences l (.sequence t index rest) (u.prolong rest') := by
  cases sequences with | intro index flat
  exact .intro index (.within flat later)

theorem Ends.skipAfter {x y : World × Outcome} (ends : l.Ends instant x y)
    {place place' : Position} {index index' : Nat}
    (skips : ∀ {a b}, l.Meets instant a b →
      l.Ends instant (Statement.skipSequence setting.mode rest place index a)
        (Statement.skipSequence setting.mode rest' place' index' b)) :
    l.Ends instant (Statement.skipAfter setting.mode rest place index x)
      (Statement.skipAfter setting.mode rest' place' index' y) := by
  cases ends with | intro outcome meets
  cases outcome with
  | ok => exact skips meets
  | error failure => exact .intro _ meets

theorem Ends.ofLast {x y : World × Outcome} (ends : l.Ends instant x y) (place : Position) (index : Nat) :
    l.Ends instant x (Statement.skipAfter setting.mode [] place index y) := by
  cases ends with | intro outcome meets
  cases outcome <;> exact .intro _ meets

theorem Flattens.skips (flat : Flattens l rest rest') (meets : l.Meets instant a b)
    (place place' : Position) (index index' : Nat) :
    l.Ends instant (Statement.skipSequence setting.mode rest place index a)
      (Statement.skipSequence setting.mode rest' place' index' b) := by
  induction flat generalizing a b place index index' with
  | nil => exact .intro _ meets
  | keep first _ ih =>
    rw [Statement.skipSequence_cons, Statement.skipSequence_cons]
    exact (first.skip meets _ _).skipAfter fun meets => ih meets _ _ _
  | drop idle _ ih =>
    rw [Statement.skipSequence_cons, idle.skip]
    exact ih meets _ _ _
  | splice _ _ inside ih =>
    rw [Statement.skipSequence_cons, Statement.skip, Statement.skipSequence_append]
    exact (inside meets _ _ _).skipAfter fun meets => ih meets _ _ _

/-- What a task shows beside another one is shown beside a sequence with the other one as its last element. -/
theorem Shows.ofLast {x y : World × Progress} (turn : l.Shows instant l.Tasks x y) (place : Position)
    (index : Nat) : l.Shows instant (Sequences l) x (Progress.ofElement setting [] place index y) := by
  cases turn with
  | waiting meets tasks active => exact .waiting meets (.intro _ (.bare tasks active)) active
  | ended outcome meets live => cases outcome <;> exact .ended _ meets live

/-- What an element of a sequence shows beside an element of another one is shown by the sequences. -/
theorem Shows.ofElement {x y : World × Progress} (turn : l.Shows instant l.Tasks x y)
    (later : Flattens l rest rest') {place place' : Position} {index index' : Nat}
    (starts : ∀ {a b}, l.Meets instant a b → a.cancelled = false →
      l.Shows instant (Sequences l) (Task.pollElements (Task.poll setting) place rest (index + 1) a)
        (Task.pollElements (Task.poll setting) place' rest' (index' + 1) b)) :
    l.Shows instant (Sequences l) (Progress.ofElement setting rest place index x)
      (Progress.ofElement setting rest' place' index' y) := by
  cases turn with
  | waiting meets tasks active => exact .waiting meets (.intro _ (.within (.bare tasks active) later)) rfl
  | ended outcome meets live =>
    cases outcome with
    | ok => exact starts meets (live rfl)
    | error failure => exact .fails _ meets

/-- What a sequence among the elements of another shows, beside the same elements of a flat one, is shown
by the sequence around it, beside the flat one as a whole. -/
theorem Shows.prolong {x y : World × Progress} (turn : l.Shows instant (Sequences l) x y)
    (later : Flattens l rest rest') {place place' : Position} {index index' : Nat}
    (starts : ∀ {a b}, l.Meets instant a b → a.cancelled = false →
      l.Shows instant (Sequences l) (Task.pollElements (Task.poll setting) place rest (index + 1) a)
        (Task.pollElements (Task.poll setting) place' rest' index' b)) :
    l.Shows instant (Sequences l) (Progress.ofElement setting rest place index x)
      (Progress.prolong setting rest' place' index' y) := by
  cases turn with
  | waiting meets tasks active => exact .waiting meets (tasks.within later index) rfl
  | ended outcome meets live =>
    cases outcome with
    | ok => exact starts meets (live rfl)
    | error failure => exact .fails _ meets

theorem Flattens.starts (flat : Flattens l rest rest') (meets : l.Meets instant a b)
    (live : a.cancelled = false) (place place' : Position) (index index' : Nat) :
    l.Shows instant (Sequences l) (Task.pollElements (Task.poll setting) place rest index a)
      (Task.pollElements (Task.poll setting) place' rest' index' b) := by
  induction flat generalizing a b place index index' with
  | nil => exact .ended _ meets fun _ => live
  | keep first later ih =>
    rw [Task.pollElements_cons, Task.pollElements_cons]
    exact (first.polls meets live _ _).ofElement later fun meets live => ih meets live _ _ _
  | drop idle _ ih =>
    rw [Task.pollElements_cons, idle.poll]
    exact ih meets live _ _ _
  | splice _ later inside ih =>
    rw [Task.pollElements_cons, Task.poll_elements, Task.pollElements_append]
    exact (inside meets live _ _ _).prolong later fun meets live => ih meets live _ _ _

theorem Flattened.unwinds (flat : Flattened l t u rest') (meets : l.Meets instant a b)
    (place place' : Position) (index' : Nat) :
    l.Ends instant (t.unwind setting place a)
      (Task.unwind setting (.sequence u index' rest') place' b) := by
  induction flat generalizing a b place with
  | bare tasks =>
    rw [Task.unwind_sequence]
    exact (tasks.matched.unwind meets _ _).ofLast _ _
  | within _ later ih =>
    rw [Task.unwind_sequence, Task.unwind_prolong]
    exact (ih meets _).skipAfter fun meets => later.skips meets _ _ _ _

theorem Flattened.polls (flat : Flattened l t u rest') (meets : l.Meets instant a b) (left : t.Going a)
    (right : u.Going b) (place place' : Position) (index' : Nat) :
    l.Shows instant (Sequences l) (t.poll setting place a)
      (Task.poll setting (.sequence u index' rest') place' b) := by
  induction flat generalizing a b place with
  | bare tasks =>
    rw [Task.poll_sequence]
    exact (tasks.matched.poll meets left right _ _).ofLast _ _
  | within _ later ih =>
    rw [Task.poll_sequence, Task.poll_prolong]
    exact (ih meets left.first right _).prolong later fun meets live => later.starts meets live _ _ _ _

theorem Flattened.wake (flat : Flattened l t u rest') (instant : Nat) :
    Flattened l (t.wake instant) (u.wake instant) rest' := by
  induction flat with
  | bare tasks active => exact .bare (tasks.matched.wake instant) ((Task.hasEnded_wake _).trans active)
  | within _ later ih => exact .within ih later

theorem Tasks.flattened (flat : Flattened l t u rest') (index' : Nat) :
    l.Tasks t (.sequence u index' rest') := by
  refine of_matches (fun t _ here => ?_) (Sequences.intro index' flat)
  cases here with | @intro u rest' index' flat
  constructor
  case ended =>
    cases flat with
    | bare _ active => exact active
    | within => rfl
  case woken =>
    induction flat with
    | bare tasks => exact tasks.matched.woken
    | within _ _ ih => exact ih
  case next =>
    induction flat with
    | bare tasks => exact tasks.matched.next
    | within _ _ ih => exact ih
  case due =>
    intro instant
    induction flat with
    | bare tasks => exact tasks.matched.due instant
    | within _ _ ih => exact ih
  case wake => exact fun instant => .inl (.intro index' (flat.wake instant))
  case poll =>
    intro instant a b meets left right place place'
    exact (flat.polls meets left right.first place place' index').mono fun _ _ => .inl
  case unwind =>
    intro instant a b meets place place'
    exact flat.unwinds meets place place' index'

theorem Statements.flattened (flat : Flattens l rest rest') :
    l.Statements (.sequence rest) (.sequence rest') := by
  refine .of_shows (fun meets live place place' => ?_)
    fun meets place place' => flat.skips meets place place' 0 0
  rw [Task.poll_elements, Task.poll_elements]
  refine (flat.starts meets live place place' 0 0).mono fun _ _ sequences => ?_
  cases sequences with | intro index flat
  exact .flattened flat index

theorem Statements.sequence (each : Forall₂ l.Statements rest rest') :
    l.Statements (.sequence rest) (.sequence rest') :=
  .flattened (.of_forall₂ each)

end Sequences

section Blocks

variable {ts us : List Task} {bs bs' : List Statement} {t u : Task} {failures : List Failure}

theorem getD_alike (each : Forall₂ l.Tasks ts us) (i : Nat) :
    l.Tasks (ts.getD i .ended) (us.getD i .ended) := by
  induction each generalizing i with
  | nil => exact .ended
  | cons first _ ih =>
    cases i with
    | zero => exact first
    | succ i => exact ih i

theorem set_alike (each : Forall₂ l.Tasks ts us) (i : Nat) (new : l.Tasks t u) :
    Forall₂ l.Tasks (ts.set i t) (us.set i u) := by
  induction each generalizing i with
  | nil => exact .nil
  | cons first later ih =>
    cases i with
    | zero => exact .cons new later
    | succ i => exact .cons first (ih i)

theorem ended_alike (each : Forall₂ l.Tasks ts us) :
    Forall₂ (fun t u : Task => t.hasEnded = u.hasEnded) ts us :=
  each.imp fun _ _ tasks => tasks.matched.ended

theorem ofBranches_shows (each : Forall₂ l.Tasks ts us) (queue : List Nat) (handedBack : Bool)
    (block : related (.block ts queue handedBack) (.block us queue handedBack))
    (meets : l.Meets instant a b) (live : a.cancelled = false) :
    l.Shows instant related (a, .ofBranches ts queue handedBack) (b, .ofBranches us queue handedBack) := by
  rw [Progress.ofBranches, Progress.ofBranches, Task.all_hasEnded_congr (ended_alike each)]
  split
  · exact .ended _ meets fun _ => live
  · exact .waiting meets block rfl

structure Unwindings (l : Likeness setting) (instant : Nat) (x y : Unwinding) : Prop where
  index : x.index = y.index
  due : x.due = y.due
  run : ∀ {a b}, l.Meets instant a b → l.Ends instant (x.run a) (y.run b)

inductive Drains (l : Likeness setting) (instant : Nat) :
    World × List Failure → World × List Failure → Prop where
  | intro {a b : World} (failures : List Failure) (meets : l.Meets instant a b) :
    Drains l instant (a, failures) (b, failures)

theorem unwindings_alike (each : Forall₂ l.Tasks ts us) (place place' : Position) (index : Nat) :
    Forall₂ (Unwindings l instant) (Task.unwindings setting ts instant place index)
      (Task.unwindings setting us instant place' index) := by
  induction each generalizing index with
  | nil => exact .nil
  | cons first _ ih =>
    have matched := first.matched
    rw [Task.unwindings, Task.unwindings, matched.ended]
    split
    · exact ih _
    · refine .cons ⟨rfl, ?_, fun meets => matched.unwind meets _ _⟩ (ih _)
      rw [matched.due]

theorem anyDue_alike {xs ys : List Unwinding} (each : Forall₂ (Unwindings l instant) xs ys) :
    xs.any (·.due) = ys.any (·.due) := by
  induction each with
  | nil => rfl
  | cons first _ ih => rw [List.any_cons, List.any_cons, first.due, ih]

theorem inTurn_alike (queue : List Nat) {xs ys : List Unwinding}
    (each : Forall₂ (Unwindings l instant) xs ys) :
    Forall₂ (Unwindings l instant) (Unwinding.inTurn queue xs) (Unwinding.inTurn queue ys) := by
  induction queue generalizing xs ys with
  | nil => exact each
  | cons index queue ih =>
    rw [Unwinding.inTurn, Unwinding.inTurn, anyDue_alike each]
    split
    · refine List.rel_append (List.rel_filter (fun x y same => ?_) each)
        (ih (List.rel_filter (fun x y same => ?_) each)) <;> simp only [same.index]
    · exact each

theorem runAll_drains {xs ys : List Unwinding} (each : Forall₂ (Unwindings l instant) xs ys)
    (meets : l.Meets instant a b) (place place' : Position) (failures : List Failure) :
    Drains l instant (Unwinding.runAll setting.mode place xs failures a)
      (Unwinding.runAll setting.mode place' ys failures b) := by
  induction each generalizing a b failures with
  | nil => exact .intro _ meets
  | @cons x y xs ys first _ ih =>
    have ran := first.run meets
    rw [Unwinding.runAll, Unwinding.runAll]
    generalize x.run a = shown at ran ⊢
    generalize y.run b = shown' at ran ⊢
    cases ran with | intro outcome meets
    cases outcome with
    | ok => exact ih meets _
    | error failure => exact ih (meets.observe _ _ _ _ _ _ _ _ _) _

theorem collapse_ends (each : Forall₂ l.Tasks ts us) (queue : List Nat) (meets : l.Meets instant a b)
    (place place' : Position) (failures : List Failure) :
    l.Ends instant (Task.collapse setting ts queue place failures a)
      (Task.collapse setting us queue place' failures b) := by
  have clock : b.clock = instant := (l.clock meets.alike).symm.trans meets.clock
  have drained := runAll_drains (inTurn_alike queue (unwindings_alike each place place' 0)) meets place
    place' failures
  rw [Task.collapse, Task.collapse, meets.clock, clock]
  generalize Unwinding.runAll setting.mode place _ failures a = x at drained ⊢
  generalize Unwinding.runAll setting.mode place' _ failures b = y at drained ⊢
  cases drained with | intro failures meets
  exact .intro _ meets

inductive NextShows (l : Likeness setting) (instant : Nat) :
    World × Task.Next → World × Task.Next → Prop where
  | pending {a b : World} {ts us : List Task} (queue : List Nat) (handedBack : Bool)
    (meets : l.Meets instant a b) (live : a.cancelled = false) (each : Forall₂ l.Tasks ts us) :
    NextShows l instant (a, .pending ts queue handedBack) (b, .pending us queue handedBack)
  | ready {a b : World} {ts us : List Task} (queue : List Nat) (outcome : Outcome)
    (meets : l.Meets instant a b) (each : Forall₂ l.Tasks ts us)
    (here : outcome = .ok () → (Task.block ts queue true).Going a)
    (there : outcome = .ok () → (Task.block us queue true).Going b) :
    NextShows l instant (a, .ready ts queue outcome) (b, .ready us queue outcome)

theorem pollNext_shows (left : Nat) (yielded : Bool) {queue : List Nat} (each : Forall₂ l.Tasks ts us)
    (meets : l.Meets instant a b) (here : (Task.block ts queue true).Going a)
    (there : (Task.block us queue true).Going b) (place place' : Position) :
    NextShows l instant (Task.pollNext setting (Task.poll setting) place left yielded ts queue a)
      (Task.pollNext setting (Task.poll setting) place' left yielded us queue b) := by
  induction left generalizing yielded ts us queue a b with
  | zero => exact .pending _ _ meets here.live each
  | succ left ih =>
    rw [Task.pollNext, Task.pollNext, here.dropEnded, there.dropEnded]
    cases queue with
    | nil => exact .pending _ _ meets here.live each
    | cons index queue =>
      have polled := (getD_alike each index).matched.poll meets (here.branch index) (there.branch index)
        (place ++ [index]) (place' ++ [index])
      rcases first : (ts.getD index .ended).poll setting (place ++ [index]) a with ⟨a', x⟩
      rcases second : (us.getD index .ended).poll setting (place' ++ [index]) b with ⟨b', y⟩
      rw [first, second] at polled
      simp only [first, second]
      cases polled with
      | @waiting _ _ t u meets tasks active =>
        have woken := tasks.matched.woken
        have queues : Task.requeue u index queue = Task.requeue t index queue := by
          rw [Task.requeue, Task.requeue, woken]
        have here := here.replace first true
        have there := there.replace second true
        rw [queues] at there
        simp only [queues, ← woken]
        split
        · exact .pending _ _ meets here.live (set_alike each index tasks)
        · exact ih _ (set_alike each index tasks) meets here there
      | ended outcome meets =>
        refine .ready _ _ meets (set_alike each index .ended) (fun well => ?_) fun well => ?_ <;> subst well
        · exact here.ends first true
        · exact there.ends second true

theorem pollAll_shows
    (block : ∀ {ts us}, Forall₂ l.Tasks ts us → ∀ queue handedBack,
      related (.block ts queue handedBack) (.block us queue handedBack))
    (left : Nat) {queue : List Nat} (each : Forall₂ l.Tasks ts us) (meets : l.Meets instant a b)
    (here : (Task.block ts queue true).Going a) (there : (Task.block us queue true).Going b)
    (place place' : Position) :
    l.Shows instant related (Task.pollAll setting (Task.poll setting) place left ts queue a)
      (Task.pollAll setting (Task.poll setting) place' left us queue b) := by
  induction left generalizing ts us queue a b with
  | zero => exact .ended _ meets fun _ => here.live
  | succ left ih =>
    have shown := pollNext_shows (left + 1) false each meets here there place place'
    rw [Task.pollAll, Task.pollAll]
    generalize Task.pollNext setting (Task.poll setting) place _ _ ts queue a = x at shown ⊢
    generalize Task.pollNext setting (Task.poll setting) place' _ _ us queue b = y at shown ⊢
    cases shown with
    | pending queue handedBack meets live each =>
      exact ofBranches_shows each queue handedBack (block each queue handedBack) meets live
    | @ready a b ts us queue outcome meets each here there =>
      cases outcome with
      | ok => exact ih each meets (here rfl) (there rfl)
      | error failure =>
        have ends := collapse_ends each queue
          (meets.observe setting.mode place place' [] [] (Task.pending ts) (Task.pending us) failure failure)
          place place' [failure]
        simp only
        rcases first : Task.collapse setting ts queue place [failure] _ with ⟨a', outcome⟩
        rcases second : Task.collapse setting us queue place' [failure] _ with ⟨b', outcome'⟩
        rw [first, second] at ends
        obtain ⟨last, rfl⟩ := (Task.collapse_unwinds first).fails_of_failure
        cases ends with | intro outcome meets
        exact .fails _ meets

inductive Blocks (l : Likeness setting) : Task → Task → Prop where
  | intro {ts us : List Task} (each : Forall₂ l.Tasks ts us) (queue : List Nat) (handedBack : Bool) :
    Blocks l (.block ts queue handedBack) (.block us queue handedBack)

theorem due_alike (each : Forall₂ l.Tasks ts us) (instant : Nat) :
    Forall₂ (fun t u : Task => t.dueAt instant = u.dueAt instant) ts us :=
  each.imp fun _ _ tasks => tasks.matched.due instant

theorem next_alike (each : Forall₂ l.Tasks ts us) :
    Forall₂ (fun t u : Task => t.nextInstant = u.nextInstant) ts us :=
  each.imp fun _ _ tasks => tasks.matched.next

theorem Tasks.block (each : Forall₂ l.Tasks ts us) (queue : List Nat) (handedBack : Bool) :
    l.Tasks (.block ts queue handedBack) (.block us queue handedBack) := by
  refine of_matches (fun t u here => ?_) (Blocks.intro each queue handedBack)
  cases here with | @intro ts us each queue handedBack
  constructor
  case ended => rfl
  case woken => rfl
  case next => exact Task.nextInstants_congr (next_alike each)
  case due => exact fun instant => Task.anyDueAt_congr (due_alike each instant)
  case wake =>
    intro instant
    rw [Task.wake, Task.wake, Task.wakeAll_eq_map, Task.wakeAll_eq_map, Task.queueAt_congr (due_alike each instant)]
    refine .inl (.intro ?_ _ _)
    rw [List.forall₂_map_left_iff, List.forall₂_map_right_iff]
    exact each.imp fun _ _ tasks => tasks.matched.wake instant
  case poll =>
    intro instant a b meets here there place place'
    rw [Task.poll_eq, Task.poll_eq, Task.pollWith, Task.pollWith, ← Task.pending_congr (ended_alike each)]
    exact pollAll_shows (fun each queue handedBack => .inl (.intro each queue handedBack)) _ each
      meets (here.again true) (there.again true) place place'
  case unwind =>
    intro instant a b meets place place'
    rw [Task.unwind, Task.unwind]
    exact collapse_ends each queue meets place place' []

theorem skipBranches_drains (each : Forall₂ l.Statements bs bs') (meets : l.Meets instant a b)
    (place place' : Position) (index index' : Nat) (failures : List Failure) :
    Drains l instant (Statement.skipBranches setting.mode bs place index failures a)
      (Statement.skipBranches setting.mode bs' place' index' failures b) := by
  induction each generalizing a b index index' failures with
  | nil => exact .intro _ meets
  | @cons s r rest rest' first _ ih =>
    have skipped := Statements.skip first meets (place ++ [index]) (place' ++ [index'])
    rw [Statement.skipBranches, Statement.skipBranches]
    generalize s.skip setting.mode (place ++ [index]) a = x at skipped ⊢
    generalize r.skip setting.mode (place' ++ [index']) b = y at skipped ⊢
    cases skipped with | intro outcome meets
    cases outcome with
    | ok => exact ih meets _ _ _
    | error failure => exact ih (meets.observe _ _ _ _ _ _ _ _ _) _ _ _

theorem Statements.parallel (each : Forall₂ l.Statements bs bs') :
    l.Statements (.parallel bs) (.parallel bs') := by
  refine .of_shows (fun meets live place place' => ?_) fun {instant a b} meets place place' => ?_
  · rw [Task.poll_eq, Task.poll_eq, Task.pollWith, Task.pollWith, Task.pollFresh, Task.pollFresh]
    have there := Task.Going.started ((l.token meets.alike).symm.trans live) bs' true
    rw [← each.length_eq] at there ⊢
    refine pollAll_shows (fun each queue handedBack => .block each queue handedBack) _ ?_ meets
      (.started live bs true) there place place'
    rw [List.forall₂_map_left_iff, List.forall₂_map_right_iff]
    exact each
  · have skipped := skipBranches_drains each meets place place' 0 0 []
    rw [Statement.skip, Statement.skip]
    generalize Statement.skipBranches setting.mode bs place 0 [] a = x at skipped ⊢
    generalize Statement.skipBranches setting.mode bs' place' 0 [] b = y at skipped ⊢
    cases skipped with | intro failures meets
    exact .intro _ meets

end Blocks

/-- A statement looks like itself if the invocations in it start alike. -/
theorem Statements.refl (s : Statement) (covered : ∀ call ∈ s.invocations, l.covers call) :
    l.Statements s s := by
  have parts {bs : List Statement}
      (ih : ∀ s ∈ bs, (∀ call ∈ s.invocations, l.covers call) → l.Statements s s)
      (covered : ∀ call ∈ Statement.invocationsAll bs, l.covers call) :
      Forall₂ l.Statements bs bs :=
    List.forall₂_same.2 fun s mem => ih s mem fun call within =>
      covered call (Statement.mem_invocationsAll.2 ⟨s, mem, within⟩)
  induction s with
  | noop => exact .noop
  | invocation call => exact .invocation (covered call (List.mem_singleton_self call))
  | sequence elements ih => exact .sequence (parts ih covered)
  | parallel branches ih => exact .parallel (parts ih covered)

section Machines

variable {t u : Task}

/-- Two runs that have ended alike, or of which the roots wait alike in a live scope. -/
inductive Stand (l : Likeness setting) : Machine → Machine → Prop where
  | waiting {a b : World} {t u : Task} (alike : l.worlds a b) (tasks : l.Tasks t u)
    (here : t.Pauses a) (there : u.Pauses b) : Stand l (.waiting a t) (.waiting b u)
  | ended {a b : World} (outcome : Outcome) (alike : l.worlds a b) :
    Stand l (.ended a outcome) (.ended b outcome)

theorem poll_stand (tasks : l.Tasks t u) (alike : l.worlds a b) (here : t.Going a) (there : u.Going b) :
    Stand l (Machine.ofProgress (t.poll setting [] a)) (Machine.ofProgress (u.poll setting [] b)) := by
  have shown := tasks.matched.poll ⟨alike, rfl⟩ here there [] []
  rcases first : t.poll setting [] a with ⟨a', x⟩
  rcases second : u.poll setting [] b with ⟨b', y⟩
  rw [first, second] at shown
  cases shown with
  | waiting meets tasks => exact .waiting meets.alike tasks (here.pauses first) (there.pauses second)
  | ended outcome meets => exact .ended outcome meets.alike

theorem cancel_stand (tasks : l.Tasks t u) (alike : l.worlds a b) (deadline : Nat) :
    Stand l (Machine.cancel setting a t deadline) (Machine.cancel setting b u deadline) := by
  have ends := (tasks.matched.wake (max a.clock deadline)).matched.unwind
    ⟨l.cancel alike (max a.clock deadline), rfl⟩ [] []
  rw [Machine.cancel, Machine.cancel, ← l.clock alike]
  generalize (t.wake _).unwind setting [] _ = x at ends ⊢
  generalize (u.wake _).unwind setting [] _ = y at ends ⊢
  cases ends with | intro outcome meets
  exact .ended outcome meets.alike

theorem next_stand (tasks : l.Tasks t u) (alike : l.worlds a b) (here : t.Pauses a) (there : u.Pauses b)
    (cancelAt : Option Nat) :
    Stand l (Machine.next setting cancelAt a t) (Machine.next setting cancelAt b u) := by
  have matched := tasks.matched
  unfold Machine.next
  rw [← matched.woken, ← matched.next, ← l.clock alike]
  split
  · exact poll_stand tasks alike here.going there.going
  · next asleep =>
    rw [Bool.not_eq_true] at asleep
    have passes (instant : Nat) :
        Stand l (Machine.pass setting a t instant) (Machine.pass setting b u instant) :=
      poll_stand (matched.wake instant) (l.pass alike instant) (here.wake asleep instant)
        (there.wake (matched.woken.symm.trans asleep) instant)
    split
    · exact cancel_stand tasks alike _
    · split
      · split
        · exact cancel_stand tasks alike _
        · exact passes _
      · exact passes _

theorem finish_ends (tasks : l.Tasks t u) (alike : l.worlds a b) (here : t.Pauses a) (there : u.Pauses b)
    (cancelAt : Option Nat) : ∃ instant, l.Ends instant (Machine.finish setting cancelAt a t)
      (Machine.finish setting cancelAt b u) := by
  -- The induction follows the run on the left; the one on the right takes the same steps.
  fun_induction Machine.finish setting cancelAt a t generalizing b u with
  | case1 a t a' outcome step =>
    have stand := next_stand tasks alike here there cancelAt
    rw [step] at stand
    generalize next : Machine.next setting cancelAt b u = state at stand
    cases stand with | ended outcome alike
    rw [Machine.finish_of_ended next]
    exact ⟨_, .intro _ ⟨alike, rfl⟩⟩
  | case2 a t a' t' step ih =>
    have stand := next_stand tasks alike here there cancelAt
    rw [step] at stand
    generalize next : Machine.next setting cancelAt b u = state at stand
    cases stand with | waiting alike tasks here there
    rw [Machine.finish_of_waiting next]
    exact ih tasks alike here there

theorem Statements.run {s r : Statement} (statements : l.Statements s r) (alike : l.worlds a b)
    (cancelAt : Option Nat) :
    ∃ instant, l.Ends instant (Machine.run setting cancelAt s a) (Machine.run setting cancelAt r b) := by
  have token := l.token alike
  cases late : a.cancelled with
  | true =>
    rw [Machine.run_late setting cancelAt s late, Machine.run_late setting cancelAt r (token.symm.trans late)]
    exact ⟨_, Statements.skip statements ⟨alike, rfl⟩ [] []⟩
  | false =>
    exact finish_ends statements alike (.fresh late s) (.fresh (token.symm.trans late) r) cancelAt

end Machines

end FlowTree.Likeness
