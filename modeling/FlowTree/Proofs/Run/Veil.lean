import FlowTree.Proofs.Run.Congruence
import FlowTree.Proofs.Run.Records

/-! Runs that differ in what no call notices. No operation on a call looks at its place in the tree or
at what has happened so far; of the store it sees only the values of its arguments, and of the earlier
calls only the script that it gets. A veil says which stores and which earlier calls count as the same,
and runs behind it look alike. -/

set_option autoImplicit false

namespace FlowTree

/-- What an entry tells without its place, and without the number of variables at the start. What blocks
note is left out. -/
def Happening.unplaced? : Happening → Option Happening
  | .started _ name inputs timeout => some (.started [] name inputs timeout)
  | .completed _ name result output => some (.completed [] name result output)
  | .failed _ name error => some (.failed [] name error)
  | .cancelled _ name abandoned => some (.cancelled [] name abandoned)
  | .skipped _ name => some (.skipped [] name)
  | .branchFailed _ _ _ => none
  | .discarded _ _ => none
  | .workflowStarted id name _ => some (.workflowStarted id name 0)
  | .workflowCompleted => some .workflowCompleted
  | .workflowFailed failure => some (.workflowFailed failure)

namespace Trace

def unplaced (trace : Trace) : Trace := trace.filterMap Happening.unplaced?

/-- A view of traces that does not look at places and at what blocks note. -/
theorem filterMap_unplaced {α : Type} {view : Happening → Option α}
    (blind : ∀ entry : Happening, entry.unplaced?.bind view = view entry) (trace : Trace) :
    trace.unplaced.filterMap view = trace.filterMap view := by
  rw [unplaced, List.filterMap_filterMap]
  exact congrArg (trace.filterMap ·) (funext blind)

theorem calls_unplaced (trace : Trace) : trace.unplaced.calls = trace.calls :=
  filterMap_unplaced (fun entry => by cases entry <;> rfl) trace

theorem abandoned_unplaced (trace : Trace) : trace.unplaced.abandoned = trace.abandoned := by
  refine filterMap_unplaced (fun entry => ?_) trace
  cases entry with
  | cancelled place name abandoned => cases abandoned <;> rfl
  | _ => rfl

end Trace

theorem Event.ofTrace_unplaced (id : String) (trace : Trace) :
    Event.ofTrace id trace.unplaced = Event.ofTrace id trace :=
  Trace.filterMap_unplaced (fun entry => by cases entry <;> rfl) trace

namespace World

def told (w : World) : List Happening := w.history.filterMap (·.happening.unplaced?)

theorem unplaced_trace (w : World) : w.trace.unplaced = w.told.reverse := by
  rw [trace, moments, Trace.ofMoments, Trace.unplaced, List.filterMap_map, List.filterMap_reverse]
  rfl

theorem told_emit (w : World) (entry : Happening) :
    (w.emit entry).told = entry.unplaced?.toList ++ w.told := by
  rw [told, emit, List.filterMap_cons]
  cases entry.unplaced? <;> rfl

end World

/-- In what two runs may differ such that no call notices it. -/
structure Veil (setting : Setting) where
  stores : Store → Store → Prop
  /-- The units that have been called. -/
  counts : List String → List String → Prop
  /-- The invocations that do not notice the difference. -/
  covers : Invocation → Prop
  insert : ∀ {s t}, stores s t → ∀ name output, stores (s.insert name output) (t.insert name output)
  inputs : ∀ {s t call}, stores s t → covers call →
    s.resolve call.arguments = t.resolve call.arguments
  call : ∀ {c d}, counts c d → ∀ name, counts (name :: c) (name :: d)
  script : ∀ {c d call work}, counts c d → covers call → setting.host.find? call.name = some work →
    ∀ inputs, work.script (c.count call.name) inputs = work.script (d.count call.name) inputs

/-- Worlds that differ in places, in what blocks have noted, and behind a veil. -/
inductive World.Resembles {setting : Setting} (v : Veil setting) : World → World → Prop where
  | intro {clock timers : Nat} {cancelled : Bool} {store store' : Store} {called called' : List String}
    {history history' : List Moment} {entries entries' : List LogEntry}
    {notices notices' : List (String → Event)} (stores : v.stores store store')
    (counts : v.counts called called')
    (same : told ⟨⟨clock, store, called, timers, cancelled⟩, history, entries, notices⟩ =
      told ⟨⟨clock, store', called', timers, cancelled⟩, history', entries', notices'⟩) :
    Resembles v ⟨⟨clock, store, called, timers, cancelled⟩, history, entries, notices⟩
      ⟨⟨clock, store', called', timers, cancelled⟩, history', entries', notices'⟩

namespace World.Resembles

variable {setting : Setting} {v : Veil setting} {a b : World}

theorem clock (alike : Resembles v a b) : a.clock = b.clock := by
  cases alike
  rfl

theorem cancelled (alike : Resembles v a b) : a.cancelled = b.cancelled := by
  cases alike
  rfl

theorem stores (alike : Resembles v a b) : v.stores a.store b.store := by
  cases alike with | intro stores
  exact stores

theorem counts (alike : Resembles v a b) : v.counts a.called b.called := by
  cases alike with | intro _ counts
  exact counts

theorem told (alike : Resembles v a b) : a.told = b.told := by
  cases alike with | intro _ _ same
  exact same

/-- Entries may be added on either side that tell the same, or nothing. -/
theorem emits (alike : Resembles v a b) {a' b' : World} (left : a'.toScene = a.toScene)
    (right : b'.toScene = b.toScene) (same : a'.told = b'.told) : Resembles v a' b' := by
  obtain ⟨scene, history, entries, notices⟩ := a'
  obtain ⟨scene', history', entries', notices'⟩ := b'
  obtain rfl : scene = a.toScene := left
  obtain rfl : scene' = b.toScene := right
  cases alike with | intro stores counts
  exact .intro stores counts same

theorem emit (alike : Resembles v a b) {entry entry' : Happening}
    (same : entry.unplaced? = entry'.unplaced?) : Resembles v (a.emit entry) (b.emit entry') := by
  refine alike.emits rfl rfl ?_
  rw [told_emit, told_emit, same, alike.told]

theorem tell (alike : Resembles v a b) (entries entries' : List LogEntry)
    (notices notices' : List (String → Event)) :
    Resembles v { a with entries, notices } { b with entries := entries', notices := notices' } :=
  alike.emits rfl rfl alike.told

theorem told_notes {a a' : World} (notes : a.Notes a') : a'.told = a.told := by
  cases notes <;> rfl

theorem scene_notes {a a' : World} (notes : a.Notes a') : a'.toScene = a.toScene := by
  cases notes <;> rfl

theorem note_left {a' : World} (alike : Resembles v a b) (notes : a.Notes a') : Resembles v a' b :=
  alike.emits (scene_notes notes) rfl ((told_notes notes).trans alike.told)

theorem note_right {b' : World} (alike : Resembles v a b) (notes : b.Notes b') : Resembles v a b' :=
  alike.emits rfl (scene_notes notes) (alike.told.trans (told_notes notes).symm)

theorem write (alike : Resembles v a b) (result : Option String) (output : String) :
    Resembles v (a.write result output) (b.write result output) := by
  cases alike with | intro stores counts same
  cases result with
  | none => exact .intro stores counts same
  | some name => exact .intro (v.insert stores name output) counts same

theorem inputs (alike : Resembles v a b) {call : Invocation} (covered : v.covers call) :
    a.inputs call = b.inputs call :=
  v.inputs alike.stores covered

theorem call (alike : Resembles v a b) (name : String) :
    Resembles v { a with called := name :: a.called } { b with called := name :: b.called } := by
  cases alike with | intro stores counts same
  exact .intro stores (v.call counts name) same

theorem pass (alike : Resembles v a b) (instant : Nat) :
    Resembles v { a with clock := instant } { b with clock := instant } := by
  cases alike with | intro stores counts same
  exact .intro stores counts same

theorem cancel (alike : Resembles v a b) (instant : Nat) :
    Resembles v { a with clock := instant, cancelled := true }
      { b with clock := instant, cancelled := true } := by
  cases alike with | intro stores counts same
  exact .intro stores counts same

end World.Resembles

namespace Call

inductive Moved (call : Call) : Call → Prop where
  | intro (place : Position) : Moved call { call with place }

inductive Reply.Moved : Reply → Reply → Prop where
  | answered (answer : Answer) : Moved (.answered answer) (.answered answer)
  | expired : Moved .expired .expired
  | asleep {c d : Call} (moved : c.Moved d) : Moved (.asleep c) (.asleep d)

variable {setting : Setting} {v : Veil setting} {a b : World} {c d : Call}

/-- What calls show that are let go on and differ in their places. -/
inductive Polled (v : Veil setting) : World × Reply → World × Reply → Prop where
  | intro {a b : World} {reply reply' : Reply} (alike : a.Resembles v b)
    (moved : reply.Moved reply') : Polled v (a, reply) (b, reply')

theorem Moved.await (moved : c.Moved d) (alike : a.Resembles v b) :
    (await a c).Moved (Call.await b d) := by
  cases moved with | intro place
  unfold Call.await
  rw [alike.clock]
  -- The timer of the call is the same on both sides, so one case split serves for both.
  simp only
  split
  · split
    · exact .expired
    · exact .asleep (.intro place)
  · exact .asleep (.intro place)

theorem Moved.advance (moved : c.Moved d) (alike : a.Resembles v b) (steps : Script) :
    Polled v (c.advance setting a steps) (d.advance setting b steps) := by
  cases moved with | intro place
  cases alike with | intro stores counts same
  unfold Call.advance
  rcases went : steps.goOn c.echo with ⟨cancels, standing⟩
  cases standing with
  | answered answer => exact .intro (.intro stores counts same) (.answered answer)
  | asleep ms rest =>
    simp only
    split
    · exact .intro (.intro stores counts same)
        (Moved.await (v := v) (.intro place) (.intro stores counts same))
    · exact .intro (.intro stores counts same)
        (Moved.await (v := v) (.intro place) (.intro stores counts same))

theorem Moved.poll (moved : c.Moved d) (alike : a.Resembles v b) :
    Polled v (c.poll setting a) (d.poll setting b) := by
  have awaits := moved.await alike
  have advances := moved.advance alike c.rest
  cases moved with | intro place
  unfold Call.poll
  rw [alike.clock]
  by_cases due : c.wake.due ≤ b.clock
  · simp only [if_pos due]
    exact advances
  · simp only [if_neg due]
    exact .intro alike awaits

theorem Moved.dropReply (moved : c.Moved d) (alike : a.Resembles v b) {reply reply' : Reply}
    (replies : reply.Moved reply') :
    (c.dropReply a reply).1.Resembles v (d.dropReply b reply').1 ∧
      (c.dropReply a reply).2 = (d.dropReply b reply').2 := by
  cases moved
  cases replies with
  | answered answer => cases answer <;> exact ⟨(alike.tell _ _ _ _).emit rfl, rfl⟩
  | expired | asleep => exact ⟨(alike.tell _ _ _ _).emit rfl, rfl⟩

theorem Moved.takeReply (moved : c.Moved d) (alike : a.Resembles v b) {reply reply' : Reply}
    (replies : reply.Moved reply') :
    CallsShow (World.Resembles v) Moved (c.takeReply a reply) (d.takeReply b reply') := by
  have dropped := moved.dropReply alike replies
  unfold Call.takeReply
  rw [← alike.cancelled]
  split
  · obtain ⟨alike, same⟩ := dropped
    simp only [same]
    exact .ends alike
  · cases moved
    cases replies with
    | answered answer =>
      cases answer with
      | ok output => exact .ends (((alike.write _ _).tell _ _ _ _).emit rfl)
      | error error => exact .ends ((alike.tell _ _ _ _).emit rfl)
    | expired => exact .ends ((alike.tell _ _ _ _).emit rfl)
    | asleep moved => exact .waits alike moved

theorem Moved.reply (moved : c.Moved d) {x y : World × Reply} (polled : Polled v x y) :
    CallsShow (World.Resembles v) Moved (c.takeReply x.1 x.2) (d.takeReply y.1 y.2) := by
  cases polled with | intro alike replies
  exact moved.takeReply alike replies

theorem start_behind (alike : a.Resembles v b) {invocation : Invocation}
    (covered : v.covers invocation) (place place' : Position) :
    CallsShow (World.Resembles v) Moved (start setting place invocation a)
      (start setting place' invocation b) := by
  have inputs := alike.inputs covered
  have moved : (fresh setting place invocation a).Moved (fresh setting place' invocation b) := by
    have eq : fresh setting place' invocation b =
        { fresh setting place invocation a with place := place' } := by
      rw [fresh, fresh, inputs]
    rw [eq]
    exact .intro place'
  have out : (sent setting place invocation a).Resembles v (sent setting place' invocation b) := by
    refine (alike.tell _ _ _ _).emit ?_
    rw [inputs]
    rfl
  unfold start
  cases found : setting.host.find? invocation.name with
  | none => exact moved.takeReply out (.answered _)
  | some work =>
    have steps := v.script alike.counts covered found (b.inputs invocation)
    simp only [inputs, steps]
    exact moved.reply (moved.advance (out.call invocation.name) _)

theorem Moved.resume (moved : c.Moved d) (alike : a.Resembles v b) :
    CallsShow (World.Resembles v) Moved (c.resume setting a) (d.resume setting b) :=
  moved.reply (moved.poll alike)

theorem Moved.unwind (moved : c.Moved d) (alike : a.Resembles v b) :
    (c.unwind setting a).1.Resembles v (d.unwind setting b).1 ∧
      (c.unwind setting a).2 = (d.unwind setting b).2 := by
  have polled : Polled v (c.poll setting a) (d.poll setting b) := moved.poll alike
  unfold Call.unwind
  generalize c.poll setting a = x at polled ⊢
  generalize d.poll setting b = y at polled ⊢
  cases polled with | intro alike replies
  exact moved.dropReply alike replies

end Call

namespace Veil

variable {setting : Setting} (v : Veil setting)

/-- Worlds are alike that resemble each other behind a veil, and calls that differ in their places. -/
def likeness : Likeness setting where
  worlds := World.Resembles v
  calls := Call.Moved
  covers := v.covers
  clock alike := alike.clock
  token alike := alike.cancelled
  skip alike _ _ _ := (alike.tell _ _ _ _).emit rfl
  noteLeft alike notes := alike.note_left notes
  noteRight alike notes := alike.note_right notes
  pass alike instant := alike.pass instant
  cancel alike instant := alike.cancel instant
  timers moved := by
    cases moved
    exact ⟨rfl, fun _ => rfl⟩
  start alike covered place place' := Call.start_behind alike covered place place'
  resume alike moved := moved.resume alike
  unwind alike moved := moved.unwind alike

structure Runs (a b : Run) : Prop where
  outcome : a.outcome = b.outcome
  told : a.trace.unplaced = b.trace.unplaced
  events : ∀ id, a.events id = b.events id
  elapsed : a.elapsed = b.elapsed
  stores : v.stores a.store b.store
  counts : v.counts a.called b.called

variable {v}

theorem close {a b : World} (alike : a.Resembles v b) (left : a.Recorded) (right : b.Recorded)
    (outcome : Outcome) : v.Runs (Workflow.close a outcome) (Workflow.close b outcome) := by
  have closed : (a.emit (Workflow.closing outcome)).Resembles v (b.emit (Workflow.closing outcome)) :=
    alike.emit rfl
  have eq (w : World) : (Workflow.close w outcome).trace = (w.emit (Workflow.closing outcome)).trace := rfl
  have told : (Workflow.close a outcome).trace.unplaced = (Workflow.close b outcome).trace.unplaced := by
    rw [eq, eq, World.unplaced_trace, World.unplaced_trace, closed.told]
  refine ⟨rfl, told, fun id => ?_, closed.clock, closed.stores, closed.counts⟩
  rw [Workflow.close_events left, Workflow.close_events right, ← Event.ofTrace_unplaced, told,
    Event.ofTrace_unplaced]

/-- Trees that are alike, run on seeds and after calls that differ behind a veil, make runs that do. -/
theorem runs {seed seed' : Store} {root root' : Statement} {called called' : List String}
    (stores : v.stores seed seed') (counts : v.counts called called')
    (statements : v.likeness.Statements root root') (id name : String) (cancellation : Cancellation) :
    v.Runs (Workflow.run ⟨id, name, seed, root⟩ setting cancellation called)
      (Workflow.run ⟨id, name, seed', root'⟩ setting cancellation called') := by
  have start : (Workflow.world ⟨id, name, seed, root⟩ called cancellation.before).Resembles v
      (Workflow.world ⟨id, name, seed', root'⟩ called' cancellation.before) := .intro stores counts rfl
  obtain ⟨_, ends⟩ := statements.run start cancellation.at?
  have left := Machine.run_recorded setting cancellation.at? root
    (Workflow.world_recorded ⟨id, name, seed, root⟩ called cancellation.before)
  have right := Machine.run_recorded setting cancellation.at? root'
    (Workflow.world_recorded ⟨id, name, seed', root'⟩ called' cancellation.before)
  unfold Workflow.run
  simp only
  generalize Machine.run setting cancellation.at? root _ = x at ends left ⊢
  generalize Machine.run setting cancellation.at? root' _ = y at ends right ⊢
  cases ends with | intro outcome meets
  exact close meets.alike left right outcome

end Veil

/-- Runs that look the same to an observer, whatever their stores. -/
structure Run.Resembles (a b : Run) : Prop where
  outcome : a.outcome = b.outcome
  calls : a.trace.calls = b.trace.calls
  abandoned : a.trace.abandoned = b.trace.abandoned
  events : ∀ id, a.events id = b.events id
  elapsed : a.elapsed = b.elapsed

theorem Veil.Runs.resemble {setting : Setting} {v : Veil setting} {a b : Run} (runs : v.Runs a b) :
    a.Resembles b where
  outcome := runs.outcome
  calls := by rw [← Trace.calls_unplaced, runs.told, Trace.calls_unplaced]
  abandoned := by rw [← Trace.abandoned_unplaced, runs.told, Trace.abandoned_unplaced]
  events := runs.events
  elapsed := runs.elapsed

def Veil.clear (setting : Setting) : Veil setting where
  stores := Eq
  counts := Eq
  covers _ := True
  insert same name output := congrArg (·.insert name output) same
  inputs same _ := same ▸ rfl
  call same name := congrArg (name :: ·) same
  script same _ _ _ := same ▸ rfl

/-- Worlds are alike that resemble each other, and calls that differ in their places only. -/
def Likeness.unplaced (setting : Setting) : Likeness setting := (Veil.clear setting).likeness

/-- Runs that neither the caller nor an observer can tell apart. -/
structure Run.Alike (a b : Run) : Prop where
  outcome : a.outcome = b.outcome
  store : a.store = b.store
  calls : a.trace.calls = b.trace.calls
  abandoned : a.trace.abandoned = b.trace.abandoned
  events : ∀ id, a.events id = b.events id
  elapsed : a.elapsed = b.elapsed
  called : a.called = b.called

namespace Run.Alike

variable {a b c : Run}

theorem refl (run : Run) : run.Alike run :=
  ⟨rfl, rfl, rfl, rfl, fun _ => rfl, rfl, rfl⟩

theorem trans (first : a.Alike b) (second : b.Alike c) : a.Alike c where
  outcome := first.outcome.trans second.outcome
  store := first.store.trans second.store
  calls := first.calls.trans second.calls
  abandoned := first.abandoned.trans second.abandoned
  events := fun id => (first.events id).trans (second.events id)
  elapsed := first.elapsed.trans second.elapsed
  called := first.called.trans second.called

end Run.Alike

end FlowTree
