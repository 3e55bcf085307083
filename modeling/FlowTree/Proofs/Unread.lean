import FlowTree.Proofs.Maps
import FlowTree.Proofs.Run.Ticks
import FlowTree.Proofs.Run.Veil

/-! Variables that no call reads. Seeds that agree on the arguments of all invocations make runs that
look the same: nothing else of a seed reaches a call, and what calls write is written on both sides. -/

set_option autoImplicit false

namespace FlowTree

def Happening.write? : Happening → Option (String × String)
  | .completed _ _ (some name) output => some (name, output)
  | _ => none

namespace Trace

/-- The variables that the completed calls of a trace write, with their values, in order. -/
def writes (trace : Trace) : List (String × String) := trace.filterMap Happening.write?

theorem writes_unplaced (trace : Trace) : trace.unplaced.writes = trace.writes := by
  refine filterMap_unplaced (fun entry => ?_) trace
  cases entry with
  | completed place name result output => cases result <;> rfl
  | _ => rfl

end Trace

namespace Flight

/-- The store has changed by the writes that the trace tells of, and not otherwise. -/
def Written (seed : Store) (flight : Flight) : Prop :=
  flight.world.store = seed.insertAll flight.world.trace.writes

variable {setting : Setting} {seed : Store} {w : World} {todo todo' : Multiset Site}
  {calls calls' : Multiset Call}

theorem Written.emit (written : Written seed ⟨w, todo, calls⟩) {entry : Happening}
    (silent : entry.write? = none) : Written seed ⟨w.emit entry, todo', calls'⟩ := by
  rw [Written, Trace.writes, World.filterMap_emit w silent]
  exact written

theorem Written.complete (written : Written seed ⟨w, todo, calls⟩) (call : Call) (output : String) :
    Written seed ⟨call.complete w output, todo', calls'⟩ := by
  have store : w.store = seed.insertAll w.trace.writes := written
  rw [Written, Call.trace_complete, Call.store_complete, Trace.writes, List.filterMap_append]
  cases call.result with
  | none => exact store.trans (congrArg _ (List.append_nil _).symm)
  | some name =>
    refine Eq.trans ?_ (NameMap.insertAll_concat seed w.trace.writes (name, output)).symm
    rw [← store]
    rfl

theorem Tick.written {phase : Phase} {a b : Flight} (tick : Tick setting phase a b)
    (written : Written seed a) : Written seed b := by
  cases tick with
  | @send place invocation w todo calls called live =>
    have store : w.store = seed.insertAll w.trace.writes := written
    change w.store = seed.insertAll (Call.sent setting place invocation w).trace.writes
    rw [Call.trace_sent, Trace.writes, List.filterMap_append]
    exact store.trans (congrArg seed.insertAll (List.append_nil _).symm)
  | stir _ stirs =>
    cases stirs
    exact written
  | sleep | pass | interrupt | forget => exact written
  | complete output live => exact written.complete _ output
  | fail _ fails => cases fails <;> exact written.emit rfl
  | skip => exact written.emit rfl
  | note notes => cases notes <;> exact written.emit rfl

end Flight

namespace Workflow

theorem run_written (workflow : Workflow) (setting : Setting) (cancellation : Cancellation)
    (called : List String) :
    (workflow.run setting cancellation called).store =
      workflow.seed.insertAll (workflow.run setting cancellation called).trace.writes := by
  obtain ⟨w, outcome, eq, leads⟩ := workflow.run_leads setting cancellation called
  have start : Flight.Written workflow.seed
      ⟨workflow.world called cancellation.before, workflow.root.part.todo [], 0⟩ := rfl
  have last := leads.keeps (motive := Flight.Written workflow.seed) Flight.Tick.written start
  have closed : Flight.Written workflow.seed ⟨w.emit (closing outcome), 0, 0⟩ := by
    cases outcome <;> exact last.emit rfl
  rw [eq]
  exact closed

end Workflow

def Statement.reads (s : Statement) : List String := s.invocations.flatMap (·.arguments)

def Veil.unread (setting : Setting) (reads : List String) : Veil setting where
  __ := Veil.clear setting
  stores s t := ∀ name ∈ reads, s.get? name = t.get? name
  covers call := call.arguments ⊆ reads
  insert := by
    intro s t agree name output other mem
    rw [NameMap.get?_insert, NameMap.get?_insert, agree other mem]
  inputs := by
    intro s t call agree covered
    refine List.map_congr_left fun name mem => ?_
    rw [agree name (covered mem)]
  script same _ := (Veil.clear setting).script same trivial

def Run.Writes (run : Run) (name : String) : Prop := name ∈ run.trace.writes.map Prod.fst

/-- Runs from two seeds that look the same. A variable ends with one value in both if they write it, and
otherwise as its own seed has it. -/
structure Run.AlikeFrom (seed seed' : Store) (a b : Run) : Prop where
  resemble : a.Resembles b
  both : ∀ name, a.Writes name ↔ b.Writes name
  written : ∀ name, a.Writes name →
    ∃ value, a.store.get? name = some value ∧ b.store.get? name = some value
  unwritten : ∀ name, ¬ a.Writes name →
    a.store.get? name = seed.get? name ∧ b.store.get? name = seed'.get? name

namespace Workflow

/-- Seeds that agree on what the calls of a tree read make no difference but for themselves. -/
theorem run_ignores_unread (workflow : Workflow) (seed : Store) (setting : Setting)
    (cancellation : Cancellation) (called : List String)
    (agree : ∀ name ∈ workflow.root.reads, workflow.seed.get? name = seed.get? name) :
    (workflow.run setting cancellation called).AlikeFrom workflow.seed seed
      ({ workflow with seed }.run setting cancellation called) := by
  have same : (Veil.unread setting workflow.root.reads).likeness.Statements workflow.root
      workflow.root :=
    .refl workflow.root fun call mem _ argument => List.mem_flatMap.2 ⟨call, mem, argument⟩
  have runs : (Veil.unread setting workflow.root.reads).Runs
      (workflow.run setting cancellation called)
      ({ workflow with seed }.run setting cancellation called) :=
    Veil.runs agree rfl same workflow.id workflow.name cancellation
  have store := workflow.run_written setting cancellation called
  have store' := run_written { workflow with seed } setting cancellation called
  generalize workflow.run setting cancellation called = a at runs store ⊢
  generalize run { workflow with seed } setting cancellation called = b at runs store' ⊢
  have writes : a.trace.writes = b.trace.writes := by
    rw [← Trace.writes_unplaced, runs.told, Trace.writes_unplaced]
  constructor
  case resemble => exact runs.resemble
  case both =>
    intro name
    rw [Run.Writes, Run.Writes, writes]
  case written =>
    intro name mem
    obtain ⟨value, shown⟩ := NameMap.get?_insertAll_of_mem mem
    refine ⟨value, ?_, ?_⟩
    · rw [store, shown]
    · rw [store', ← writes, shown]
  case unwritten =>
    intro name unmentioned
    rw [store, store', ← writes]
    exact ⟨NameMap.get?_insertAll_of_notMem _ unmentioned,
      NameMap.get?_insertAll_of_notMem _ unmentioned⟩

def greeting : Workflow :=
  .ofTree (NameMap.empty.insert "who" "you") (.sequence [
    .invocation { name := "greet", arguments := ["who"], result := some "text" },
    .invocation { name := "slow", arguments := ["text", "missing"] }])

def greeter : Setting where
  host := ⟨[("greet", .scripted [[.echo]]), ("slow", .scripted [[.delay 5]])], true⟩

theorem greeting_ignores_spare :
    (∀ name ∈ greeting.root.reads,
      greeting.seed.get? name = (greeting.seed.insert "spare" "5").get? name) ∧
    (greeting.run greeter {} []).AlikeFrom greeting.seed (greeting.seed.insert "spare" "5")
      ({ greeting with seed := greeting.seed.insert "spare" "5" }.run greeter {} []) := by
  have agree : ∀ name ∈ greeting.root.reads,
      greeting.seed.get? name = (greeting.seed.insert "spare" "5").get? name := by decide
  exact ⟨agree, run_ignores_unread greeting _ greeter {} [] agree⟩

end Workflow

end FlowTree
