import FlowTree.Proofs.Run.Entries
import FlowTree.Proofs.Run.Sites
import FlowTree.Proofs.Run.Ticks

/-! The trace of a run determines its store. Each entry names the place of an invocation in the tree;
writing the outputs of completed calls under the result names found there, on a copy of the initial
variables, gives the store that every call reads its inputs from and that the run ends with. -/

set_option autoImplicit false

namespace FlowTree

namespace Statement

/-- What an entry of a trace does to the store: the output of a completed call goes under the result
name of the invocation at its place, if that has one. -/
def record (root : Statement) (store : Store) : Happening → Store
  | .completed place _ _ output =>
    match (root.invocation? place).bind (·.result) with
    | some name => store.insert name output
    | none => store
  | _ => store

def replay (root : Statement) (seed : Store) (trace : Trace) : Store :=
  trace.foldl root.record seed

theorem replay_concat (root : Statement) (seed : Store) (trace : Trace) (happening : Happening) :
    root.replay seed (trace ++ [happening]) = root.record (root.replay seed trace) happening :=
  List.foldl_concat _ _ _ _

/-- An entry about a call says of it what the invocation at its place says; its inputs are the values
of the arguments in a store, empty where there is none. -/
def Accounts (root : Statement) (store : Store) : Happening → Prop
  | .started place name inputs _ => ∃ call, root.invocation? place = some call ∧ call.name = name ∧
    inputs = call.arguments.map fun key => (store.get? key).getD ""
  | .completed place name result _ => ∃ call, root.invocation? place = some call ∧
    call.name = name ∧ call.result = result
  | _ => True

def Explains (root : Statement) (seed : Store) (trace : Trace) : Prop :=
  ∀ before happening after, trace = before ++ happening :: after →
    root.Accounts (root.replay seed before) happening

theorem Explains.concat {root : Statement} {seed : Store} {trace : Trace} {happening : Happening}
    (explains : root.Explains seed trace)
    (accounts : root.Accounts (root.replay seed trace) happening) :
    root.Explains seed (trace ++ [happening]) := by
  intro before h after split
  rcases split_concat split with ⟨rfl, rfl, -⟩ | ⟨rest, -, split⟩
  · exact accounts
  · exact explains _ _ _ split

end Statement

namespace Flight

/-- The calls of a flight belong to invocations of a tree, and the trace explains the store. -/
structure Replays (root : Statement) (seed : Store) (flight : Flight) : Prop where
  todo : ∀ site ∈ flight.todo, root.invocation? site.1 = some site.2
  calls : ∀ call ∈ flight.calls, ∃ invocation, root.invocation? call.place = some invocation ∧
    invocation.name = call.name ∧ invocation.result = call.result
  explains : root.Explains seed flight.world.trace
  store : flight.world.store = root.replay seed flight.world.trace

variable {setting : Setting} {root : Statement} {seed : Store} {w : World}
  {todo left : Multiset Site} {calls inFlight : Multiset Call}

theorem Replays.tell (replays : Replays root seed ⟨w, todo, calls⟩) {mid : World}
    (tells : w.Tells mid) : Replays root seed ⟨mid, todo, calls⟩ := by
  cases tells
  exact ⟨replays.todo, replays.calls, replays.explains, replays.store⟩

theorem Replays.emit {happening : Happening} (replays : Replays root seed ⟨w, todo, calls⟩)
    (accounts : root.Accounts w.store happening)
    (silent : ∀ store, root.record store happening = store)
    (fewer : left ⊆ todo) (ended : inFlight ⊆ calls) :
    Replays root seed ⟨w.emit happening, left, inFlight⟩ := by
  have store : w.store = root.replay seed w.trace := replays.store
  refine ⟨fun site mem => replays.todo site (fewer mem),
    fun call mem => replays.calls call (ended mem), ?_, ?_⟩
  · rw [World.trace_emit]
    exact replays.explains.concat (store ▸ accounts)
  · rw [World.trace_emit, Statement.replay_concat, silent]
    exact store

theorem Replays.complete {call : Call} (replays : Replays root seed ⟨w, todo, call ::ₘ calls⟩)
    (output : String) : Replays root seed ⟨call.complete w output, todo, calls⟩ := by
  -- The call in flight and the invocation at its place agree on the result name.
  obtain ⟨invocation, there, name, result⟩ := replays.calls call (Multiset.mem_cons_self _ _)
  have store : w.store = root.replay seed w.trace := replays.store
  refine ⟨replays.todo, fun other mem => replays.calls other (Multiset.mem_cons_of_mem mem), ?_, ?_⟩
  · rw [Call.trace_complete]
    exact replays.explains.concat ⟨invocation, there, name, result⟩
  · rw [Call.trace_complete, Statement.replay_concat, ← store,
      Statement.record, there, Option.bind_some, result]
    unfold Call.complete World.write
    cases call.result <;> rfl

theorem Tick.replays {phase : Phase} {a b : Flight} (tick : Tick setting phase a b)
    (replays : Replays root seed a) : Replays root seed b := by
  cases tick with
  | @send place invocation w todo calls called live =>
    have there := replays.todo (place, invocation) (Multiset.mem_cons_self _ _)
    obtain ⟨mid, tells, eq⟩ := Call.sent_tells setting place invocation w
    have sent : Replays root seed ⟨Call.sent setting place invocation w, todo, calls⟩ := by
      have accounts : mid.store = w.store := by
        cases tells
        rfl
      rw [eq]
      exact (replays.tell tells).emit ⟨invocation, there, rfl, accounts ▸ rfl⟩ (fun _ => rfl)
        (Multiset.subset_cons _ _) (.refl _)
    refine ⟨sent.todo, fun call mem => ?_, sent.explains, sent.store⟩
    rcases Multiset.mem_cons.1 mem with rfl | mem
    · exact ⟨invocation, there, rfl, rfl⟩
    · exact sent.calls call mem
  | stir _ stirs =>
    cases stirs
    exact ⟨replays.todo, replays.calls, replays.explains, replays.store⟩
  | sleep same =>
    refine ⟨replays.todo, fun call mem => ?_, replays.explains, replays.store⟩
    rcases Multiset.mem_cons.1 mem with rfl | mem
    · rw [same.place, same.name, same.result]
      exact replays.calls _ (Multiset.mem_cons_self _ _)
    · exact replays.calls call (Multiset.mem_cons_of_mem mem)
  | complete output live => exact replays.complete output
  | fail _ fails =>
    cases fails <;>
    exact replays.emit trivial (fun _ => rfl) (.refl _) (Multiset.subset_cons _ _)
  | pass instant => exact ⟨replays.todo, replays.calls, replays.explains, replays.store⟩
  | interrupt instant => exact ⟨replays.todo, replays.calls, replays.explains, replays.store⟩
  | skip _ =>
    exact replays.emit trivial (fun _ => rfl) (Multiset.subset_cons _ _) (.refl _)
  | forget lost =>
    -- What is no longer to start needs no place.
    refine ⟨fun site mem => replays.todo site ?_, replays.calls, replays.explains, replays.store⟩
    exact Multiset.mem_add.2 (.inr mem)
  | note notes => cases notes <;> exact replays.emit trivial (fun _ => rfl) (.refl _) (.refl _)

end Flight

/-- The trace of a run gives, entry by entry, the store that its calls read and that it ends with. -/
structure Run.Replays (run : Run) (root : Statement) (seed : Store) : Prop where
  /-- Calls read their inputs from the store that the entries before give. -/
  explains : root.Explains seed run.trace
  /-- The call that an entry tells of is the one that goes out. -/
  calls : ∀ before after place name inputs timeout,
    run.trace = before ++ .started place name inputs timeout :: after →
      run.trace.calls = Trace.calls before ++ ⟨name, inputs, timeout⟩ :: Trace.calls after
  store : run.store = root.replay seed run.trace

end FlowTree
