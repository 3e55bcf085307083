import FlowTree.Proofs.Run.Entries
import FlowTree.Proofs.Run.Ticks

/-! The calls balance: those that have gone out are those that have ended and those in flight. -/

set_option autoImplicit false

namespace FlowTree

def Call.id (call : Call) : CallId := (call.place, call.name)

theorem Call.Same.id {a b : Call} (same : a.Same b) : a.id = b.id :=
  Prod.ext same.place same.name

theorem Call.opened_sent (setting : Setting) (place : Position) (invocation : Invocation)
    (w : World) :
    (sent setting place invocation w).trace.opened =
      w.trace.opened + {(place, invocation.name)} := by
  rw [trace_sent, Trace.opened_append]
  rfl

namespace Flight

def Balanced (flight : Flight) : Prop :=
  flight.world.trace.opened = flight.world.trace.closed + flight.calls.map Call.id

variable {setting : Setting}

theorem Balanced.emit {w : World} {todo left : Multiset Site} {calls : Multiset Call}
    {happening : Happening} (balanced : Balanced ⟨w, todo, calls⟩)
    (opens : happening.opened? = none) (closes : happening.closed? = none) :
    Balanced ⟨w.emit happening, left, calls⟩ := by
  unfold Balanced at balanced ⊢
  rw [w.opened_emit opens, w.closed_emit closes]
  exact balanced

theorem Balanced.close {w : World} {todo : Multiset Site} {calls : Multiset Call} {call : Call}
    {happening : Happening} (balanced : Balanced ⟨w, todo, call ::ₘ calls⟩)
    (opens : happening.opened? = none) (closes : happening.closed? = some call.id) :
    Balanced ⟨w.emit happening, todo, calls⟩ := by
  have ends : Trace.closed [happening] = {call.id} := by
    simp [Trace.closed, closes]
  unfold Balanced at balanced ⊢
  rw [w.opened_emit opens, World.trace_emit, Trace.closed_append, ends, add_assoc,
    Multiset.singleton_add]
  rwa [Multiset.map_cons] at balanced

theorem Tick.balanced {phase : Phase} {a b : Flight} (tick : Tick setting phase a b)
    (balanced : Balanced a) : Balanced b := by
  cases tick with
  | @send place invocation w todo calls called live =>
    -- The one tick that adds on both sides: an entry of the trace and a call in flight.
    have opens := Call.opened_sent setting place invocation w
    have closes : (Call.sent setting place invocation w).trace.closed = w.trace.closed :=
      w.closed_emit rfl
    have eq : (Call.sent setting place invocation w).trace.opened =
        (Call.sent setting place invocation w).trace.closed +
          ((Call.fresh setting place invocation w) ::ₘ calls).map Call.id := by
      rw [opens, closes, Multiset.map_cons, ← Multiset.singleton_add, ← add_assoc, balanced,
        add_right_comm]
      rfl
    exact eq
  | stir _ stirs =>
    cases stirs
    exact balanced
  | sleep same =>
    unfold Balanced at balanced ⊢
    rw [Multiset.map_cons] at balanced ⊢
    rwa [same.id]
  | @complete call w todo calls output live =>
    have written : Balanced ⟨w.write call.result output, todo, call ::ₘ calls⟩ := by
      unfold Balanced at balanced ⊢
      rwa [World.trace_write]
    have closed : Balanced ⟨(w.write call.result output).emit
        (.completed call.place call.name call.result output), todo, calls⟩ := written.close rfl rfl
    exact closed
  | fail _ fails => cases fails <;> exact balanced.close rfl rfl
  | pass instant => exact balanced
  | interrupt instant => exact balanced
  | skip _ => exact balanced.emit rfl rfl
  | forget lost => exact balanced
  | note notes => cases notes <;> exact balanced.emit rfl rfl

end Flight

theorem Workflow.run_balanced (workflow : Workflow) (setting : Setting)
    (cancellation : Cancellation) (called : List String) :
    (workflow.run setting cancellation called).trace.opened =
      (workflow.run setting cancellation called).trace.closed := by
  obtain ⟨w, outcome, eq, leads⟩ := workflow.run_leads setting cancellation called
  have closing : Trace.opened [closing outcome] = 0 ∧ Trace.closed [closing outcome] = 0 := by
    cases outcome <;> exact ⟨rfl, rfl⟩
  -- Nothing is in flight at the start, nor at the end.
  have balanced := leads.keeps (motive := Flight.Balanced) Flight.Tick.balanced rfl
  unfold Flight.Balanced at balanced
  rw [eq, close_trace, Trace.opened_append, Trace.closed_append, closing.1, closing.2, add_zero,
    add_zero, balanced]
  exact add_zero _

end FlowTree
