import FlowTree.Proofs.Run.Balance
import FlowTree.Proofs.Run.Sites

/-! The invocations of a tree over a run: which are still to start, in flight, or have completed. As
long as nothing fails these are all of them; from the first failure on something is missing for good. -/

set_option autoImplicit false

namespace FlowTree

namespace Happening

def completed? : Happening → Option CallId
  | .completed place name _ _ => some (place, name)
  | _ => none

def broken? : Happening → Option CallId
  | .failed place name _ => some (place, name)
  | .cancelled place name _ => some (place, name)
  | _ => none

end Happening

namespace Trace

def completed (trace : Trace) : Multiset CallId := ↑(trace.filterMap Happening.completed?)

def broken (trace : Trace) : Multiset CallId := ↑(trace.filterMap Happening.broken?)

theorem completed_append (a b : Trace) : (a ++ b).completed = a.completed + b.completed := by
  rw [completed, List.filterMap_append, ← Multiset.coe_add]
  rfl

theorem closed_eq (trace : Trace) : trace.closed = trace.completed + trace.broken := by
  induction trace with
  | nil => rfl
  | cons head rest ih =>
    have split (a b : Multiset CallId) (first : CallId) (eq : closed rest = a + b) :
        first ::ₘ closed rest = first ::ₘ a + b ∧ first ::ₘ closed rest = a + first ::ₘ b := by
      rw [eq, Multiset.cons_add, Multiset.add_cons]
      exact ⟨rfl, rfl⟩
    cases head with
    | completed place name result output => exact (split _ _ (place, name) ih).1
    | failed place name error => exact (split _ _ (place, name) ih).2
    | cancelled place name abandoned => exact (split _ _ (place, name) ih).2
    | _ => exact ih

end Trace

def Site.id (site : Site) : CallId := (site.1, site.2.name)

namespace Flight

variable {setting : Setting} {phase : Phase} {a b : Flight}

def reached (flight : Flight) : Multiset CallId :=
  flight.world.trace.opened + flight.todo.map Site.id

theorem Tick.reached_le (tick : Tick setting phase a b) : b.reached ≤ a.reached := by
  cases tick with
  | @send place invocation w todo calls called live =>
    refine le_of_eq ?_
    calc (Call.sent setting place invocation w).trace.opened + todo.map Site.id
        = w.trace.opened + ({(place, invocation.name)} + todo.map Site.id) := by
          rw [Call.opened_sent, add_assoc]
      _ = w.trace.opened + ((place, invocation) ::ₘ todo).map Site.id := by
          rw [Multiset.map_cons, Multiset.singleton_add]
          rfl
  | stir _ stirs =>
    cases stirs
    exact le_rfl
  | @complete call w todo calls output live =>
    refine le_of_eq (congrArg (· + _) ?_)
    exact (World.opened_emit (w.write call.result output) rfl).trans
      (congrArg Trace.opened (w.trace_write call.result output))
  | fail _ fails => cases fails <;> exact le_of_eq (congrArg (· + _) (World.opened_emit _ rfl))
  | @skip phase place invocation w todo calls _ =>
    unfold reached
    rw [w.opened_emit rfl, Multiset.map_cons]
    exact add_le_add_right (Multiset.le_cons_self _ _) _
  | forget lost =>
    unfold reached
    rw [Multiset.map_add]
    exact add_le_add_right (Multiset.le_add_left _ _) _
  | note notes => cases notes <;> exact le_of_eq (congrArg (· + _) (World.opened_emit _ rfl))
  | sleep | pass | interrupt => exact le_rfl

/-- The calls balance, and no invocation is reached twice. -/
structure Apart (flight : Flight) : Prop where
  balanced : flight.Balanced
  apart : flight.reached.Nodup

theorem Tick.apart (tick : Tick setting phase a b) (apart : Apart a) : Apart b :=
  ⟨tick.balanced apart.balanced, Multiset.nodup_of_le tick.reached_le apart.apart⟩

theorem Stride.apart {cancelAt : Option Nat} (stride : Stride setting cancelAt phase a b)
    (apart : Apart a) : Apart b :=
  stride.ticks.keeps Tick.apart apart

theorem Apart.not_closed_of_todo {flight : Flight} (apart : Apart flight) {site : Site}
    (mem : site ∈ flight.todo) : site.id ∉ flight.world.trace.closed := by
  intro ended
  have disjoint := (Multiset.nodup_add.1 apart.apart).2.2
  refine Multiset.disjoint_left.1 disjoint ?_ (Multiset.mem_map_of_mem _ mem)
  rw [apart.balanced]
  exact Multiset.mem_add.2 (.inl ended)

theorem Apart.not_closed {flight : Flight} (apart : Apart flight) {call : Call}
    (mem : call ∈ flight.calls) : call.id ∉ flight.world.trace.closed := by
  intro ended
  have opened := (Multiset.nodup_add.1 apart.apart).1
  rw [apart.balanced] at opened
  have disjoint := (Multiset.nodup_add.1 opened).2.2
  exact Multiset.disjoint_left.1 disjoint ended (Multiset.mem_map_of_mem _ mem)

def kept (flight : Flight) : Multiset CallId :=
  flight.world.trace.completed + (flight.calls.map Call.id + flight.todo.map Site.id)

end Flight

theorem World.completed_emit (w : World) {happening : Happening}
    (ends : happening.completed? = none) :
    (w.emit happening).trace.completed = w.trace.completed :=
  congrArg Multiset.ofList (w.filterMap_emit ends)

namespace Flight

variable {setting : Setting} {phase : Phase} {a b : Flight}

-- A call is moved from those that are to start to those in flight, and then to those that have
-- completed; nothing else can happen to it as long as nothing fails.
theorem Tick.kept_eq (tick : Tick setting .calm a b) : b.kept = a.kept := by
  unfold kept
  cases tick with
  | @send place invocation w todo calls called live =>
    have ends : (Call.sent setting place invocation w).trace.completed = w.trace.completed :=
      w.completed_emit rfl
    calc (Call.sent setting place invocation w).trace.completed +
          ((Call.fresh setting place invocation w ::ₘ calls).map Call.id + todo.map Site.id)
        = w.trace.completed + ((place, invocation.name) ::ₘ calls.map Call.id + todo.map Site.id) := by
          rw [ends, Multiset.map_cons]
          rfl
      _ = w.trace.completed + (calls.map Call.id + ((place, invocation) ::ₘ todo).map Site.id) := by
          simp only [Multiset.map_cons, Multiset.cons_add, Multiset.add_cons, Site.id]
  | stir _ stirs =>
    cases stirs
    rfl
  | sleep same => rw [Multiset.map_cons, Multiset.map_cons, same.id]
  | @complete call w todo calls output live =>
    have ends : (call.complete w output).trace.completed = w.trace.completed + {call.id} := by
      rw [Call.trace_complete, Trace.completed_append]
      rfl
    calc (call.complete w output).trace.completed + (calls.map Call.id + todo.map Site.id)
        = w.trace.completed + ({call.id} + calls.map Call.id + todo.map Site.id) := by
          rw [ends, add_assoc, add_assoc]
      _ = w.trace.completed + ((call ::ₘ calls).map Call.id + todo.map Site.id) := by
          rw [Multiset.map_cons, Multiset.singleton_add]
  | fail late _ => exact absurd rfl late
  | pass instant => rfl
  | skip late => exact absurd rfl late

theorem Tick.completed_eq (tick : Tick setting phase a b) (late : phase ≠ .calm) :
    b.world.trace.completed = a.world.trace.completed := by
  cases tick with
  | stir _ stirs =>
    cases stirs
    rfl
  | fail _ fails => cases fails <;> exact World.completed_emit _ rfl
  | skip _ => exact World.completed_emit _ rfl
  | note notes => cases notes <;> exact World.completed_emit _ rfl
  | interrupt | forget => rfl
  | send | sleep | complete | pass => exact absurd rfl late

/-- At the first failure there is a call in flight or one that is still to start. -/
theorem Tick.open_of_fall (tick : Tick setting .fall a b) :
    a.calls.map Call.id + a.todo.map Site.id ≠ 0 := by
  intro none
  obtain ⟨calls, todo⟩ := add_eq_zero.1 none
  rw [Multiset.map_eq_zero] at calls todo
  cases tick with
  | stir even _ => exact even rfl
  | fail _ _ => exact Multiset.cons_ne_zero calls
  | interrupt instant active => exact active calls
  | skip _ => exact Multiset.cons_ne_zero todo

theorem Calm.kept_eq (calm : Calm setting a b) : b.kept = a.kept := by
  induction calm with
  | refl => rfl
  | tail _ last ih => exact last.kept_eq.trans ih

theorem Drains.completed_eq (drains : Drains setting a b) :
    b.world.trace.completed = a.world.trace.completed := by
  induction drains with
  | refl => rfl
  | tail _ last ih => exact (last.completed_eq nofun).trans ih

theorem Falls.completed_lt (falls : Falls setting a b) : b.world.trace.completed < a.kept := by
  obtain ⟨before, after, calm, fall, drains⟩ := falls
  rw [drains.completed_eq, fall.completed_eq nofun, ← calm.kept_eq]
  exact lt_add_of_pos_right _ (pos_iff_ne_zero.2 fall.open_of_fall)

end Flight

def Statement.callIds (root : Statement) : Multiset CallId := (root.part.todo []).map Site.id

namespace Statement

variable (root : Statement)

theorem names_callIds : root.callIds.map (·.2) = ↑(root.invocations.map (·.name)) := by
  have names := congrArg (Multiset.map Invocation.name) (root.todo_invocations [])
  rw [Multiset.map_map] at names
  rw [callIds, Multiset.map_map]
  exact names

theorem card_callIds : root.callIds.card = root.invocationCount := by
  have size := congrArg Multiset.card root.names_callIds
  rw [Multiset.card_map, Multiset.coe_card, List.length_map] at size
  exact size.trans root.length_invocations

variable {root} in
theorem mem_callIds {place : Position} {call : Invocation}
    (found : root.invocation? place = some call) : (place, call.name) ∈ root.callIds :=
  Multiset.mem_map_of_mem Site.id (mem_todo_of_invocation? found [])

theorem callIds_apart : (root.callIds.map (·.1)).Nodup := by
  rw [callIds, Multiset.map_map]
  exact root.todo_apart []

theorem invocation?_of_mem_callIds {call : CallId} (mem : call ∈ root.callIds) :
    ∃ invocation, root.invocation? call.1 = some invocation ∧ invocation.name = call.2 := by
  obtain ⟨site, here, rfl⟩ := Multiset.mem_map.1 mem
  obtain ⟨rest, place, there⟩ := invocation?_of_mem_todo here
  refine ⟨site.2, ?_, rfl⟩
  rw [Site.id, place]
  exact there

end Statement

end FlowTree
