import FlowTree.Proofs.Run.Moves

/-! A run without its tree, with its time. Between two turns time moves to the first timer of the calls
in flight, unless the caller's token is to be cancelled before. A part that waits has a call in flight,
so there always is such a timer. -/

set_option autoImplicit false

namespace FlowTree

structure FirstTimer (calls : Multiset Call) (instant : Nat) : Prop where
  found : ∃ call ∈ calls, call.nextInstant = instant
  least : ∀ call ∈ calls, instant ≤ call.nextInstant

theorem FirstTimer.active {calls : Multiset Call} {instant : Nat} (first : FirstTimer calls instant) :
    calls ≠ 0 := by
  rintro rfl
  obtain ⟨call, mem, -⟩ := first.found
  exact Multiset.notMem_zero call mem

/-- What a search for the first timer of some calls finds. -/
inductive Searched (calls : Multiset Call) : Option Nat → Prop where
  | none (idle : calls = 0) : Searched calls none
  | some {instant : Nat} (first : FirstTimer calls instant) : Searched calls (some instant)

theorem Searched.add {a b : Multiset Call} {m n : Option Nat} (left : Searched a m)
    (right : Searched b n) : Searched (a + b) (Task.least m n) := by
  cases left with
  | none idle =>
    rw [idle, zero_add]
    exact right
  | some first =>
    cases right with
    | none idle =>
      rw [idle, add_zero]
      exact .some first
    | some other =>
      refine .some ⟨?_, fun call mem => ?_⟩
      · rcases Nat.le_total _ _ with le | le
        · obtain ⟨call, mem, eq⟩ := first.found
          exact ⟨call, Multiset.mem_add.2 (.inl mem), eq.trans (Nat.min_eq_left le).symm⟩
        · obtain ⟨call, mem, eq⟩ := other.found
          exact ⟨call, Multiset.mem_add.2 (.inr mem), eq.trans (Nat.min_eq_right le).symm⟩
      · rcases Multiset.mem_add.1 mem with mem | mem
        · exact Nat.le_trans (Nat.min_le_left _ _) (first.least call mem)
        · exact Nat.le_trans (Nat.min_le_right _ _) (other.least call mem)

/-- The next instant of a task is that of the first timer of its calls. -/
theorem Task.nextInstant_searched (task : Task) : Searched task.part.calls task.nextInstant := by
  induction task with
  | ended => exact .none rfl
  | fresh s => exact .none s.calls_part
  | calling call =>
    refine .some ⟨⟨call, Multiset.mem_singleton_self call, rfl⟩, fun other mem => ?_⟩
    rw [Multiset.mem_singleton.1 mem]
  | sequence current index rest ih =>
    rw [part, Part.calls_sequence, nextInstant]
    exact ih
  | block branches queue handedBack ih =>
    rw [part, Part.calls, nextInstant]
    induction branches with
    | nil => exact .none rfl
    | cons head rest tail =>
      rw [parts, Part.callsAll, nextInstants]
      exact (ih head List.mem_cons_self).add (tail fun t mem => ih t (List.mem_cons_of_mem _ mem))

namespace Machine

-- The ways in which a run goes on. A root that waits for timers has a call in flight, so that the case
-- without a timer does not occur.
theorem next_of_paused (setting : Setting) (cancelAt : Option Nat) (w : World) {p : Call → Prop}
    {task : Task} (paused : task.Paused p) :
    task.woken = true ∧ next setting cancelAt w task = ofProgress (task.poll setting [] w) ∨
    ∃ instant, task.Rests p ∧ task.nextInstant = some instant ∧ FirstTimer task.part.calls instant ∧
      ((∃ deadline, cancelAt = some deadline ∧ deadline ≤ instant ∧
        next setting cancelAt w task = cancel setting w task deadline) ∨
      ((∀ deadline, cancelAt = some deadline → instant < deadline) ∧
        next setting cancelAt w task = pass setting w task instant)) := by
  cases woken : task.woken with
  | true => exact .inl ⟨rfl, next_of_woken woken⟩
  | false =>
    have rests := paused.rests woken
    have searched := task.nextInstant_searched
    cases found : task.nextInstant with
    | none =>
      rw [found] at searched
      cases searched with
      | none idle => exact absurd idle rests.busy.begun.calls_ne_zero
    | some instant =>
      rw [found] at searched
      cases searched with
      | some first =>
        refine .inr ⟨instant, rests, rfl, first, ?_⟩
        unfold next
        rw [if_neg (Bool.eq_false_iff.1 woken), found]
        cases cancelAt with
        | none => exact .inr ⟨nofun, rfl⟩
        | some deadline =>
          by_cases due : deadline ≤ instant
          · exact .inl ⟨deadline, rfl, due, if_pos due⟩
          · refine .inr ⟨fun other eq => ?_, if_neg due⟩
            cases eq
            exact Nat.lt_of_not_le due

end Machine

namespace World

variable {w w' : World}

theorem Notes.clock (notes : w.Notes w') : w'.clock = w.clock := by
  cases notes <;> rfl

theorem Notes.cancelled (notes : w.Notes w') : w'.cancelled = w.cancelled := by
  cases notes <;> rfl

theorem Stirs.clock (stirs : w.Stirs w') : w'.clock = w.clock := by
  cases stirs
  rfl

theorem Stirs.moments (stirs : w.Stirs w') : w'.moments = w.moments := by
  cases stirs
  rfl

theorem Stirs.late (stirs : w.Stirs w') (late : w.cancelled = true) : w'.cancelled = true := by
  cases stirs with
  | intro timers cancels => exact Bool.or_eq_true_iff.2 (.inl late)

theorem clock_write (w : World) (result : Option String) (output : String) :
    (w.write result output).clock = w.clock := by
  cases result <;> rfl

theorem cancelled_write (w : World) (result : Option String) (output : String) :
    (w.write result output).cancelled = w.cancelled := by
  cases result <;> rfl

end World

theorem Call.Lands.clock {call : Call} {w w' : World} {state : Call ⊕ Outcome}
    (lands : call.Lands w w' state) : w'.clock = w.clock := by
  cases lands with
  | asleep | failed => rfl
  | completed output live => exact w.clock_write call.result output

namespace Call

variable {setting : Setting} {call : Call} {w w' : World} {state : Call ⊕ Outcome}

theorem start_clock {place : Position} {invocation : Invocation}
    (started : start setting place invocation w = (w', state)) : w'.clock = w.clock := by
  obtain ⟨called, mid, stirs, lands⟩ := start_lands started
  exact lands.clock.trans stirs.clock

theorem resume_clock (resumed : call.resume setting w = (w', state)) : w'.clock = w.clock := by
  obtain ⟨mid, stirs, lands⟩ := resume_lands resumed
  exact lands.clock.trans stirs.clock

theorem unwind_clock {failure : Failure} (unwound : call.unwind setting w = (w', failure)) :
    w'.clock = w.clock := by
  obtain ⟨mid, entry, stirs, rfl, -⟩ := unwind_fails unwound
  exact stirs.clock

end Call

theorem Call.Lands.cancelled {call : Call} {w w' : World} {state : Call ⊕ Outcome}
    (lands : call.Lands w w' state) : w'.cancelled = w.cancelled := by
  cases lands with
  | asleep | failed => rfl
  | completed output live => exact w.cancelled_write call.result output

theorem Call.Lands.fails_of_late {call : Call} {w w' : World} {state : Call ⊕ Outcome}
    (lands : call.Lands w w' state) (late : w'.cancelled = true) :
    ∃ failure, state = .inr (.error failure) := by
  have same := lands.cancelled
  cases lands with
  | asleep _ live | completed _ live => cases live.symm.trans (same.symm.trans late)
  | failed fails => exact ⟨_, rfl⟩

namespace Flight

variable {setting : Setting} {cancelAt : Option Nat}

theorem Move.clock {phase : Phase} {a b : Flight} (move : Move setting phase a b) :
    b.world.clock = a.world.clock := by
  cases move with
  | start live started => exact Call.start_clock started
  | resume resumed => exact Call.resume_clock resumed
  | unwind unwound => exact Call.unwind_clock unwound
  | skip | forget => rfl
  | note notes => exact notes.clock

theorem Move.late {phase : Phase} {a b : Flight} (move : Move setting phase a b)
    (late : a.world.cancelled = true) : b.world.cancelled = true := by
  cases move with
  | start live started => exact absurd late (Bool.eq_false_iff.1 live)
  | resume resumed =>
    obtain ⟨mid, stirs, lands⟩ := Call.resume_lands resumed
    exact lands.cancelled.trans (stirs.late late)
  | unwind unwound =>
    obtain ⟨mid, entry, stirs, rfl, -⟩ := Call.unwind_fails unwound
    exact stirs.late late
  | skip | forget => exact late
  | note notes =>
    obtain ⟨mid, entry, tells, rfl, -⟩ := notes.emits
    exact (World.Stirs.of_tells tells).late late

/-- One step of a run: an operation of a turn, or time that moves between two turns. -/
inductive Stride (setting : Setting) (cancelAt : Option Nat) : Phase → Flight → Flight → Prop where
  | move {phase : Phase} {a b : Flight} (move : Move setting phase a b) :
    Stride setting cancelAt phase a b
  | pass {w : World} {todo : Multiset Site} {calls : Multiset Call} {instant : Nat}
    (first : FirstTimer calls instant)
    (early : ∀ deadline, cancelAt = some deadline → instant < deadline) :
    Stride setting cancelAt .calm ⟨w, todo, calls⟩ ⟨{ w with clock := instant }, todo, calls⟩
  /-- The caller's token is cancelled while the run waits. -/
  | interrupt {w : World} {todo : Multiset Site} {calls : Multiset Call} {deadline instant : Nat}
    (set : cancelAt = some deadline) (first : FirstTimer calls instant)
    (due : deadline ≤ instant) :
    Stride setting cancelAt .fall ⟨w, todo, calls⟩
      ⟨{ w with clock := max w.clock deadline, cancelled := true }, todo, calls⟩

end Flight

theorem Part.Unwinds.late {setting : Setting} {part : Part} {place : Position} {w w' : World}
    {outcome : Outcome} (h : Unwinds setting part place w w' outcome)
    (late : w.cancelled = true) : w'.cancelled = true := by
  have drains : Phase.Through (Flight.Move setting) .drain _ _ := h.drains 0 0
  exact drains.keeps (motive := fun flight => flight.world.cancelled = true)
    (fun move => move.late) late

theorem Part.Unwinds.clock {setting : Setting} {part : Part} {place : Position} {w w' : World}
    {outcome : Outcome} (h : Unwinds setting part place w w' outcome) : w'.clock = w.clock := by
  have drains : Phase.Through (Flight.Move setting) .drain _ _ := h.drains 0 0
  exact drains.keeps (motive := fun flight => flight.world.clock = w.clock)
    (fun move same => move.clock.trans same) rfl

namespace Part.Proceeds

open Phase (Leads)

variable {setting : Setting} {part : Part} {place : Position} {w w' : World} {progress : Progress}

theorem clock (h : Proceeds setting part place w w' progress) : w'.clock = w.clock :=
  (h.leads 0 0).keeps (motive := fun flight => flight.world.clock = w.clock)
    (fun move same => move.clock.trans same) rfl

theorem strides (h : Proceeds setting part place w w' progress) (cancelAt : Option Nat) :
    Leads (Flight.Stride setting cancelAt) progress ⟨w, part.todo place, part.calls⟩
      ⟨w', progress.todo place, progress.calls⟩ := by
  have moves := h.leads 0 0
  rw [add_zero, add_zero, add_zero, add_zero] at moves
  exact moves.refine fun move => .single (.move move)

end Part.Proceeds

namespace Machine

open FlowTree.Part (Unwinds)
open FlowTree.Flight (Stride)
open Phase (Leads Drains)

variable {setting : Setting}

variable (setting) in
theorem finish_leads (cancelAt : Option Nat) (w : World) {task : Task}
    (paused : task.Paused fun _ => True) :
    Leads (Stride setting cancelAt) (.ended (finish setting cancelAt w task).2)
      ⟨w, task.part.todo [], task.part.calls⟩ ⟨(finish setting cancelAt w task).1, 0, 0⟩ := by
  fun_induction finish setting cancelAt w task with
  | case1 w task last outcome step =>
    rcases next_of_paused setting cancelAt w paused with ⟨woken, again⟩ |
      ⟨instant, rests, -, first, ⟨deadline, set, due, cut⟩ | ⟨early, goes⟩⟩
    · have turn := Task.poll_proceeds paused.poised (ofProgress_ended (again.symm.trans step))
      exact turn.strides cancelAt
    · have unwound := cancel_ended (cut.symm.trans step)
      obtain ⟨failure, fails⟩ := unwound.fails_of_begun rests.busy.begun
      have drains := unwound.drains 0 0
      rw [add_zero, add_zero] at drains
      rw [fails]
      exact ⟨_, _, .refl, .interrupt set first due, drains.lift id fun _ _ => .move⟩
    · have turn := rests.proceeds (ofProgress_ended (goes.symm.trans step))
      exact .of_calm (.single (.pass first early)) (turn.strides cancelAt)
  | case2 w task mid later step ih =>
    rcases next_of_paused setting cancelAt w paused with ⟨woken, again⟩ |
      ⟨instant, rests, -, first, ⟨deadline, set, due, cut⟩ | ⟨early, goes⟩⟩
    · have polled := ofProgress_waiting (again.symm.trans step)
      have turn := Task.poll_proceeds paused.poised polled
      exact .of_calm (turn.strides cancelAt) (ih (Task.poll_paused paused.poised polled))
    · cases step.symm.trans cut
    · have polled := ofProgress_waiting (goes.symm.trans step)
      have turn := rests.proceeds polled
      exact .of_calm (.single (.pass first early)) (.of_calm (turn.strides cancelAt) (ih (rests.poll_paused polled)))

theorem run_strides (setting : Setting) (cancelAt : Option Nat) (root : Statement) (w : World) :
    Leads (Stride setting cancelAt) (.ended (run setting cancelAt root w).2)
      ⟨w, root.part.todo [], 0⟩ ⟨(run setting cancelAt root w).1, 0, 0⟩ := by
  have leads := finish_leads setting cancelAt w (Task.paused_fresh (fun _ => True) root)
  rw [Task.part, root.calls_part] at leads
  exact leads

end Machine

theorem Workflow.run_strides (workflow : Workflow) (setting : Setting)
    (cancellation : Cancellation) (called : List String) :
    ∃ w outcome, workflow.run setting cancellation called = close w outcome ∧
      Phase.Leads (Flight.Stride setting cancellation.at?) (.ended outcome)
        ⟨workflow.world called cancellation.before, workflow.root.part.todo [], 0⟩ ⟨w, 0, 0⟩ :=
  ⟨_, _, rfl, Machine.run_strides setting cancellation.at? workflow.root _⟩

end FlowTree
