import FlowTree.Proofs.FailFast
import FlowTree.Proofs.Run.Waiting

/-! A deadline only cuts a run off. Until the caller's token is cancelled at an instant, a run does what
it does without that; at the instant everything ends that waits, and no call starts or completes any
more. -/

set_option autoImplicit false

namespace FlowTree

def Event.isAdvance : Event → Bool
  | .invocationStarted _ _ _ => true
  | .invocationCompleted _ _ _ => true
  | _ => false

namespace Trace

def advances (id : String) (trace : Trace) : List Event :=
  (Event.ofTrace id trace).filter Event.isAdvance

theorem advances_append (id : String) (a b : Trace) :
    (a ++ b).advances id = a.advances id ++ b.advances id := by
  rw [advances, Event.ofTrace, List.filterMap_append, List.filter_append]
  rfl

theorem advances_of_drains {trace : Trace} (drains : ∀ h ∈ trace, h.Drains) (id : String) :
    trace.advances id = [] := by
  refine List.filter_eq_nil_iff.2 fun event mem => ?_
  obtain ⟨h, here, told⟩ := List.mem_filterMap.1 mem
  cases drains h here with
  | noted notes => cases notes <;> cases told
  | _ => cases told <;> exact Bool.false_ne_true

theorem advances_closing (id : String) (outcome : Outcome) :
    Trace.advances id [Workflow.closing outcome] = [] := by
  cases outcome <;> rfl

end Trace

namespace Machine

/-- The end of a run with a deadline, next to its end without one: the run is over by then, or it is
cut off at the deadline while it waits. -/
inductive Meets (deadline : Nat) (whole : World × Outcome) : World × Outcome → Prop where
  | passed (early : whole.1.clock ≤ deadline) : Meets deadline whole whole
  | cut {mid last : World} {failure : Failure} (now : mid.clock = deadline)
    (settles : mid.Settles last)
    (later : deadline ≤ whole.1.clock)
    (beyond : ∃ rest, whole.1.moments = mid.moments ++ rest ∧ ∀ m ∈ rest, deadline ≤ m.clock) :
    Meets deadline whole (last, .error failure)

variable {setting : Setting} {deadline : Nat}

-- The run without a deadline goes on at an instant that is not before the deadline.
theorem Due.meets {w : World} {task : Task} {instant : Nat} (due : Due w task instant)
    (before : w.clock ≤ deadline) (passed : deadline ≤ instant) {whole : World × Outcome}
    (onward : World.Onward { w with clock := instant } whole.1) :
    Meets deadline whole (finish setting (some deadline) w task) := by
  have step : Machine.next setting (some deadline) w task = cancel setting w task deadline := due.next_cut passed
  rcases unwound : (task.wake (max w.clock deadline)).unwind setting []
    { w with clock := max w.clock deadline, cancelled := true } with ⟨last, outcome⟩
  have unwinds := Task.wake_unwinds unwound
  obtain ⟨failure, rfl⟩ := unwinds.fails_of_begun due.awaits.busy.begun
  obtain ⟨rest, grown, late⟩ := onward.moments
  rw [finish_of_ended (step.trans (congrArg ofOutcome unwound))]
  exact .cut (Nat.max_eq_right before) unwinds.settled (passed.trans onward.clock)
    ⟨rest, grown, fun m mem => passed.trans (late m mem)⟩

/-- A root goes on under a deadline as it does without one, if it does so in time. -/
theorem GoesOn.ahead {w : World} {task ready : Task} {instant : Nat}
    (goes : GoesOn none w task instant ready) (before : w.clock ≤ deadline) :
    GoesOn (some deadline) w task instant ready ∧ instant ≤ deadline ∨
      deadline ≤ instant ∧ Due w task instant := by
  cases goes with
  | again woken onTime => exact .inl ⟨.again woken onTime, before⟩
  | fires due =>
    rcases Nat.lt_or_ge instant deadline with ahead | passed
    · exact .inl ⟨.fires due fun _ set => Option.some.inj set ▸ ahead, Nat.le_of_lt ahead⟩
    · exact .inr ⟨passed, due⟩

theorem finish_meets {w : World} {task : Task} (onTime : OnTime w task) (before : w.clock ≤ deadline) :
    Meets deadline (finish setting none w task) (finish setting (some deadline) w task) := by
  -- The run without a deadline sets the pace of the other one.
  refine finish_induction
    (motive := fun w task whole => w.clock ≤ deadline →
      Meets deadline whole (finish setting (some deadline) w task)) nofun ?_ ?_ onTime before
  · intro w task instant ready w' outcome goes polled before
    have turn := goes.proceeds polled
    rcases goes.ahead before with ⟨also, ahead⟩ | ⟨passed, due⟩
    · rw [finish_of_ended (also.next_eq.trans (congrArg _ polled))]
      exact .passed (turn.clock.trans_le ahead)
    · exact due.meets before passed turn.onward
  · intro w task instant ready mid later goes polled left ih before
    have turn := goes.proceeds polled
    rcases goes.ahead before with ⟨also, ahead⟩ | ⟨passed, due⟩
    · rw [finish_of_waiting (also.next_eq.trans (congrArg _ polled))]
      exact ih (turn.clock.trans_le ahead)
    · exact due.meets before passed (turn.onward.trans (finish_onward none left))

/-- A run from its start with a deadline, next to the same run without one. -/
theorem run_meets (setting : Setting) (root : Statement) {w : World} (start : w.clock ≤ deadline) :
    Meets deadline (run setting none root w) (run setting (some deadline) root w) :=
  finish_meets (onTime_fresh w root) start

end Machine

/-- A run whose token is cancelled at an instant, next to the same run without that. -/
structure Run.CutOff (whole cut : Run) (deadline : Nat) (id : String) : Prop where
  /-- A run that is over before is not touched. -/
  untouched : whole.elapsed < deadline → cut = whole
  elapsed : cut.elapsed = min whole.elapsed deadline
  /-- Before the deadline the same happens in the same scenes. -/
  past : cut.moments.filter (·.clock < deadline) = whole.moments.filter (·.clock < deadline)
  /-- At the deadline no call starts or completes that does not do so anyway. -/
  advances : (cut.events id).filter Event.isAdvance <+: (whole.events id).filter Event.isAdvance
  fails : deadline < whole.elapsed → ∃ failure, cut.outcome = .error failure

namespace Workflow

theorem close_past {mid w : World} {deadline : Nat} {rest : List Moment}
    (grown : w.moments = mid.moments ++ rest) (late : ∀ m ∈ rest, deadline ≤ m.clock)
    (closed : deadline ≤ w.clock) (outcome : Outcome) :
    (close w outcome).moments.filter (·.clock < deadline) =
      mid.moments.filter (·.clock < deadline) := by
  have moments : (close w outcome).moments =
      mid.moments ++ (rest ++ [⟨w.toScene, closing outcome⟩]) := by
    rw [← List.append_assoc, ← grown]
    exact w.moments_emit (closing outcome)
  have none : List.filter (fun m : Moment => m.clock < deadline)
      (rest ++ [⟨w.toScene, closing outcome⟩]) = [] := by
    refine List.filter_eq_nil_iff.2 fun m mem => ?_
    rw [decide_eq_true_eq, Nat.not_lt]
    rcases List.mem_append.1 mem with mem | mem
    · exact late m mem
    · cases List.mem_singleton.1 mem
      exact closed
  rw [moments, List.filter_append, none, List.append_nil]

theorem close_cutOff {deadline : Nat} {whole cut : World × Outcome}
    (meets : Machine.Meets deadline whole cut) (left : whole.1.Recorded) (right : cut.1.Recorded)
    (id : String) : (close whole.1 whole.2).CutOff (close cut.1 cut.2) deadline id := by
  cases meets with
  | passed early =>
    exact ⟨fun _ => rfl, (Nat.min_eq_left early).symm, rfl, List.prefix_rfl,
      fun late => absurd early (Nat.not_le_of_lt late)⟩
  | @cut mid last failure now settles later beyond =>
    obtain ⟨still, drained, ends, drains⟩ := settles
    obtain ⟨rest, grown, late⟩ := beyond
    have stops : last.clock = deadline := still.clock.trans now
    constructor
    case untouched => exact fun early => absurd later (Nat.not_le_of_lt early)
    case elapsed => exact stops.trans (Nat.min_eq_right later).symm
    case past =>
      rw [close_past grown late later]
      refine close_past ends (fun m mem => ?_) (Nat.le_of_eq stops.symm) _
      exact Nat.le_of_eq (now.symm.trans (drains m mem).1.clock.symm)
    case advances =>
      have silent : ∀ h ∈ Trace.ofMoments drained, h.Drains := by
        intro h mem
        obtain ⟨m, here, rfl⟩ := List.mem_map.1 mem
        exact (drains m here).2
      rw [close_events left, close_events right, close_trace, close_trace, World.trace_append ends,
        World.trace_append grown, ← Trace.advances, ← Trace.advances]
      simp only [Trace.advances_append, Trace.advances_of_drains silent, Trace.advances_closing,
        List.append_nil]
      exact List.prefix_append _ _
    case fails => exact fun _ => ⟨failure, rfl⟩

/-- To cancel the caller's token at an instant only cuts a run off. -/
theorem run_cut_off (workflow : Workflow) (setting : Setting) (before : Bool)
    (deadline : Nat) (called : List String) (id : String) :
    (workflow.run setting ⟨before, none⟩ called).CutOff
      (workflow.run setting ⟨before, some deadline⟩ called) deadline id :=
  close_cutOff (Machine.run_meets setting workflow.root (Nat.zero_le deadline))
    (Machine.run_recorded _ _ _ (workflow.world_recorded called before))
    (Machine.run_recorded _ _ _ (workflow.world_recorded called before)) id

end Workflow

end FlowTree
