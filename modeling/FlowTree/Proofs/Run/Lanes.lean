import FlowTree.Proofs.Run.Peace

/-! Lanes: the branches of a flat race. Each lane is one call of a unit that sleeps once and then gives a
text or fails. Here is what a lane does when it starts, when its sleep is over and when its scope is
cancelled, and what can be seen of the run after each of these. -/

set_option autoImplicit false

namespace FlowTree

/-- A call of a unit that sleeps and then returns a text or fails with a message. -/
structure Racer where
  name : String
  result : Option String := none
  timeout : Option Duration := none
  /-- The milliseconds of its sleep. -/
  delay : Nat
  answer : Except String String

namespace Racer

def invocation (r : Racer) : Invocation where
  name := r.name
  result := r.result
  timeout := r.timeout

def ending (r : Racer) : Step :=
  match r.answer with
  | .ok output => .give output
  | .error message => .fail message

def script (r : Racer) : Script := [.delay r.delay, r.ending]

def failure? (r : Racer) : Option Failure :=
  match r.answer with
  | .ok _ => none
  | .error message => some (.invocation r.name (.failed message))

def outcome (r : Racer) : Outcome :=
  match r.failure? with
  | none => .ok ()
  | some failure => .error failure

def reply (r : Racer) : Answer := r.answer.mapError .failed

def sent (setting : Setting) (r : Racer) : Trace.Sent :=
  ⟨r.name, [], r.timeout.getD setting.timeout⟩

theorem of_ok {r : Racer} {output : String} (answer : r.answer = .ok output) :
    r.reply = .ok output ∧ r.failure? = none := by
  rw [reply, failure?, answer]
  exact ⟨rfl, rfl⟩

theorem of_error {r : Racer} {message : String} (answer : r.answer = .error message) :
    r.reply = .error (.failed message) ∧
      r.failure? = some (.invocation r.name (.failed message)) := by
  rw [reply, failure?, answer]
  exact ⟨rfl, rfl⟩

theorem goOn_ending (r : Racer) (echo : String) :
    Script.goOn echo [r.ending] = (false, .answered r.reply) := by
  unfold ending reply
  cases r.answer <;> rfl

theorem goOn_script (r : Racer) (echo : String) : r.script.goOn echo =
    if r.delay = 0 then (false, .answered r.reply) else (false, .asleep r.delay [r.ending]) := by
  rw [script, Script.goOn, goOn_ending]

theorem not_cancelled {r : Racer} {failure : Failure} (fails : r.failure? = some failure) :
    failure.isCancelled = false := by
  unfold failure? at fails
  split at fails <;> cases fails
  rfl

end Racer

def Host.Runs (host : Host) (r : Racer) : Prop :=
  ∃ work, host.find? r.name = some work ∧ ∀ earlier, work.script earlier [] = r.script

/-- A call that has completed, with its index in the race. -/
structure Finish where
  index : Nat
  racer : Racer
  output : String

namespace Finish

/-- The order in which calls complete: by their sleeps, and in list order at one instant. -/
def Before (a b : Finish) : Prop :=
  a.racer.delay < b.racer.delay ∨ a.racer.delay = b.racer.delay ∧ a.index < b.index

def happening (f : Finish) : Happening :=
  .completed [f.index] f.racer.name f.racer.result f.output

def write (store : Store) (f : Finish) : Store := store.write f.racer.result f.output

end Finish

def Happening.isCompletion : Happening → Bool
  | .completed _ _ _ _ => true
  | _ => false

def Trace.completions (trace : Trace) : Trace := trace.filter Happening.isCompletion

structure Sight where
  clock : Nat
  cancelled : Bool
  store : Store
  completions : Trace
  calls : List Trace.Sent
  abandoned : List String

namespace Sight

def add (s : Sight) : Happening → Sight
  | .started _ name inputs timeout => { s with calls := s.calls ++ [⟨name, inputs, timeout⟩] }
  | .completed place name result output =>
    { s with completions := s.completions ++ [.completed place name result output] }
  | .cancelled _ name true => { s with abandoned := s.abandoned ++ [name] }
  | _ => s

def finish (s : Sight) (f : Finish) : Sight :=
  { s with store := f.write s.store, completions := s.completions ++ [f.happening] }

end Sight

namespace World

def sight (w : World) : Sight where
  clock := w.clock
  cancelled := w.cancelled
  store := w.store
  completions := w.trace.completions
  calls := w.trace.calls
  abandoned := w.trace.abandoned

theorem sight_emit (w : World) (happening : Happening) :
    (w.emit happening).sight = w.sight.add happening := by
  have trace := w.trace_emit happening
  unfold sight
  rw [trace]
  cases happening with
  | cancelled place name abandoned =>
    cases abandoned <;>
      simp [emit, Sight.add, Trace.completions, Trace.calls, Trace.abandoned, Happening.isCompletion]
  | _ => simp [emit, Sight.add, Trace.completions, Trace.calls, Trace.abandoned, Happening.isCompletion]

theorem timers_write (w : World) (result : Option String) (output : String) :
    (w.write result output).timers = w.timers := by
  cases result <;> rfl

theorem sight_complete (w : World) (call : Call) {f : Finish} (place : call.place = [f.index])
    (name : call.name = f.racer.name) (result : call.result = f.racer.result) :
    (call.complete w f.output).sight = w.sight.finish f := by
  have written (entry : LogEntry) (notice : String → Event) :
      (((w.write call.result f.output).log entry).notify notice).sight =
        { w.sight with store := f.write w.store } := by
    change (w.write call.result f.output).sight = _
    unfold sight
    rw [trace_write, clock_write, cancelled_write, result, Finish.write]
    cases f.racer.result <;> rfl
  rw [Call.complete, sight_emit, written, place, name, result]
  rfl

end World

theorem sight_observe (mode : FailureMode) (place : Position) (earlier : List Failure)
    (remaining : Nat) (failure : Failure) (w : World) :
    (observe mode place earlier remaining failure w).sight = w.sight := by
  cases earlier with
  | nil => exact w.sight_emit _
  | cons first later =>
    cases mode with
    | firstObserved =>
      unfold observe
      simp only
      split
      · rfl
      · exact w.sight_emit _
    | aggregate => rfl

/-- A racer in its place, with the number of timers that are set before its sleep. -/
structure Lane where
  racer : Racer
  index : Nat
  serial : Nat

namespace Lane

def Before (a b : Lane) : Prop :=
  a.racer.delay < b.racer.delay ∨ a.racer.delay = b.racer.delay ∧ a.index < b.index

def finish? (l : Lane) : Option Finish :=
  match l.racer.answer with
  | .ok output => some ⟨l.index, l.racer, output⟩
  | .error _ => none

def call (setting : Setting) (l : Lane) : Call where
  place := [l.index]
  name := l.racer.name
  result := l.racer.result
  timeout := l.racer.timeout.getD setting.timeout
  echo := echoText l.racer.name []
  wake := ⟨l.racer.delay, l.serial⟩
  rest := [l.racer.ending]
  expiry := none

def task (setting : Setting) (gone : Bool) (l : Lane) : Task :=
  if gone then .ended else .calling (l.call setting)

theorem hasEnded_task (setting : Setting) (gone : Bool) (l : Lane) :
    (l.task setting gone).hasEnded = gone := by
  cases gone <;> rfl

def woken (instant : Nat) (l : Lane) : Bool := l.racer.delay ≤ instant

theorem woken_iff {instant : Nat} {l : Lane} : l.woken instant = true ↔ l.racer.delay ≤ instant :=
  decide_eq_true_iff

def dropped (instant : Nat) (l : Lane) : Failure :=
  if l.woken instant then l.racer.failure?.getD .cancelled else .cancelled

end Lane

namespace Sight

def settle (s : Sight) (l : Lane) : Sight :=
  match l.finish? with
  | some f => s.finish f
  | none => s

def drop (s : Sight) (l : Lane) : Sight :=
  if l.woken s.clock then s else { s with abandoned := s.abandoned ++ [l.racer.name] }

end Sight

namespace Lane

variable {setting : Setting} {l : Lane} {w : World}

theorem finish?_eq_some {f : Finish} : l.finish? = some f ↔
    f.index = l.index ∧ f.racer = l.racer ∧ l.racer.answer = .ok f.output := by
  unfold finish?
  cases l.racer.answer with
  | ok output =>
    rw [Option.some.injEq, Except.ok.injEq]
    constructor
    · rintro rfl
      exact ⟨rfl, rfl, rfl⟩
    · rintro ⟨index, racer, output⟩
      cases f
      simp_all
  | error message => simp

theorem finish?_eq_none {failure : Failure} (fails : l.racer.failure? = some failure) :
    l.finish? = none := by
  cases answer : l.racer.answer with
  | ok output =>
    rw [(Racer.of_ok answer).2] at fails
    cases fails
  | error message => rw [finish?, answer]

theorem takeReply_answered (call : Call) (live : w.cancelled = false) (place : call.place = [l.index])
    (name : call.name = l.racer.name) (result : call.result = l.racer.result) :
    ∃ w', call.takeReply w (.answered l.racer.reply) = (w', .inr l.racer.outcome) ∧
      w'.sight = w.sight.settle l ∧ w'.timers = w.timers := by
  cases answer : l.racer.answer with
  | ok output =>
    obtain ⟨reply, failure⟩ := Racer.of_ok answer
    have finish : l.finish? = some ⟨l.index, l.racer, output⟩ := by rw [finish?, answer]
    refine ⟨call.complete w output, ?_, ?_, ?_⟩
    · rw [reply, Racer.outcome, failure]
      exact Call.takeReply_ok live
    · rw [Sight.settle, finish]
      exact w.sight_complete (f := ⟨l.index, l.racer, output⟩) call place name result
    · exact w.timers_write call.result output
  | error message =>
    obtain ⟨reply, failure⟩ := Racer.of_error answer
    have finish : l.finish? = none := by rw [finish?, answer]
    refine ⟨(call.fail w (.failed message)).1, ?_, ?_, rfl⟩
    · rw [reply, Racer.outcome, failure, ← name]
      unfold Call.takeReply
      rw [live]
      rfl
    · rw [Sight.settle, finish]
      exact w.sight_emit _

/-- The call of a lane goes out, its script goes on from its start, and the call takes the reply. -/
theorem start_eq {mid w' : World} {reply : Call.Reply} {state : Call ⊕ Outcome}
    (runs : setting.host.Runs l.racer) (live : w.cancelled = false)
    (advanced : (Call.fresh setting [l.index] l.racer.invocation w).advance setting
      (Call.taken setting [l.index] l.racer.invocation w) l.racer.script = (mid, reply))
    (replied : (Call.fresh setting [l.index] l.racer.invocation w).takeReply mid reply = (w', state)) :
    (Task.fresh (.invocation l.racer.invocation)).poll setting [l.index] w = (w', .ofCall state) := by
  obtain ⟨work, found, script⟩ := runs
  rw [← script (w.called.count l.racer.name)] at advanced
  have started : Call.start setting [l.index] l.racer.invocation w = (w', state) := by
    unfold Call.start
    rw [show setting.host.find? l.racer.invocation.name = some work from found]
    exact (congrArg (fun turn => Call.takeReply turn.1 _ turn.2) advanced).trans replied
  rw [Task.poll_eq, Task.pollWith, Task.pollFresh, live, if_neg Bool.false_ne_true, started]

theorem sight_taken (setting : Setting) (l : Lane) (w : World) :
    (Call.taken setting [l.index] l.racer.invocation w).sight =
      { w.sight with calls := w.sight.calls ++ [l.racer.sent setting] } :=
  w.sight_emit _

theorem start_at_once (runs : setting.host.Runs l.racer) (live : w.cancelled = false)
    (awake : l.racer.delay = 0) :
    ∃ w', (Task.fresh (.invocation l.racer.invocation)).poll setting [l.index] w =
        (w', .ended l.racer.outcome) ∧
      w'.sight = ({ w.sight with calls := w.sight.calls ++ [l.racer.sent setting] }).settle l ∧
      w'.timers = w.timers := by
  let mid := Call.taken setting [l.index] l.racer.invocation w
  have advanced : (Call.fresh setting [l.index] l.racer.invocation w).advance setting mid
      l.racer.script = (mid, .answered l.racer.reply) := by
    unfold Call.advance
    rw [Racer.goOn_script, if_pos awake]
    simp only [Bool.or_false]
  obtain ⟨w', taken, shown, timers⟩ := takeReply_answered (w := mid)
    (Call.fresh setting [l.index] l.racer.invocation w) live rfl rfl rfl
  exact ⟨w', start_eq runs live advanced taken, by rw [shown, sight_taken], timers⟩

theorem start_asleep (runs : setting.host.Runs l.racer) (bare : setting.host.enforcesTimeouts = false)
    (live : w.cancelled = false) (clock : w.clock = 0) (serial : l.serial = w.timers)
    (sleeps : l.racer.delay ≠ 0) :
    ∃ w', (Task.fresh (.invocation l.racer.invocation)).poll setting [l.index] w =
        (w', .waiting (l.task setting false)) ∧
      w'.sight = { w.sight with calls := w.sight.calls ++ [l.racer.sent setting] } ∧
      w'.timers = w.timers + 1 := by
  let mid := Call.taken setting [l.index] l.racer.invocation w
  let set : World := { mid with timers := mid.timers + 1 }
  have advanced : (Call.fresh setting [l.index] l.racer.invocation w).advance setting mid
      l.racer.script = (set, .asleep (l.call setting)) := by
    have wake : (⟨mid.clock + l.racer.delay, mid.timers⟩ : Timer) = ⟨l.racer.delay, l.serial⟩ := by
      rw [serial, show mid.clock = 0 from clock, Nat.zero_add]
      rfl
    unfold Call.advance
    rw [Racer.goOn_script, if_neg sleeps]
    simp only [Bool.or_false, bare]
    rw [wake]
    rfl
  have waits : (Call.fresh setting [l.index] l.racer.invocation w).takeReply set
      (.asleep (l.call setting)) = (set, .inl (l.call setting)) :=
    Call.takeReply_asleep live
  exact ⟨set, start_eq runs live advanced waits, sight_taken setting l w, rfl⟩

theorem poll_due (due : l.woken w.clock = true) :
    (l.call setting).poll setting w = (w, .answered l.racer.reply) := by
  unfold Call.poll
  rw [if_pos (show (l.call setting).wake.due ≤ w.clock from woken_iff.1 due), Call.advance,
    show (l.call setting).rest = [l.racer.ending] from rfl, Racer.goOn_ending]
  simp only [Bool.or_false]

theorem poll_early (early : ¬ l.woken w.clock = true) :
    (l.call setting).poll setting w = (w, .asleep (l.call setting)) := by
  unfold Call.poll
  rw [if_neg (show ¬ (l.call setting).wake.due ≤ w.clock from fun due => early (woken_iff.2 due))]
  rfl

variable (setting) in
theorem poll_task (live : w.cancelled = false) (due : l.woken w.clock = true) (place : Position) :
    ∃ w', (l.task setting false).poll setting place w = (w', .ended l.racer.outcome) ∧
      w'.sight = w.sight.settle l := by
  obtain ⟨w', taken, shown, -⟩ := takeReply_answered (l.call setting) live rfl rfl rfl
  refine ⟨w', ?_, shown⟩
  rw [show l.task setting false = .calling (l.call setting) from rfl, Task.poll_eq, Task.pollWith,
    Call.resume, poll_due due]
  simp only [taken]
  rfl

/-- A lane ends in a cancelled scope: by its failure if it has one, else it is dropped. -/
theorem unwind_drops (l : Lane) (place : Position) (w : World) :
    ∃ w', (l.task setting false).unwind setting place w = (w', .error (l.dropped w.clock)) ∧
      w'.sight = w.sight.drop l := by
  rw [show l.task setting false = .calling (l.call setting) from rfl, Task.unwind, Call.unwind]
  by_cases due : l.woken w.clock = true
  · have sight : w.sight.drop l = w.sight := if_pos due
    rw [poll_due due, sight, dropped, if_pos due]
    cases answer : l.racer.answer with
    | ok output =>
      obtain ⟨reply, failure⟩ := Racer.of_ok answer
      rw [reply, failure]
      exact ⟨_, rfl, w.sight_emit _⟩
    | error message =>
      obtain ⟨reply, failure⟩ := Racer.of_error answer
      rw [reply, failure]
      exact ⟨_, rfl, w.sight_emit _⟩
  · rw [poll_early due, dropped, if_neg due]
    exact ⟨_, rfl, (w.sight_emit _).trans (if_neg due).symm⟩

theorem dueAt_task (setting : Setting) (l : Lane) (instant : Nat) :
    (l.task setting false).dueAt instant =
      if l.woken instant then some l.serial else none := by
  change (l.call setting).dueAt instant = _
  unfold Call.dueAt
  by_cases due : l.racer.delay ≤ instant <;> simp [call, woken, due]

end Lane

end FlowTree
