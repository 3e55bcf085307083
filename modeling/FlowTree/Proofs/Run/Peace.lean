import FlowTree.Proofs.Run.Effects
import FlowTree.Proofs.Run.Timers

/-! Runs in which nothing fails and no branch disturbs another one. Every call then ends with an
output, and whatever order the branches take, the run does the actions of its tree from left to
right. -/

set_option autoImplicit false

namespace FlowTree

open FlowTree.Action (performAll)

def Host.script (host : Host) (name : String) (inputs : List String) : Script :=
  match host.find? name with
  | some work => work.script 0 inputs
  | none => []

namespace Setting

def output (setting : Setting) (name : String) (inputs : List String) : String :=
  ((setting.host.script name inputs).answer (echoText name inputs)).output

/-- Calls for an invocation end with an output, within their time, and leave the run alone. -/
structure Serves (setting : Setting) (call : Invocation) : Prop where
  /-- The host knows the unit, and each of its calls has the same script. -/
  steady : ∃ work, setting.host.find? call.name = some work ∧
    ∀ earlier inputs, work.script earlier inputs = setting.host.script call.name inputs
  quiet : ∀ inputs, (setting.host.script call.name inputs).cancels = false
  answers : ∀ inputs, ∃ output,
    (setting.host.script call.name inputs).answer (echoText call.name inputs) = .ok output
  inTime : setting.host.enforcesTimeouts = true → ∀ inputs,
    (setting.host.script call.name inputs).delay ≤ (call.timeout.getD setting.timeout).millisUp

end Setting

theorem World.ledger_write (w : World) (result : Option String) (output : String) :
    (w.write result output).ledger = w.ledger.write result output := by
  cases result <;> rfl

theorem World.ledger_emit (w : World) {happening : Happening} (opens : happening.request? = none) :
    (w.emit happening).ledger = w.ledger := by
  have same : (w.emit happening).trace.requests = w.trace.requests := w.filterMap_emit opens
  rw [ledger, same]
  rfl

theorem World.Stirs.ledger {w w' : World} (stirs : w.Stirs w') : w'.ledger = w.ledger := by
  cases stirs
  rfl

namespace Call

variable {setting : Setting} {w mid w' : World} {call next : Call} {steps : Script}
  {output : String} {reply : Reply} {state : Call ⊕ Outcome}

/-- A call that ends with an output when it goes on now from some steps. -/
structure Thrives (setting : Setting) (w : World) (call : Call) (steps : Script) (output : String) :
    Prop where
  live : w.cancelled = false
  quiet : steps.cancels = false
  answers : steps.answer call.echo = .ok output
  inTime : ∀ due, grant setting w call = some due → w.clock + steps.delay ≤ due

/-- A call in flight that ends with an output when its sleep is over. -/
structure Safe (setting : Setting) (clock : Nat) (call : Call) : Prop where
  quiet : call.rest.cancels = false
  answers : call.rest.answer call.echo = .ok call.output
  inTime : ∀ timer, call.expiry = some timer → max clock call.wake.due + call.rest.delay ≤ timer.due
  granted : call.expiry = none → setting.host.enforcesTimeouts = false

/-- What a call has come to that goes on in peace: it has written its output, or it is to do so. -/
structure Fares (setting : Setting) (w : World) (call : Call) (output : String) (w' : World)
    (state : Call ⊕ Outcome) : Prop where
  live : w'.cancelled = false
  clock : w'.clock = w.clock
  lands : (state = .inr (.ok ()) ∧ w'.ledger = w.ledger.write call.result output) ∨
    ∃ next, state = .inl next ∧ w'.ledger = w.ledger ∧ next.result = call.result ∧
      next.output = output ∧ next.Safe setting w.clock

theorem takeReply_ok (live : w.cancelled = false) :
    call.takeReply w (.answered (.ok output)) = (call.complete w output, .inr (.ok ())) := by
  unfold takeReply
  rw [live]
  rfl

theorem takeReply_asleep (live : w.cancelled = false) :
    call.takeReply w (.asleep next) = (w, .inl next) := by
  unfold takeReply
  rw [live]
  rfl

theorem ledger_complete (call : Call) (w : World) (output : String) :
    (call.complete w output).ledger = w.ledger.write call.result output := by
  rw [← w.ledger_write]
  exact (w.write call.result output).ledger_emit rfl

theorem complete_fares (live : mid.cancelled = false) (clock : mid.clock = w.clock)
    (ledger : mid.ledger = w.ledger) :
    Fares setting w call output (call.complete mid output) (.inr (.ok ())) := by
  constructor
  case live => exact (mid.cancelled_write call.result output).trans live
  case clock => exact (mid.clock_write call.result output).trans clock
  case lands =>
    refine .inl ⟨rfl, ?_⟩
    rw [ledger_complete, ledger]

theorem Thrives.fares (thrives : Thrives setting w call steps output)
    (went : call.advance setting w steps = (mid, reply))
    (taken : call.takeReply mid reply = (w', state)) : Fares setting w call output w' state := by
  have stirs := advance_stirs setting call w steps
  have token := advance_token setting w call steps
  have replied := advance_shows setting w call steps
  have stands := Script.goOn_stands call.echo steps
  rw [went] at stirs token replied
  have live : mid.cancelled = false := by
    refine token.trans (Bool.or_eq_false_iff.2 ⟨thrives.live, ?_⟩)
    refine Bool.eq_false_iff.2 fun cancels => ?_
    exact Bool.eq_false_iff.1 thrives.quiet (Script.cancels_of_goOn cancels)
  cases replied with
  | answered ends =>
    rw [ends] at stands
    cases stands
    rw [thrives.answers, takeReply_ok live] at taken
    cases taken
    exact complete_fares live stirs.clock stirs.ledger
  | @asleep ms next same sleeps wakes granted early =>
    rw [sleeps] at stands
    cases stands with | asleep positive delay answer quiet
    rw [takeReply_asleep live] at taken
    cases taken
    have answers : next.rest.answer next.echo = .ok output := by
      rw [same.echo, ← answer]
      exact thrives.answers
    have given : next.output = output := congrArg Answer.output answers
    refine ⟨live, stirs.clock, .inr ⟨next, rfl, stirs.ledger, same.result, given, ?_⟩⟩
    refine ⟨quiet thrives.quiet, given ▸ answers, fun timer expiry => ?_, fun free => ?_⟩
    · rw [expiry] at granted
      have within := thrives.inTime timer.due granted.symm
      omega
    · rw [free] at granted
      unfold grant at granted
      cases expiry : call.expiry with
      | some timer => simp [expiry] at granted
      | none => simpa [expiry] using granted
  | expired sleeps granted passed =>
    rw [sleeps] at stands
    cases stands with | asleep positive delay answer quiet
    have within := thrives.inTime _ granted
    omega

theorem Safe.fares (safe : call.Safe setting w.clock) (live : w.cancelled = false)
    (resumed : call.resume setting w = (w', state)) :
    Fares setting w call call.output w' state := by
  rcases polled : call.poll setting w with ⟨mid, reply⟩
  rw [resume, polled] at resumed
  simp only at resumed
  unfold poll at polled
  split at polled
  · next awake =>
    refine Thrives.fares ⟨live, safe.quiet, safe.answers, fun due granted => ?_⟩ polled resumed
    unfold grant at granted
    cases expiry : call.expiry with
    | none =>
      rw [expiry] at granted
      simp [safe.granted expiry] at granted
    | some timer =>
      rw [expiry] at granted
      cases granted
      have within := safe.inTime timer expiry
      omega
  · next sleeps =>
    have waits : await w call = .asleep call := by
      unfold await
      cases expiry : call.expiry with
      | none => rfl
      | some timer =>
        have within := safe.inTime timer expiry
        have early : ¬ timer.due ≤ w.clock := by omega
        simp only [if_neg early]
    rw [waits] at polled
    cases polled
    rw [takeReply_asleep live] at resumed
    cases resumed
    exact ⟨live, rfl, .inr ⟨call, rfl, rfl, rfl, rfl, safe⟩⟩

end Call

namespace Part

/-- A part in which every call ends well and no branch of a block touches what another one writes. -/
inductive Peaceful (setting : Setting) (clock : Nat) : Part → Prop where
  | ended : Peaceful setting clock .ended
  | unstarted {call : Invocation} (serves : setting.Serves call) :
    Peaceful setting clock (.unstarted call)
  | calling {call : Call} (safe : call.Safe setting clock) : Peaceful setting clock (.calling call)
  | sequence {index : Nat} {elements : List Part} (each : ∀ p ∈ elements, Peaceful setting clock p) :
    Peaceful setting clock (.sequence index elements)
  | block {branches : List Part} (apart : branches.Pairwise Independent)
    (each : ∀ b ∈ branches, Peaceful setting clock b) : Peaceful setting clock (.block branches [])

/-- A turn after which the actions that are left lead to where those before it would have led. -/
structure Performs (setting : Setting) (part : Part) (place : Position) (w w' : World)
    (progress : Progress) : Prop where
  live : w'.cancelled = false
  fine : ∀ failure, progress ≠ .ended (.error failure)
  ledger : performAll setting.output w'.ledger (progress.rest.actions place) =
    performAll setting.output w.ledger (part.actions place)
  peaceful : progress.rest.Peaceful setting w.clock
  narrows : progress.rest.Narrows part

variable {setting : Setting} {part : Part} {place : Position} {w mid w' : World}
  {progress : Progress}

theorem Performs.well {outcome : Outcome}
    (done : Performs setting part place w w' (.ended outcome)) : outcome = .ok () := by
  cases outcome with
  | ok => rfl
  | error failure => exact absurd rfl (done.fine failure)

theorem Performs.idle (live : w.cancelled = false) (none : part.actions place = []) :
    Performs setting part place w w (.ended (.ok ())) := by
  refine ⟨live, nofun, ?_, .ended, narrows_ended part⟩
  rw [none]
  rfl

theorem Performs.rest (task : Task) (live : w.cancelled = false)
    (peaceful : task.part.Peaceful setting w.clock) :
    Performs setting task.part place w w (.waiting task) :=
  ⟨live, nofun, rfl, peaceful, .refl _⟩

theorem Performs.of_fares {call : Call} {output : String} {state : Call ⊕ Outcome}
    (fares : call.Fares setting mid output w' state) (clock : mid.clock = w.clock)
    (ledger : performAll setting.output w.ledger (part.actions place) =
      mid.ledger.write call.result output)
    (access : ∃ a ∈ part.accesses, Access.Narrows ⟨[], call.result⟩ a) :
    Performs setting part place w w' (.ofCall state) := by
  rcases fares.lands with ⟨rfl, wrote⟩ | ⟨next, rfl, same, result, given, safe⟩
  · exact ⟨fares.live, nofun, wrote.trans ledger.symm, .ended, narrows_ended part⟩
  · refine ⟨fares.live, nofun, ?_, .calling (clock ▸ safe), ?_⟩
    · rw [ledger, ← result, ← given, ← same]
      rfl
    · intro a mem
      cases List.mem_singleton.1 mem
      rwa [result]

theorem start_performs {call : Invocation} {state : Call ⊕ Outcome} (serves : setting.Serves call)
    (live : w.cancelled = false) (started : Call.start setting place call w = (w', state)) :
    Performs setting (.unstarted call) place w w' (.ofCall state) := by
  obtain ⟨work, known, steady⟩ := serves.steady
  rcases Call.start_cases setting place call w with ⟨unknown, -⟩ | ⟨work', mid, reply, found, went, eq⟩
  · cases unknown.symm.trans known
  · cases known.symm.trans found
    rw [steady] at went
    have asked : (Call.taken setting place call w).ledger =
        ⟨w.store, ⟨place, call.name, w.inputs call⟩ ::ₘ ↑w.trace.requests⟩ := by
      have requests : (Call.sent setting place call w).trace.requests =
          w.trace.requests ++ [⟨place, call.name, w.inputs call⟩] := by
        rw [Trace.requests, Call.trace_sent, List.filterMap_append]
        rfl
      refine congrArg (Ledger.mk w.store) ?_
      refine (congrArg Multiset.ofList requests).trans ?_
      rw [← Multiset.coe_add, add_comm]
      rfl
    obtain ⟨output, answers⟩ := serves.answers (w.inputs call)
    have given : setting.output call.name (w.inputs call) = output := congrArg Answer.output answers
    have thrives : Call.Thrives setting (Call.taken setting place call w)
        (Call.fresh setting place call w) (setting.host.script call.name (w.inputs call)) output := by
      refine ⟨live, serves.quiet _, answers, fun due granted => ?_⟩
      unfold Call.grant at granted
      cases enforces : setting.host.enforcesTimeouts with
      | false => simp [Call.fresh, enforces] at granted
      | true =>
        have within := serves.inTime enforces (w.inputs call)
        simp only [Call.fresh, enforces, if_true, Option.some.injEq] at granted
        rw [← granted]
        exact Nat.add_le_add_left within _
    refine .of_fares (thrives.fares went (eq.symm.trans started)) rfl ?_
      ⟨call.access, List.mem_singleton_self _, List.nil_subset _, rfl⟩
    rw [asked, ← given]
    rfl

theorem resume_performs {call : Call} {state : Call ⊕ Outcome} (safe : call.Safe setting w.clock)
    (live : w.cancelled = false) (resumed : call.resume setting w = (w', state)) :
    Performs setting (.calling call) place w w' (.ofCall state) :=
  .of_fares (safe.fares live resumed) rfl rfl
    ⟨_, List.mem_singleton_self _, List.Subset.refl _, rfl⟩

theorem Peaceful.elements {index : Nat} {parts : List Part} {clock : Nat}
    (peaceful : (Part.sequence index parts).Peaceful setting clock) :
    ∀ p ∈ parts, p.Peaceful setting clock := by
  cases peaceful with
  | sequence each => exact each

theorem performAll_sequence {outputs : String → List String → String} (l : Ledger) (index : Nat)
    (current : Part) (rest : List Part) (place : Position) :
    performAll outputs l ((sequence index (current :: rest)).actions place) =
      performAll outputs (performAll outputs l (current.actions (place ++ [index])))
        ((sequence (index + 1) rest).actions place) := by
  rw [actions, actionsFrom, Action.performAll_append]
  rfl

theorem Performs.sequence {index : Nat} {current : Part} {rest : List Part} {task : Task}
    {elements : List Statement} (eq : rest = Statement.parts elements)
    (first : Performs setting current (place ++ [index]) w w' (.waiting task))
    (each : ∀ p ∈ rest, p.Peaceful setting w.clock) :
    Performs setting (.sequence index (current :: rest)) place w w'
      (.waiting (.sequence task index elements)) := by
  subst eq
  refine ⟨first.live, nofun, ?_, .sequence (List.forall_mem_cons.2 ⟨first.peaceful, each⟩), ?_⟩
  · have ledger := first.ledger
    rw [Progress.rest] at ledger
    rw [Progress.rest, Task.part, performAll_sequence, performAll_sequence, ledger]
  · intro a mem
    rcases List.mem_append.1 mem with here | later
    · obtain ⟨b, mem, narrow⟩ := first.narrows a here
      exact ⟨b, List.mem_append_left _ mem, narrow⟩
    · exact ⟨a, List.mem_append_right _ later, List.Subset.refl _, rfl⟩

theorem Performs.branch {before after : List Part} {branch : Part}
    (apart : (before ++ branch :: after).Pairwise Independent)
    (first : Performs setting branch (place ++ [before.length]) w mid progress)
    {later : Progress} (clock : mid.clock = w.clock)
    (others : Performs setting (.block (before ++ progress.rest :: after) []) place mid w' later) :
    Performs setting (.block (before ++ branch :: after) []) place w w' later := by
  refine ⟨others.live, others.fine, ?_, clock ▸ others.peaceful,
    others.narrows.trans first.narrows.replace⟩
  rw [others.ledger, performAll_block apart, performAll_block (pairwise_replace apart first.narrows),
    first.ledger]

theorem Peaceful.replace {before after : List Part} {branch : Part}
    (apart : (before ++ branch :: after).Pairwise Independent)
    (each : ∀ b ∈ before ++ branch :: after, b.Peaceful setting w.clock)
    (turn : Performs setting branch place w mid progress) :
    (Part.block (before ++ progress.rest :: after) []).Peaceful setting w.clock := by
  refine .block (pairwise_replace apart turn.narrows) fun b mem => ?_
  rcases List.mem_append.1 mem with left | right
  · exact each b (List.mem_append_left _ left)
  · rcases List.mem_cons.1 right with rfl | right
    · exact turn.peaceful
    · exact each b (List.mem_append_right _ (List.mem_cons_of_mem _ right))

-- The part is peaceful at every turn of a branch: the branch goes on within what it was allowed to
-- touch. As it does not disturb the branches before it, its actions can as well be done first.
theorem Proceeds.performs (h : Proceeds setting part place w w' progress)
    (peaceful : part.Peaceful setting w.clock) (live : w.cancelled = false) :
    Performs setting part place w w' progress := by
  induction h with
  | ended => exact .idle live rfl
  | skip late => exact absurd late (Bool.eq_false_iff.1 live)
  | start _ started =>
    cases peaceful with | unstarted serves
    exact start_performs serves live started
  | resume resumed =>
    cases peaceful with | calling safe
    exact resume_performs safe live resumed
  | finished => exact .idle live rfl
  | wait first ih =>
    obtain ⟨head, tail⟩ := List.forall_mem_cons.1 peaceful.elements
    exact .sequence rfl (ih head live) tail
  | @next index current rest place w mid w' progress first others ih later =>
    obtain ⟨head, tail⟩ := List.forall_mem_cons.1 peaceful.elements
    have clock := first.clock
    have done := ih head live
    have goes := later (.sequence (clock ▸ tail)) done.live
    refine ⟨goes.live, goes.fine, ?_, clock ▸ goes.peaceful, goes.narrows.trans ?_⟩
    · rw [goes.ledger, performAll_sequence, ← done.ledger]
      rfl
    · intro a mem
      exact ⟨a, List.mem_append_right _ mem, List.Subset.refl _, rfl⟩
  | stop _ ih =>
    obtain ⟨head, -⟩ := List.forall_mem_cons.1 peaceful.elements
    exact absurd rfl ((ih head live).fine _)
  | @rest tasks queue handedBack place w begun =>
    unfold Progress.ofBranches
    split
    · next all => exact .idle live (actionsFrom_ended (Task.parts_ended all) place 0)
    · exact .rest (.block tasks queue handedBack) live peaceful
  | branchWaits first others ih later =>
    cases peaceful with | block apart each
    have turn := ih (each _ (by simp)) live
    have replaced := Peaceful.replace apart each turn
    rw [← first.clock] at replaced
    exact turn.branch apart first.clock (later replaced turn.live)
  | branchOk first others ih later =>
    cases peaceful with | block apart each
    have turn := ih (each _ (by simp)) live
    have replaced := Peaceful.replace apart each turn
    rw [← first.clock] at replaced
    exact turn.branch apart first.clock (later replaced turn.live)
  | branchFails _ _ ih =>
    cases peaceful with | block apart each
    exact absurd rfl ((ih (each _ (by simp)) live).fine _)

end Part

/-- Time that moves no further than to the next timer of a call leaves it safe. -/
theorem Call.Safe.pass {setting : Setting} {call : Call} {clock instant : Nat}
    (safe : call.Safe setting clock) (early : instant ≤ call.nextInstant) :
    call.Safe setting instant := by
  refine ⟨safe.quiet, safe.answers, fun timer expiry => ?_, safe.granted⟩
  have within := safe.inTime timer expiry
  unfold nextInstant at early
  rw [expiry] at early
  simp only at early
  omega

theorem Part.Peaceful.pass {setting : Setting} {part : Part} {clock instant : Nat}
    (peaceful : part.Peaceful setting clock)
    (early : ∀ call ∈ part.calls, instant ≤ call.nextInstant) : part.Peaceful setting instant := by
  induction peaceful with
  | ended => exact .ended
  | unstarted serves => exact .unstarted serves
  | calling safe => exact .calling (safe.pass (early _ (Multiset.mem_singleton_self _)))
  | sequence each ih =>
    exact .sequence fun p mem => ih p mem fun call within =>
      early call (mem_callsAll.2 ⟨p, mem, within⟩)
  | block apart each ih =>
    exact .block apart fun p mem => ih p mem fun call within =>
      early call (mem_callsAll.2 ⟨p, mem, within⟩)

namespace Machine

variable {setting : Setting}

theorem finish_performs (w : World) {task : Task} (paused : task.Paused fun _ => True)
    (peaceful : task.part.Peaceful setting w.clock) (live : w.cancelled = false) :
    (finish setting none w task).2 = .ok () ∧
      (finish setting none w task).1.ledger =
        performAll setting.output w.ledger (task.part.actions []) := by
  fun_induction finish setting none w task with
  | case1 w task last outcome step =>
    rcases next_of_paused setting none w paused with ⟨-, again⟩ |
      ⟨instant, rests, -, first, ⟨_, never, -⟩ | ⟨-, goes⟩⟩
    · have turn := Task.poll_proceeds paused.poised (ofProgress_ended (again.symm.trans step))
      have done := turn.performs peaceful live
      exact ⟨done.well, done.ledger⟩
    · cases never
    · have turn := rests.proceeds (ofProgress_ended (goes.symm.trans step))
      have done := turn.performs (peaceful.pass first.least) live
      exact ⟨done.well, done.ledger⟩
  | case2 w task mid later step ih =>
    rcases next_of_paused setting none w paused with ⟨-, again⟩ |
      ⟨instant, rests, -, first, ⟨_, never, -⟩ | ⟨-, goes⟩⟩
    · have polled := ofProgress_waiting (again.symm.trans step)
      have turn := Task.poll_proceeds paused.poised polled
      have done := turn.performs peaceful live
      obtain ⟨well, ledger⟩ :=
        ih (Task.poll_paused paused.poised polled) (turn.clock ▸ done.peaceful) done.live
      exact ⟨well, ledger.trans done.ledger⟩
    · cases never
    · have polled := ofProgress_waiting (goes.symm.trans step)
      have turn := rests.proceeds polled
      have done := turn.performs (peaceful.pass first.least) live
      have clock := turn.clock
      obtain ⟨well, ledger⟩ := ih (rests.poll_paused polled) (clock ▸ done.peaceful) done.live
      exact ⟨well, ledger.trans done.ledger⟩

theorem run_performs (root : Statement) (w : World)
    (peaceful : root.part.Peaceful setting w.clock) (live : w.cancelled = false) :
    (run setting none root w).2 = .ok () ∧
      (run setting none root w).1.ledger =
        performAll setting.output w.ledger (root.part.actions []) :=
  finish_performs w (Task.paused_fresh _ root) peaceful live

end Machine

end FlowTree
