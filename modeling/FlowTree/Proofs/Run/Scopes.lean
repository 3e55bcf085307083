import FlowTree.Proofs.Run.Timers

/-! One turn of a part, with its scope. There is one rule for each thing that can happen to a part, and it
looks at the scope when it happens: a scope is cancelled by a block around it that has failed, or with the
caller's token, which a call may also cancel while it runs. A cancelled scope wakes the calls that wait in
it, and a block does not rest as long as a call is woken. That nothing waits in a cancelled scope is no
rule, but follows from these. -/

set_option autoImplicit false

namespace FlowTree

open FlowTree.Part (Begun Unwinds Proceeds)

def World.scopeCancelled (w : World) (shut : Bool) : Bool := shut || w.cancelled

namespace Call

/-- What a reply makes of a call. A failure is a failure in any scope; an output counts, and the call may
wait, only in a live one. -/
inductive Takes (call : Call) (w : World) : Bool → Reply → World → Call ⊕ Outcome → Prop where
  | failed {cancelled : Bool} (error : CallError) :
    Takes call w cancelled (.answered (.error error)) (call.fail w error).1
      (.inr (.error (.invocation call.name error)))
  | expired {cancelled : Bool} :
    Takes call w cancelled .expired (call.fail w (.timeout call.timeout)).1
      (.inr (.error (.invocation call.name (.timeout call.timeout))))
  | completed (output : String) :
    Takes call w false (.answered (.ok output)) (call.complete w output) (.inr (.ok ()))
  | waits (next : Call) : Takes call w false (.asleep next) w (.inl next)
  | dropped (output : String) :
    Takes call w true (.answered (.ok output)) (call.drop w false).1
      (.inr (.error .cancelled))
  | abandoned (next : Call) :
    Takes call w true (.asleep next) (call.drop w true).1
      (.inr (.error .cancelled))

def Armed (setting : Setting) (call : Call) : Prop :=
  call.expiry.isSome = setting.host.enforcesTimeouts

variable {setting : Setting} {call next : Call} {w w' : World} {reply : Reply} {state : Call ⊕ Outcome}

theorem dropReply_takes {failure : Failure} (dropped : call.dropReply w reply = (w', failure)) :
    call.Takes w true reply w' (.inr (.error failure)) := by
  cases reply with
  | answered answer =>
    cases answer with
    | error error =>
      cases dropped
      exact .failed error
    | ok output =>
      cases dropped
      exact .dropped output
  | expired =>
    cases dropped
    exact .expired
  | asleep next =>
    cases dropped
    exact .abandoned next

theorem Takes.drops (takes : call.Takes w true reply w' state) :
    ∃ failure, call.dropReply w reply = (w', failure) ∧ state = .inr (.error failure) := by
  cases takes <;> exact ⟨_, rfl, rfl⟩

/-- In a scope that only the caller's token can cancel, a call is taken by the state of that token. -/
theorem takeReply_takes (taken : call.takeReply w reply = (w', state)) :
    call.Takes w w.cancelled reply w' state := by
  unfold takeReply at taken
  split at taken
  · next late =>
    rcases dropped : call.dropReply w reply with ⟨last, failure⟩
    rw [dropped] at taken
    cases taken
    rw [late]
    exact dropReply_takes dropped
  · next live =>
    rw [Bool.not_eq_true] at live
    rw [live]
    split at taken
    · cases taken
      exact .completed _
    · cases taken
      exact .failed _
    · cases taken
      exact .expired
    · cases taken
      exact .waits _

/-- A reply that is taken in a cancelled scope ends the call as it unwinds. -/
theorem Takes.unwound {mid : World} (takes : call.Takes mid true reply w' state)
    (polled : call.poll setting w = (mid, reply)) :
    ∃ failure, call.unwind setting w = (w', failure) ∧ state = .inr (.error failure) := by
  obtain ⟨failure, dropped, rfl⟩ := takes.drops
  refine ⟨failure, ?_, rfl⟩
  rw [unwind, polled]
  exact dropped

theorem Takes.asleep {cancelled : Bool} {task : Task} (takes : call.Takes w cancelled reply w' state)
    (waits : Progress.ofCall state = .waiting task) :
    ∃ next, reply = .asleep next ∧ task = .calling next := by
  cases takes <;> cases waits
  exact ⟨_, rfl, rfl⟩

/-- Only a script cancels the caller's token, and not the way its call ends. -/
theorem Takes.token {cancelled : Bool} (takes : call.Takes w cancelled reply w' state) :
    w'.cancelled = w.cancelled := by
  cases takes with
  | completed output => exact w.cancelled_write call.result output
  | failed | expired | waits | dropped | abandoned => rfl

theorem Takes.fails_of_late {cancelled : Bool} (takes : call.Takes w cancelled reply w' state)
    (late : cancelled = true) : ∃ failure, state = .inr (.error failure) := by
  cases takes with
  | failed | expired | dropped | abandoned => exact ⟨_, rfl⟩
  | completed | waits => cases late

theorem grant_isSome (setting : Setting) (w : World) (call : Call) :
    (grant setting w call).isSome = (call.expiry.isSome || setting.host.enforcesTimeouts) := by
  unfold grant
  cases call.expiry with
  | none => cases setting.host.enforcesTimeouts <;> rfl
  | some timer => rfl

theorem Shows.armed {steps : Script} (shown : Shows setting w call steps (.asleep next))
    (set : call.expiry.isSome = true → setting.host.enforcesTimeouts = true) : next.Armed setting := by
  cases shown with
  | asleep same sleeps wakes granted early =>
    rw [Armed, ← Option.isSome_map, granted, grant_isSome]
    cases expires : call.expiry.isSome with
    | true => exact (set expires).symm
    | false => rfl

theorem start_armed {place : Position} {invocation : Invocation}
    (started : start setting place invocation w = (w', .inl next)) : next.Armed setting := by
  rcases start_cases setting place invocation w with ⟨-, eq⟩ | ⟨work, mid, reply, -, goes, eq⟩
  · cases takeReply_inl (eq.symm.trans started)
  · obtain rfl := takeReply_inl (eq.symm.trans started)
    have shown := advance_shows setting (taken setting place invocation w)
      (fresh setting place invocation w)
      (work.script (w.called.count invocation.name) (w.inputs invocation))
    rw [goes] at shown
    exact shown.armed nofun

theorem poll_armed (armed : call.Armed setting) (polled : call.poll setting w = (w', .asleep next)) :
    next.Armed setting := by
  unfold poll at polled
  split at polled
  · have shown := advance_shows setting w call call.rest
    rw [polled] at shown
    exact shown.armed fun expires => armed.symm.trans expires
  · obtain rfl := await_asleep (Prod.mk.inj polled).2
    exact armed

end Call

theorem FailureMode.settle_eq_ok (mode : FailureMode) (failures : List Failure) :
    mode.settle failures = .ok () ↔ failures = [] := by
  cases failures with
  | nil => exact iff_of_true rfl rfl
  | cons first later => cases mode <;> exact iff_of_false nofun nofun

namespace Part

/-- A scope inside a block is shut with the scopes around it, or by a failure of the block. -/
def shutBelow (shut : Bool) (failures : List Failure) : Bool := shut || !failures.isEmpty

/-- The scope of a part is cancelled, or the scope that the part gives its branches. -/
def Late (shut : Bool) (part : Part) (w : World) : Prop :=
  w.scopeCancelled (shutBelow shut part.observed) = true

inductive Woken (w : World) : Bool → Part → Prop where
  | calling {shut : Bool} {call : Call} (late : w.scopeCancelled shut = true) :
    Woken w shut (.calling call)
  | sequence {shut : Bool} {index : Nat} {current : Part} {rest : List Part}
    (first : Woken w shut current) : Woken w shut (.sequence index (current :: rest))
  | block {shut : Bool} {branches : List Part} {branch : Part} {failures : List Failure}
    (mem : branch ∈ branches) (inner : Woken w (shutBelow shut failures) branch) :
    Woken w shut (.block branches failures)

-- How a part goes on, in a scope that a block around it may have shut, until it waits or ends. The
-- branches of a block take their turns in any order.
inductive Goes (setting : Setting) : Bool → Part → Position → World → World → Progress → Prop where
  | ended {shut : Bool} {place : Position} {w : World} :
    Goes setting shut .ended place w w (.ended (.ok ()))
  | skip {shut : Bool} {invocation : Invocation} {place : Position} {w : World}
    (late : w.scopeCancelled shut = true) :
    Goes setting shut (.unstarted invocation) place w (w.skip place invocation.name)
      (.ended (.error .cancelled))
  | start {shut : Bool} {invocation : Invocation} {place : Position} {w w' : World}
    {state : Call ⊕ Outcome} (live : w.scopeCancelled shut = false)
    (started : Call.start setting place invocation w = (w', state)) :
    Goes setting shut (.unstarted invocation) place w w' (.ofCall state)
  -- The scope counts as it is after the call has gone on.
  | call {shut : Bool} {call : Call} {place : Position} {w mid w' : World} {reply : Call.Reply}
    {state : Call ⊕ Outcome} (polled : call.poll setting w = (mid, reply))
    (takes : call.Takes mid (mid.scopeCancelled shut) reply w' state) :
    Goes setting shut (.calling call) place w w' (.ofCall state)
  | finished {shut : Bool} {index : Nat} {place : Position} {w : World} :
    Goes setting shut (.sequence index []) place w w (.ended (.ok ()))
  | wait {shut : Bool} {index : Nat} {current : Part} {rest : List Statement} {place : Position}
    {w w' : World} {task : Task}
    (first : Goes setting shut current (place ++ [index]) w w' (.waiting task)) :
    Goes setting shut (.sequence index (current :: Statement.parts rest)) place w w'
      (.waiting (.sequence task index rest))
  | next {shut : Bool} {index : Nat} {current : Part} {rest : List Statement} {place : Position}
    {w mid w' : World} {progress : Progress}
    (first : Goes setting shut current (place ++ [index]) w mid (.ended (.ok ())))
    (others : Goes setting shut (.sequence (index + 1) (Statement.parts rest)) place mid w' progress) :
    Goes setting shut (.sequence index (current :: Statement.parts rest)) place w w' progress
  | stop {shut : Bool} {index : Nat} {current : Part} {rest : List Statement} {place : Position}
    {w w' : World} {failure : Failure}
    (first : Goes setting shut current (place ++ [index]) w w' (.ended (.error failure))) :
    Goes setting shut (.sequence index (current :: Statement.parts rest)) place w w'
      (.ended (.error failure))
  | rest {shut : Bool} {tasks : List Task} {queue : List Nat} {handedBack : Bool} {place : Position}
    {w : World} (begun : tasks.all Task.hasEnded = false → Begun (.block (Task.parts tasks) []))
    (asleep : ¬ Woken w shut (.block (Task.parts tasks) [])) :
    Goes setting shut (.block (Task.parts tasks) []) place w w (.ofBranches tasks queue handedBack)
  | drained {shut : Bool} {branches : List Part} {failures : List Failure} {place : Position}
    {w : World} (all : ∀ b ∈ branches, b = .ended) :
    Goes setting shut (.block branches failures) place w w (.ended (setting.mode.settle failures))
  | branchWaits {shut : Bool} {before after : List Part} {branch : Part} {failures : List Failure}
    {place : Position} {w mid w' : World} {progress : Progress} {task : Task}
    (first : Goes setting (shutBelow shut failures) branch (place ++ [before.length]) w mid
      (.waiting task))
    (others : Goes setting shut (.block (before ++ task.part :: after) failures) place mid w' progress) :
    Goes setting shut (.block (before ++ branch :: after) failures) place w w' progress
  | branchOk {shut : Bool} {before after : List Part} {branch : Part} {failures : List Failure}
    {place : Position} {w mid w' : World} {progress : Progress}
    (first : Goes setting (shutBelow shut failures) branch (place ++ [before.length]) w mid
      (.ended (.ok ())))
    (others : Goes setting shut (.block (before ++ .ended :: after) failures) place mid w' progress) :
    Goes setting shut (.block (before ++ branch :: after) failures) place w w' progress
  | branchFails {shut : Bool} {before after : List Part} {branch : Part} {failures : List Failure}
    {place : Position} {w mid w' : World} {progress : Progress} {failure : Failure} {remaining : Nat}
    (first : Goes setting (shutBelow shut failures) branch (place ++ [before.length]) w mid
      (.ended (.error failure)))
    (others : Goes setting shut (.block (before ++ .ended :: after) (failures ++ [failure])) place
      (observe setting.mode place failures remaining failure mid) w' progress) :
    Goes setting shut (.block (before ++ branch :: after) failures) place w w' progress

/-- The parts that come up in runs: only the block at hand has observed failures, and what is left of a
sequence is one part and the statements after it. -/
inductive Shaped (setting : Setting) : Part → Prop where
  | ended : Shaped setting .ended
  | unstarted (invocation : Invocation) : Shaped setting (.unstarted invocation)
  | calling {call : Call} (armed : call.Armed setting) : Shaped setting (.calling call)
  | finished (index : Nat) : Shaped setting (.sequence index [])
  | sequence {index : Nat} {current : Part} {rest : List Statement} (first : Shaped setting current)
    (fresh : current.observed = []) :
    Shaped setting (.sequence index (current :: Statement.parts rest))
  | block {branches : List Part} {failures : List Failure} (each : ∀ b ∈ branches, Shaped setting b)
    (fresh : ∀ b ∈ branches, b.observed = []) : Shaped setting (.block branches failures)

section Scope

variable {setting : Setting} {shut : Bool} {part : Part} {place : Position} {w w' : World}

theorem shutBelow_nil (shut : Bool) : shutBelow shut [] = shut := Bool.or_false shut

theorem shutBelow_concat (shut : Bool) (failures : List Failure) (failure : Failure) :
    shutBelow shut (failures ++ [failure]) = true := by
  simp [shutBelow]

theorem late_iff (fresh : part.observed = []) : part.Late shut w ↔ w.scopeCancelled shut = true := by
  rw [Late, fresh, shutBelow_nil]

theorem late_of_token (token : w.cancelled = true) : part.Late shut w := by
  rw [Late, World.scopeCancelled, token, Bool.or_true]

theorem still_live {later : Part} (live : ¬ part.Late shut w) (same : later.observed = part.observed)
    (token : ¬ w'.cancelled = true) : ¬ later.Late shut w' := by
  simp only [Late, World.scopeCancelled, same, Bool.or_eq_true, not_or] at live ⊢
  exact ⟨live.1, token⟩

theorem not_late (fresh : part.observed = []) (live : w.cancelled = false) : ¬ part.Late false w := by
  rw [late_iff fresh, World.scopeCancelled, Bool.false_or, live]
  exact Bool.false_ne_true

theorem late_current {current : Part} (fresh : current.observed = []) (index : Nat) (rest : List Part) :
    (sequence index (current :: rest)).Late shut w ↔ current.Late shut w :=
  (late_iff rfl).trans (late_iff fresh).symm

theorem late_branch {branch : Part} (fresh : branch.observed = []) (branches : List Part)
    (failures : List Failure) :
    (block branches failures).Late shut w ↔ branch.Late (shutBelow shut failures) w :=
  (late_iff fresh).symm

theorem late_concat (branches : List Part) (failures : List Failure) (failure : Failure) :
    (block branches (failures ++ [failure])).Late shut w := by
  rw [Late, observed, shutBelow_concat]
  rfl

theorem scopeLate_of_late (token : w.cancelled = true → w'.cancelled = true)
    (late : w.scopeCancelled shut = true) : w'.scopeCancelled shut = true := by
  unfold World.scopeCancelled at late ⊢
  rcases Bool.or_eq_true_iff.1 late with closed | cancelled
  · rw [closed, Bool.true_or]
  · rw [token cancelled, Bool.or_true]

theorem scopeLate_of_poll {call : Call} {reply : Call.Reply} (polled : call.poll setting w = (w', reply))
    (late : w.scopeCancelled shut = true) : w'.scopeCancelled shut = true := by
  have stirs := Call.poll_stirs setting call w
  rw [polled] at stirs
  exact scopeLate_of_late stirs.late late

theorem Unwinds.scopeLate {outcome : Outcome} (h : Unwinds setting part place w w' outcome)
    (late : w.scopeCancelled shut = true) : w'.scopeCancelled shut = true :=
  scopeLate_of_late h.late late

theorem Unwinds.fails_of_observed {outcome : Outcome}
    (h : Unwinds setting part place w w' outcome) (failed : part.observed ≠ []) :
    ∃ failure, outcome = .error failure := by
  cases outcome with
  | error failure => exact ⟨failure, rfl⟩
  | ok =>
    refine absurd ?_ failed
    cases part with
    | block branches failures =>
      obtain ⟨later, settled⟩ := h.settles _ _ rfl
      exact (List.append_eq_nil_iff.1 ((setting.mode.settle_eq_ok _).1 settled.symm)).1
    | _ => rfl

theorem Begun.woken (begun : Begun part) (late : w.scopeCancelled shut = true) : Woken w shut part := by
  induction begun generalizing shut with
  | calling call => exact .calling late
  | sequence _ ih => exact .sequence (ih late)
  | @block _ failures _ mem _ ih =>
    refine .block mem (ih ?_)
    rw [World.scopeCancelled, shutBelow, Bool.or_right_comm]
    exact Bool.or_eq_true_iff.2 (.inl late)

theorem Shaped.asleep (shaped : part.Shaped setting) (fresh : part.observed = [])
    (live : w.scopeCancelled shut = false) : ¬ Woken w shut part := by
  induction shaped with
  | ended | unstarted | finished => nofun
  | calling =>
    rintro ⟨late⟩
    cases live.symm.trans late
  | sequence _ inner ih =>
    rintro (_ | first)
    exact ih inner first
  | block _ inner ih =>
    cases fresh
    rintro (_ | _ | ⟨mem, woken⟩)
    rw [shutBelow_nil] at woken
    exact ih _ mem (inner _ mem) woken

end Scope

end Part

namespace Statement

variable {setting : Setting}

theorem shaped_block {branches : List Statement} (each : ∀ s ∈ branches, s.part.Shaped setting) :
    (Part.block (Statement.parts branches) []).Shaped setting := by
  rw [parts_eq_map]
  refine .block (fun b mem => ?_) fun b mem => ?_
  · obtain ⟨s, found, rfl⟩ := List.mem_map.1 mem
    exact each s found
  · obtain ⟨s, -, rfl⟩ := List.mem_map.1 mem
    exact s.part_observed

theorem shaped_sequence {elements : List Statement} (each : ∀ s ∈ elements, s.part.Shaped setting)
    (index : Nat) : (Part.sequence index (Statement.parts elements)).Shaped setting := by
  cases elements with
  | nil => exact .finished index
  | cons s rest => exact .sequence (each s List.mem_cons_self) s.part_observed

theorem shaped (setting : Setting) (s : Statement) : s.part.Shaped setting := by
  induction s with
  | noop => exact .ended
  | invocation call => exact .unstarted call
  | sequence elements ih => exact shaped_sequence ih 0
  | parallel branches ih => exact shaped_block ih

end Statement

namespace Part

variable {setting : Setting} {shut : Bool} {part : Part} {place : Position} {w w' : World}
  {progress : Progress} {outcome : Outcome}

theorem Shaped.rest (setting : Setting) (index : Nat) (rest : List Statement) :
    (Part.sequence index (Statement.parts rest)).Shaped setting :=
  Statement.shaped_sequence (fun s _ => s.shaped setting) index

theorem Shaped.current {index : Nat} {current : Part} {rest : List Part}
    (shaped : (Part.sequence index (current :: rest)).Shaped setting) :
    current.Shaped setting ∧ current.observed = [] := by
  cases shaped with
  | sequence first fresh => exact ⟨first, fresh⟩

theorem Shaped.branch {before after : List Part} {branch : Part} {failures : List Failure}
    (shaped : (Part.block (before ++ branch :: after) failures).Shaped setting) :
    branch.Shaped setting ∧ branch.observed = [] := by
  have mem : branch ∈ before ++ branch :: after := List.mem_append_right _ List.mem_cons_self
  cases shaped with
  | block each fresh => exact ⟨each _ mem, fresh _ mem⟩

theorem Shaped.replace {before after : List Part} {branch new : Part} {failures : List Failure}
    (shaped : (Part.block (before ++ branch :: after) failures).Shaped setting)
    (same : new.Shaped setting) (fresh : new.observed = []) (later : List Failure) :
    (Part.block (before ++ new :: after) later).Shaped setting := by
  cases shaped with
  | block each others =>
    have kept (motive : Part → Prop) (all : ∀ b ∈ before ++ branch :: after, motive b)
        (replaced : motive new) : ∀ b ∈ before ++ new :: after, motive b := by
      simp only [List.forall_mem_append, List.forall_mem_cons] at all ⊢
      exact ⟨all.1, replaced, all.2.2⟩
    exact .block (kept _ each same) (kept (·.observed = []) others fresh)

theorem Shaped.ends {before after : List Part} {branch : Part} {failures : List Failure}
    (shaped : (Part.block (before ++ branch :: after) failures).Shaped setting) (later : List Failure) :
    (Part.block (before ++ .ended :: after) later).Shaped setting :=
  shaped.replace .ended rfl later

theorem unwinds_block {branches : List Part}
    (each : ∀ b ∈ branches, ∀ place w, ∃ w' outcome, Unwinds setting b place w w' outcome)
    (fresh : ∀ b ∈ branches, b.observed = []) {before : List Part} (all : ∀ b ∈ before, b = .ended)
    (failures : List Failure) (place : Position) (w : World) :
    ∃ w' outcome, Unwinds setting (.block (before ++ branches) failures) place w w' outcome := by
  induction branches generalizing before failures w with
  | nil => exact ⟨_, _, .drained (by rwa [List.append_nil])⟩
  | cons branch rest ih =>
    have further : ∀ b ∈ before ++ [.ended], b = .ended := by
      rw [List.forall_mem_append, List.forall_mem_singleton]
      exact ⟨all, rfl⟩
    obtain ⟨mid, outcome, first⟩ := each branch List.mem_cons_self (place ++ [before.length]) w
    have later := fun failures w => ih (fun b mem => each b (List.mem_cons_of_mem _ mem))
      (fun b mem => fresh b (List.mem_cons_of_mem _ mem)) further failures w
    simp only [List.append_assoc, List.singleton_append] at later
    cases outcome with
    | ok =>
      obtain ⟨w', outcome, others⟩ := later failures mid
      exact ⟨w', outcome, .branchOk (fresh branch List.mem_cons_self) first others⟩
    | error failure =>
      obtain ⟨w', outcome, others⟩ := later (failures ++ [failure])
        (observe setting.mode place failures rest.length failure mid)
      exact ⟨w', outcome, .branchFails (fresh branch List.mem_cons_self) first others⟩

theorem Shaped.unwinds (shaped : part.Shaped setting) (place : Position) (w : World) :
    ∃ w' outcome, Unwinds setting part place w w' outcome := by
  induction shaped generalizing place w with
  | ended => exact ⟨_, _, .ended⟩
  | unstarted invocation => exact ⟨_, _, .skip⟩
  | calling armed => exact ⟨_, _, .call rfl⟩
  | finished index => exact ⟨_, _, .finished⟩
  | @sequence index current rest first fresh ih =>
    obtain ⟨mid, outcome, unwinds⟩ := ih (place ++ [index]) w
    cases outcome with
    | error failure => exact ⟨mid, _, .stop fresh unwinds⟩
    | ok =>
      rcases skipped : Statement.skipSequence setting.mode rest place (index + 1) mid with ⟨last, outcome⟩
      have others := Statement.skipSequence_unwinds (fun s _ _ _ _ _ => s.skip_unwinds) skipped
      exact ⟨last, outcome, .next fresh unwinds others⟩
  | @block branches failures each fresh ih =>
    have none : ∀ b ∈ ([] : List Part), b = .ended := nofun
    exact unwinds_block ih fresh none failures place w

theorem Unwinds.goes (h : Unwinds setting part place w w' outcome) (late : part.Late shut w) :
    Goes setting shut part place w w' (.ended outcome) := by
  induction h generalizing shut with
  | ended => exact .ended
  | skip => exact .skip ((late_iff rfl).1 late)
  | @call call place w w' failure unwound =>
    rw [Call.unwind] at unwound
    rcases polled : call.poll setting w with ⟨mid, reply⟩
    rw [polled] at unwound
    have scope := scopeLate_of_poll polled ((late_iff rfl).1 late)
    exact .call polled (scope ▸ Call.dropReply_takes unwound)
  | finished => exact .finished
  | next fresh first others ih later =>
    have scope := (late_iff rfl).1 late
    exact .next (ih ((late_iff fresh).2 scope)) (later ((late_iff rfl).2 (first.scopeLate scope)))
  | stop fresh first ih => exact .stop (ih ((late_current fresh _ _).1 late))
  | drained all => exact .drained all
  | branchOk fresh first others ih later =>
    exact .branchOk (ih ((late_branch fresh _ _).1 late)) (later (first.scopeLate late))
  | branchFails fresh first others ih later =>
    exact .branchFails (ih ((late_branch fresh _ _).1 late)) (later (late_concat _ _ _))

theorem Goes.unwinds (h : Goes setting shut part place w w' progress) (shaped : part.Shaped setting)
    (late : part.Late shut w) :
    ∃ outcome, progress = .ended outcome ∧ Unwinds setting part place w w' outcome := by
  induction h with
  | ended => exact ⟨_, rfl, .ended⟩
  | skip _ => exact ⟨_, rfl, .skip⟩
  | start live started => cases live.symm.trans ((late_iff rfl).1 late)
  | call polled takes =>
    rw [scopeLate_of_poll polled ((late_iff rfl).1 late)] at takes
    obtain ⟨failure, unwound, rfl⟩ := takes.unwound polled
    exact ⟨.error failure, rfl, .call unwound⟩
  | finished => exact ⟨_, rfl, .finished⟩
  | wait first ih =>
    obtain ⟨inner, fresh⟩ := shaped.current
    obtain ⟨outcome, ended, -⟩ := ih inner ((late_current fresh _ _).1 late)
    cases ended
  | next first others ih later =>
    obtain ⟨inner, fresh⟩ := shaped.current
    have scope := (late_iff rfl).1 late
    obtain ⟨outcome, ended, unwinds⟩ := ih inner ((late_iff fresh).2 scope)
    cases ended
    obtain ⟨last, rfl, ends⟩ :=
      later (.rest setting _ _) ((late_iff rfl).2 (unwinds.scopeLate scope))
    exact ⟨last, rfl, .next fresh unwinds ends⟩
  | stop first ih =>
    obtain ⟨inner, fresh⟩ := shaped.current
    obtain ⟨outcome, ended, unwinds⟩ := ih inner ((late_current fresh _ _).1 late)
    cases ended
    exact ⟨_, rfl, .stop fresh unwinds⟩
  | @rest shut tasks queue handedBack place w begun asleep =>
    -- A call in flight would be woken, as would be the block.
    have all : tasks.all Task.hasEnded = true := by
      by_contra active
      exact asleep ((begun (Bool.eq_false_iff.2 active)).woken ((shutBelow_nil shut) ▸ late))
    exact ⟨.ok (), if_pos all, .drained (Task.parts_ended all)⟩
  | drained all => exact ⟨_, rfl, .drained all⟩
  | branchWaits first others ih later =>
    obtain ⟨inner, fresh⟩ := shaped.branch
    obtain ⟨outcome, ended, -⟩ := ih inner ((late_branch fresh _ _).1 late)
    cases ended
  | branchOk first others ih later =>
    obtain ⟨inner, fresh⟩ := shaped.branch
    obtain ⟨outcome, ended, unwinds⟩ := ih inner ((late_branch fresh _ _).1 late)
    cases ended
    obtain ⟨last, rfl, drains⟩ := later (shaped.ends _) (unwinds.scopeLate late)
    exact ⟨last, rfl, .branchOk fresh unwinds drains⟩
  | branchFails first others ih later =>
    obtain ⟨inner, fresh⟩ := shaped.branch
    obtain ⟨outcome, ended, unwinds⟩ := ih inner ((late_branch fresh _ _).1 late)
    cases ended
    obtain ⟨last, rfl, drains⟩ := later (shaped.ends _) (late_concat _ _ _)
    exact ⟨last, rfl, .branchFails fresh unwinds drains⟩

theorem Goes.shaped (h : Goes setting shut part place w w' progress) (shaped : part.Shaped setting)
    {task : Task} (waits : progress = .waiting task) : task.part.Shaped setting := by
  induction h generalizing task with
  | ended | skip | finished | drained | stop => cases waits
  | start live started =>
    unfold Progress.ofCall at waits
    split at waits <;> cases waits
    exact .calling (Call.start_armed started)
  | call polled takes =>
    cases shaped with
    | calling armed =>
      obtain ⟨next, rfl, rfl⟩ := takes.asleep waits
      exact .calling (Call.poll_armed armed polled)
  | @wait shut index current rest place w w' task first ih =>
    cases waits
    exact .sequence (ih shaped.current.1 rfl) task.part_observed
  | next first others ih later => exact later (.rest setting _ _) waits
  | rest begun asleep =>
    obtain ⟨rfl, -⟩ := Task.ofBranches_waiting waits
    exact shaped
  | @branchWaits _ _ _ _ failures _ _ _ _ _ left first others ih later =>
    exact later (shaped.replace (ih shaped.branch.1 rfl) left.part_observed failures) waits
  | branchOk first others ih later => exact later (shaped.ends _) waits
  | branchFails first others ih later => exact later (shaped.ends _) waits

/-- A part in a live scope, of which some call cancels the caller's token, fails in the same turn. -/
theorem Goes.fails (h : Goes setting shut part place w w' progress) (shaped : part.Shaped setting)
    (live : ¬ part.Late shut w) (token : w'.cancelled = true) :
    ∃ failure, progress = .ended (.error failure) := by
  induction h with
  | ended | finished | rest | drained => exact absurd (late_of_token token) live
  | skip late => exact absurd ((late_iff rfl).2 late) live
  | start _ started =>
    obtain ⟨called, mid, -, lands⟩ := Call.start_lands started
    obtain ⟨failure, rfl⟩ := lands.fails_of_late token
    exact ⟨failure, rfl⟩
  | call polled takes =>
    rw [takes.token] at token
    obtain ⟨failure, rfl⟩ := takes.fails_of_late (by rw [World.scopeCancelled, token, Bool.or_true])
    exact ⟨failure, rfl⟩
  | wait first ih =>
    obtain ⟨inner, fresh⟩ := shaped.current
    obtain ⟨failure, fails⟩ := ih inner (live ∘ (late_current fresh _ _).2) token
    cases fails
  | next first others ih later =>
    obtain ⟨inner, fresh⟩ := shaped.current
    refine later (.rest setting _ _) (still_live live rfl fun early => ?_) token
    obtain ⟨failure, fails⟩ := ih inner (live ∘ (late_current fresh _ _).2) early
    cases fails
  | stop first ih => exact ⟨_, rfl⟩
  | @branchWaits _ _ _ _ failures _ _ _ _ _ task first others ih later =>
    obtain ⟨inner, fresh⟩ := shaped.branch
    have left := first.shaped inner rfl
    refine later (shaped.replace left task.part_observed failures)
      (still_live live rfl fun early => ?_) token
    obtain ⟨failure, fails⟩ := ih inner (live ∘ (late_branch fresh _ _).2) early
    cases fails
  | branchOk first others ih later =>
    obtain ⟨inner, fresh⟩ := shaped.branch
    refine later (shaped.ends _) (still_live live rfl fun early => ?_) token
    obtain ⟨failure, fails⟩ := ih inner (live ∘ (late_branch fresh _ _).2) early
    cases fails
  | branchFails first others ih later =>
    obtain ⟨last, rfl, unwinds⟩ := others.unwinds (shaped.ends _) (late_concat _ _ _)
    obtain ⟨failure, rfl⟩ := unwinds.fails_of_observed (List.append_ne_nil_of_right_ne_nil _ nofun)
    exact ⟨failure, rfl⟩

theorem Goes.stays_live (h : Goes setting false part place w w' progress)
    (shaped : part.Shaped setting) (fresh : part.observed = []) (live : w.cancelled = false)
    (well : ∀ failure, progress ≠ .ended (.error failure)) : w'.cancelled = false := by
  refine Bool.eq_false_iff.2 fun token => ?_
  obtain ⟨failure, fails⟩ := h.fails shaped (not_late fresh live) token
  exact well failure fails

/-- What the rules for live scopes allow is what happens in a scope that is live. -/
theorem Proceeds.goes (h : Proceeds setting part place w w' progress) (shaped : part.Shaped setting)
    (live : w.cancelled = false) : Goes setting false part place w w' progress := by
  induction h with
  | ended => exact .ended
  | skip late => cases live.symm.trans late
  | start free started => exact .start free started
  | @resume call place w w' state resumed =>
    rw [Call.resume] at resumed
    rcases polled : call.poll setting w with ⟨mid, reply⟩
    rw [polled] at resumed
    exact .call polled (Call.takeReply_takes resumed)
  | finished => exact .finished
  | wait first ih => exact .wait (ih shaped.current.1 live)
  | next first others ih later =>
    obtain ⟨inner, fresh⟩ := shaped.current
    have goes := ih inner live
    have still := goes.stays_live inner fresh live fun _ fails => by cases fails
    exact .next goes (later (.rest setting _ _) still)
  | stop first ih => exact .stop (ih shaped.current.1 live)
  | rest begun => exact .rest begun (shaped.asleep rfl live)
  | @branchWaits _ _ _ _ _ _ _ _ task first others ih later =>
    obtain ⟨inner, fresh⟩ := shaped.branch
    have goes := ih inner live
    have left := goes.shaped inner rfl
    have still := goes.stays_live inner fresh live fun _ fails => by cases fails
    exact .branchWaits goes (later (shaped.replace left task.part_observed []) still)
  | branchOk first others ih later =>
    obtain ⟨inner, fresh⟩ := shaped.branch
    have goes := ih inner live
    have still := goes.stays_live inner fresh live fun _ fails => by cases fails
    exact .branchOk goes (later (shaped.ends []) still)
  | branchFails first others ih =>
    have goes := ih shaped.branch.1 live
    exact .branchFails goes (others.goes (late_concat _ [] _))

end Part

end FlowTree
