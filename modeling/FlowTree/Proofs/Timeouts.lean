import FlowTree.Proofs.Run.Limits
import FlowTree.Proofs.Tally
import FlowTree.Registry

/-! Timeouts are exact. A call through a registry gives its script's answer when the script ends within
the time that the call is granted, and times out when that is over, otherwise. In a run it does the
same, counted from its start, as long as its scope is not cancelled: other calls have their own timers,
and time never passes over one. -/

set_option autoImplicit false

namespace FlowTree

/-- The steps of a call of a unit that follows some others. A name that the host does not know is
answered at once. -/
def Host.steps (host : Host) (name : String) (earlier : Nat) (inputs : List String) : Script :=
  match host.find? name with
  | some work => work.script earlier inputs
  | none => [.notRegistered name]

namespace Moment

/-- How a call is to end that goes out at a moment: after how many milliseconds, and with which
answer. -/
def verdict (host : Host) (m : Moment) (name : String) (inputs : List String) (limit : Duration) :
    Nat × Answer :=
  (host.steps name (m.called.count name) inputs).timed (echoText name inputs) limit

/-- How a call ends that is to give an answer at an instant. Only a cancelled scope keeps it from doing
so: its output comes too late then, or it is abandoned before. -/
inductive Concludes (call : CallId) (due : Nat) : Answer → Moment → Prop where
  | completed {result : Option String} {output : String} {m : Moment}
    (happens : m.happening = .completed call.1 call.2 result output) (now : m.clock = due) :
    Concludes call due (.ok output) m
  | failed {error : CallError} {m : Moment} (happens : m.happening = .failed call.1 call.2 error)
    (now : m.clock = due) : Concludes call due (.error error) m
  | late {output : String} {m : Moment} (happens : m.happening = .cancelled call.1 call.2 false)
    (now : m.clock = due) : Concludes call due (.ok output) m
  | abandoned {answer : Answer} {m : Moment} (happens : m.happening = .cancelled call.1 call.2 true)
    (early : m.clock < due) : Concludes call due answer m

def Accords (host : Host) (m e : Moment) (call : CallId) : Prop :=
  ∃ inputs limit, m.happening = .started call.1 call.2 inputs limit ∧
    e.Concludes call (m.clock + (m.verdict host call.2 inputs limit).1)
      (m.verdict host call.2 inputs limit).2

end Moment

namespace Call

/-- A call in flight that went out at a moment and has kept its time since. -/
structure Since (host : Host) (m : Moment) (inputs : List String) (call : Call) : Prop where
  started : m.happening = .started call.place call.name inputs call.timeout
  echo : call.echo = echoText call.name inputs
  onWay : call.OnWay m.clock (host.steps call.name (m.called.count call.name) inputs)

/-- What becomes of a call that keeps its time when it goes on. -/
inductive Arrives (start : Nat) (script : Script) (call : Call) (w : World) :
    World → Call ⊕ Outcome → Prop where
  | waits {next : Call} (same : next.Same call) (onWay : next.OnWay start script) :
    Arrives start script call w w (.inl next)
  | ends {w' : World} {outcome : Outcome} {e : Moment} (grown : w'.moments = w.moments ++ [e])
    (closes : e.happening.closed? = some call.id)
    (concludes : e.Concludes call.id (start + (script.timed call.echo call.timeout).1)
      (script.timed call.echo call.timeout).2) :
    Arrives start script call w w' (.inr outcome)

variable {start : Nat} {script : Script} {call : Call} {w w' : World} {reply : Reply}

theorem Arrives.fails {error : CallError} (outcome : Outcome)
    (due : w.clock = start + (script.timed call.echo call.timeout).1)
    (verdict : (script.timed call.echo call.timeout).2 = .error error) :
    Arrives start script call w (call.fail w error).1 (.inr outcome) := by
  refine .ends (World.moments_emit _ _) rfl ?_
  rw [verdict]
  exact .failed rfl due

theorem dropReply_arrives (keeps : Keeps start script w.clock call reply) {failure : Failure}
    (dropped : call.dropReply w reply = (w', failure)) (outcome : Outcome) :
    Arrives start script call w w' (.inr outcome) := by
  cases keeps with
  | @ended reply answer concludes due verdict =>
    cases reply with
    | answered answer =>
      cases concludes
      cases answer with
      | error error =>
        cases dropped
        exact .fails outcome due verdict
      | ok output =>
        cases dropped
        refine .ends (World.moments_emit _ _) rfl ?_
        rw [verdict]
        exact .late rfl due
    | expired =>
      cases concludes
      cases dropped
      exact .fails outcome due verdict
    | asleep next => cases concludes
  | asleep same onWay early =>
    cases dropped
    exact .ends (World.moments_emit _ _) rfl (.abandoned rfl early)

theorem takeReply_arrives (keeps : Keeps start script w.clock call reply) {state : Call ⊕ Outcome}
    (taken : call.takeReply w reply = (w', state)) : Arrives start script call w w' state := by
  unfold takeReply at taken
  split at taken
  · rcases dropped : call.dropReply w reply with ⟨mid, failure⟩
    rw [dropped] at taken
    cases taken
    exact dropReply_arrives keeps dropped _
  · cases keeps with
    | @ended reply answer concludes due verdict =>
      cases reply with
      | answered answer =>
        cases concludes
        cases answer with
        | error error =>
          cases taken
          exact .fails _ due verdict
        | ok output =>
          cases taken
          refine .ends (call.moments_complete w output) rfl ?_
          rw [verdict]
          exact .completed rfl ((w.clock_write _ _).trans due)
      | expired =>
        cases concludes
        cases taken
        exact .fails _ due verdict
      | asleep next => cases concludes
    | asleep same onWay early =>
      cases taken
      exact .waits same onWay

end Call

def Concluded (host : Host) (moments : List Moment) : Prop :=
  ∀ before e after call, moments = before ++ e :: after → e.happening.closed? = some call →
    ∃ m ∈ before, m.Accords host e call

theorem Concluded.concat {host : Host} {moments : List Moment} (concluded : Concluded host moments)
    {e : Moment}
    (last : ∀ call, e.happening.closed? = some call → ∃ m ∈ moments, m.Accords host e call) :
    Concluded host (moments ++ [e]) := by
  intro before x after call split closes
  rcases split_concat split with ⟨rfl, rfl, -⟩ | ⟨rest, -, inside⟩
  · exact last call closes
  · exact concluded before x rest call inside closes

namespace Flight

/-- All calls keep their time, those in flight and those that have ended. -/
structure Exact (host : Host) (flight : Flight) : Prop where
  inFlight : ∀ call ∈ flight.calls, ∃ m ∈ flight.world.moments, ∃ inputs, call.Since host m inputs
  concluded : Concluded host flight.world.moments

variable {host : Host} {w mid w' : World} {todo left : Multiset Site} {calls others : Multiset Call}

theorem Exact.tell (exact : Exact host ⟨w, todo, calls⟩) (tells : w.Tells mid) :
    Exact host ⟨mid, todo, calls⟩ := by
  cases tells
  exact ⟨exact.inFlight, exact.concluded⟩

theorem Exact.emit (exact : Exact host ⟨w, todo, calls⟩) {happening : Happening}
    (open_ : happening.closed? = none) : Exact host ⟨w.emit happening, left, calls⟩ := by
  have grown := w.moments_emit happening
  constructor
  case inFlight =>
    intro call mem
    obtain ⟨m, here, since⟩ := exact.inFlight call mem
    exact ⟨m, grown ▸ List.mem_append_left _ here, since⟩
  case concluded =>
    rw [grown]
    refine exact.concluded.concat fun call closes => ?_
    cases open_.symm.trans closes

-- One call goes on from the moment at which it went out, and the others are as they were.
theorem Exact.of_call (exact : Exact host ⟨w, todo, calls⟩) (others_le : others ≤ calls)
    (same : mid.moments = w.moments) {call : Call} {m : Moment} {inputs : List String}
    {state : Call ⊕ Outcome} (here : m ∈ w.moments)
    (started : m.happening = .started call.place call.name inputs call.timeout)
    (echo : call.echo = echoText call.name inputs)
    (arrives : call.Arrives m.clock (host.steps call.name (m.called.count call.name) inputs) mid w'
      state) :
    Exact host ⟨w', left, (Progress.ofCall state).calls + others⟩ := by
  cases arrives with
  | @waits next alike onWay =>
    constructor
    case inFlight =>
      intro other mem
      rcases Multiset.mem_add.1 mem with mem | mem
      · obtain rfl := Multiset.mem_singleton.1 mem
        refine ⟨m, same ▸ here, inputs, ?_, ?_, ?_⟩
        · rw [alike.place, alike.name, alike.timeout]
          exact started
        · rw [alike.echo, alike.name]
          exact echo
        · rw [alike.name]
          exact onWay
      · obtain ⟨m, here, since⟩ := exact.inFlight other (Multiset.mem_of_le others_le mem)
        exact ⟨m, same ▸ here, since⟩
    case concluded =>
      rw [same]
      exact exact.concluded
  | @ends _ outcome e grown closes concludes =>
    rw [same] at grown
    constructor
    case inFlight =>
      intro other mem
      rcases Multiset.mem_add.1 mem with mem | mem
      · exact absurd mem (Multiset.notMem_zero other)
      · obtain ⟨m, here, since⟩ := exact.inFlight other (Multiset.mem_of_le others_le mem)
        exact ⟨m, grown ▸ List.mem_append_left _ here, since⟩
    case concluded =>
      rw [grown]
      refine exact.concluded.concat fun id closed => ?_
      obtain rfl := Option.some.inj (closes.symm.trans closed)
      refine ⟨m, here, inputs, call.timeout, started, ?_⟩
      rw [echo] at concludes
      exact concludes

variable {setting : Setting} {cancelAt : Option Nat} {phase : Phase} {a b : Flight}

theorem Exact.start (enforces : setting.host.enforcesTimeouts = true) {place : Position}
    {invocation : Invocation} {state : Call ⊕ Outcome} (exact : Exact setting.host ⟨w, todo, calls⟩)
    (started : Call.start setting place invocation w = (w', state)) :
    Exact setting.host ⟨w', left, (Progress.ofCall state).calls + calls⟩ := by
  have sent : Exact setting.host ⟨Call.sent setting place invocation w, left, calls⟩ :=
    (exact.tell (.intro _ _)).emit rfl
  let call := Call.fresh setting place invocation w
  let m : Moment := ⟨w.toScene, .started place invocation.name (w.inputs invocation)
    (invocation.timeout.getD setting.timeout)⟩
  have here : m ∈ (Call.sent setting place invocation w).moments := by
    rw [Call.moments_sent]
    exact List.mem_append_right _ (List.mem_singleton_self _)
  have out : m.happening = .started call.place call.name (w.inputs invocation) call.timeout := rfl
  have echo : call.echo = echoText call.name (w.inputs invocation) := rfl
  rcases Call.start_cases setting place invocation w with
    ⟨unknown, eq⟩ | ⟨work, mid, reply, known, went, eq⟩
  · have steps : setting.host.steps call.name (m.called.count call.name) (w.inputs invocation) =
        [.notRegistered call.name] := by
      rw [Host.steps, show setting.host.find? call.name = none from unknown]
    have idle : Script.delay [.notRegistered call.name] ≤ call.timeout.millisUp := Nat.zero_le _
    have verdict := Script.timed_of_le idle call.echo
    refine sent.of_call le_rfl rfl here out echo (Call.takeReply_arrives ?_ (eq.symm.trans started))
    rw [steps]
    exact .ended rfl (by rw [verdict]; rfl) (by rw [verdict]; rfl)
  · have steps : setting.host.steps call.name (m.called.count call.name) (w.inputs invocation) =
        work.script (w.called.count invocation.name) (w.inputs invocation) := by
      rw [Host.steps, show setting.host.find? call.name = some work from known]
      rfl
    have stirs := Call.advance_stirs setting call (Call.taken setting place invocation w)
      (work.script (w.called.count invocation.name) (w.inputs invocation))
    rw [went] at stirs
    have keeps := Call.advance_keeps enforces rfl went
    rw [← steps] at keeps
    exact sent.of_call le_rfl stirs.moments here out echo
      (Call.takeReply_arrives keeps (eq.symm.trans started))

theorem Move.exact (move : Move setting phase a b) (enforces : setting.host.enforcesTimeouts = true)
    (timely : Timely a) (exact : Exact setting.host a) : Exact setting.host b := by
  cases move with
  | start live started => exact exact.start enforces started
  | @resume call w w' state todo calls resumed =>
    have mem := Multiset.mem_cons_self call calls
    obtain ⟨m, here, inputs, since⟩ := exact.inFlight call mem
    rcases polled : call.poll setting w with ⟨mid, reply⟩
    rw [Call.resume, polled] at resumed
    have stirs := Call.poll_stirs setting call w
    rw [polled] at stirs
    have keeps := Call.poll_keeps polled since.onWay (timely call mem)
    exact exact.of_call (Multiset.le_cons_self _ _) stirs.moments here since.started since.echo
      (Call.takeReply_arrives keeps resumed)
  | @unwind call w w' failure todo calls unwound =>
    have mem := Multiset.mem_cons_self call calls
    obtain ⟨m, here, inputs, since⟩ := exact.inFlight call mem
    rcases polled : call.poll setting w with ⟨mid, reply⟩
    rw [Call.unwind, polled] at unwound
    have stirs := Call.poll_stirs setting call w
    rw [polled] at stirs
    have keeps := Call.poll_keeps polled since.onWay (timely call mem)
    have ended : Exact setting.host ⟨w', todo, (Progress.ofCall (.inr (.ok ()))).calls + calls⟩ :=
      exact.of_call (Multiset.le_cons_self _ _) stirs.moments here since.started since.echo
        (Call.dropReply_arrives keeps unwound (.ok ()))
    rwa [Progress.ofCall, Progress.calls, zero_add] at ended
  | skip late => exact (exact.tell (.intro _ _)).emit rfl
  | forget lost => exact ⟨exact.inFlight, exact.concluded⟩
  | note notes => cases notes <;> exact (exact.tell (.intro _ _)).emit rfl

theorem Stride.exact (stride : Stride setting cancelAt phase a b)
    (enforces : setting.host.enforcesTimeouts = true) (timely : Timely a)
    (exact : Exact setting.host a) : Exact setting.host b := by
  cases stride with
  | move move => exact move.exact enforces timely exact
  | pass | interrupt => exact ⟨exact.inFlight, exact.concluded⟩

end Flight

/-- Where a list has nothing twice in a view, a value of the view is found at one place. -/
theorem split_unique {α β : Type} {view : α → Option β} {a a' b b' : List α} {x x' : α} {v : β}
    (split : a ++ x :: b = a' ++ x' :: b') (apart : ((a ++ x :: b).filterMap view).Nodup)
    (here : view x = some v) (there : view x' = some v) : a = a' ∧ x = x' ∧ b = b' := by
  have first {x y : α} {l : List α} (here : view x = some v) (mem : y ∈ l) (there : view y = some v) :
      ¬ ((x :: l).filterMap view).Nodup := by
    rw [List.filterMap_cons_some here]
    exact fun apart => (List.nodup_cons.1 apart).1 (List.mem_filterMap.2 ⟨y, mem, there⟩)
  induction a generalizing a' with
  | nil =>
    cases a' with
    | nil =>
      obtain ⟨rfl, rfl⟩ := List.cons.inj split
      exact ⟨rfl, rfl, rfl⟩
    | cons y t =>
      obtain ⟨rfl, rfl⟩ := List.cons.inj split
      exact absurd apart (first here (List.mem_append_right _ List.mem_cons_self) there)
  | cons y t ih =>
    cases a' with
    | nil =>
      obtain ⟨rfl, rfl⟩ := List.cons.inj split
      exact absurd apart (first there (List.mem_append_right _ List.mem_cons_self) here)
    | cons z t' =>
      obtain ⟨rfl, rest⟩ := List.cons.inj split
      have tail := apart.sublist ((List.sublist_cons_self y (t ++ x :: b)).filterMap view)
      obtain ⟨rfl, same⟩ := ih rest tail
      exact ⟨rfl, same⟩

/-- Every call of a run that goes out comes to one end, which is as its script and its limit say. -/
def Run.KeepsTime (run : Run) (host : Host) : Prop :=
  ∀ before m after place name inputs limit, run.moments = before ++ m :: after →
    m.happening = .started place name inputs limit →
    ∃ between e rest, after = between ++ e :: rest ∧
      e.Concludes (place, name) (m.clock + (m.verdict host name inputs limit).1)
        (m.verdict host name inputs limit).2 ∧
      ∀ x ∈ before ++ between ++ rest, x.happening.closed? ≠ some (place, name)

-- Calls go out at most once, and those that end are the ones that have gone out.
theorem Run.KeepsTime.of_concluded {run : Run} {host : Host} (concluded : Concluded host run.moments)
    (balanced : run.trace.opened = run.trace.closed)
    (once : (run.trace.filterMap Happening.opened?).Nodup) : run.KeepsTime host := by
  have opened : (run.moments.filterMap fun m => m.happening.opened?).Nodup := by
    have view := List.filterMap_map (f := Moment.happening) (g := Happening.opened?) (l := run.moments)
    exact view ▸ once
  have closed : (run.moments.filterMap fun m => m.happening.closed?).Nodup := by
    have views := (Multiset.coe_eq_coe.1 balanced).nodup_iff.1 once
    have view := List.filterMap_map (f := Moment.happening) (g := Happening.closed?) (l := run.moments)
    exact view ▸ views
  intro before m after place name inputs limit split starts
  have opens : m.happening.opened? = some (place, name) := by rw [starts]; rfl
  have out : (place, name) ∈ run.trace.closed := by
    rw [← balanced]
    refine List.mem_filterMap.2 ⟨m.happening, List.mem_map_of_mem ?_, opens⟩
    exact split ▸ List.mem_append_right _ List.mem_cons_self
  obtain ⟨h, mem, closes⟩ := List.mem_filterMap.1 (Multiset.mem_coe.1 out)
  obtain ⟨e, there, rfl⟩ := List.mem_map.1 mem
  obtain ⟨first, rest, cut⟩ := List.append_of_mem there
  -- The moment at which the call ends refers to one at which it went out, and it goes out only once.
  obtain ⟨m', earlier, inputs', limit', starts', concludes⟩ := concluded first e rest _ cut closes
  obtain ⟨between', between, rfl⟩ := List.append_of_mem earlier
  have opens' : m'.happening.opened? = some (place, name) := by rw [starts']; rfl
  rw [List.append_assoc, List.cons_append] at cut
  obtain ⟨rfl, rfl, rfl⟩ := split_unique (cut.symm.trans split) (cut ▸ opened) opens' opens
  cases starts'.symm.trans starts
  refine ⟨between, e, rest, rfl, concludes, fun x here again => ?_⟩
  have moved : run.moments.Perm (e :: (between' ++ m' :: between ++ rest)) := by
    rw [cut, ← List.cons_append, ← List.append_assoc]
    exact List.perm_middle
  have apart := (moved.filterMap _).nodup_iff.1 closed
  rw [List.filterMap_cons_some (f := fun m : Moment => m.happening.closed?) closes] at apart
  refine (List.nodup_cons.1 apart).1 (List.mem_filterMap.2 ⟨x, ?_, again⟩)
  simp only [List.mem_append, List.mem_cons] at here ⊢
  tauto

theorem Workflow.run_concluded (workflow : Workflow) (setting : Setting)
    (enforces : setting.host.enforcesTimeouts = true) (cancellation : Cancellation)
    (called : List String) :
    Concluded setting.host (workflow.run setting cancellation called).moments := by
  obtain ⟨w, outcome, eq, strides⟩ := workflow.run_strides setting cancellation called
  have start : Flight.Exact setting.host
      ⟨workflow.world called cancellation.before, workflow.root.part.todo [], 0⟩ := by
    refine ⟨fun _ mem => absurd mem (Multiset.notMem_zero _), fun before e after call split => ?_⟩
    rcases before with _ | ⟨_, _ | _⟩ <;> cases split
    nofun
  have kept := strides.keeps
    (motive := fun flight => flight.Timely ∧ flight.Exact setting.host)
    (fun stride ⟨timely, exact⟩ => ⟨stride.timely timely, stride.exact enforces timely exact⟩)
    ⟨fun _ mem => absurd mem (Multiset.notMem_zero _), start⟩
  have last : Flight.Exact setting.host ⟨w.emit (closing outcome), 0, 0⟩ :=
    kept.2.emit (closing_silent outcome).2.1
  rw [eq]
  exact last.concluded

theorem Workflow.run_keeps_time (workflow : Workflow) (setting : Setting)
    (enforces : setting.host.enforcesTimeouts = true) (cancellation : Cancellation)
    (called : List String) : (workflow.run setting cancellation called).KeepsTime setting.host :=
  .of_concluded (workflow.run_concluded setting enforces cancellation called)
    (workflow.run_balanced setting cancellation called)
    (workflow.run_tallies setting cancellation called "").once.of_map

def Registries.Knows (r : Registries) (handle : Nat) (name : String) (unit : Shared) : Prop :=
  ∃ place, (r.registry handle).get? name = some place ∧ r.units[place]? = some unit

theorem Registries.invoke_timed {r : Registries} {handle : Nat} {name : String} {unit : Shared}
    (known : r.Knows handle name unit) (inputs : List String) (limit : Duration) :
    ((r.invoke handle name inputs limit).1.clock, (r.invoke handle name inputs limit).2) =
      (r.clock + ((unit.work.script unit.calls inputs).timed (echoText name inputs) limit).1,
        ((unit.work.script unit.calls inputs).timed (echoText name inputs) limit).2) := by
  obtain ⟨place, found, here⟩ := known
  rw [invoke, found, Option.bind_eq_bind, Option.bind_some, here]
  exact Call.alone_timed name inputs limit _ r.clock

/-- Timeouts are exact: through a registry, and in every run on a host that enforces them. -/
theorem timeouts_exact :
    (∀ (r : Registries) handle name unit, r.Knows handle name unit → ∀ inputs limit,
      ((r.invoke handle name inputs limit).1.clock, (r.invoke handle name inputs limit).2) =
        (r.clock + ((unit.work.script unit.calls inputs).timed (echoText name inputs) limit).1,
          ((unit.work.script unit.calls inputs).timed (echoText name inputs) limit).2)) ∧
    ∀ (workflow : Workflow) (setting : Setting), setting.host.enforcesTimeouts = true →
      ∀ cancellation called, (workflow.run setting cancellation called).KeepsTime setting.host :=
  ⟨fun _ _ _ _ known => Registries.invoke_timed known,
    fun workflow setting enforces => workflow.run_keeps_time setting enforces⟩

def Work.dozing : Work := .scripted [[.delay 3, .delay 0, .delay 4, .give "done"]]

theorem dozing_exact :
    ∃ r : Registries,
      ((r.invoke 0 "dozing" [] (.ofMillis 7)).1.clock, (r.invoke 0 "dozing" [] (.ofMillis 7)).2) =
        (7, .ok "done") ∧
      ((r.invoke 0 "dozing" [] (.ofMillis 6)).1.clock, (r.invoke 0 "dozing" [] (.ofMillis 6)).2) =
        (6, .error (.timeout (.ofMillis 6))) ∧
      ((Workflow.ofTree .empty (.invocation { name := "dozing" })).run
        { host := ⟨[("dozing", .dozing)], true⟩ } {} []).KeepsTime ⟨[("dozing", .dozing)], true⟩ := by
  obtain ⟨invokes, runs⟩ := timeouts_exact
  have known : (Registries.single.register 0 "dozing" .dozing).Knows 0 "dozing" ⟨.dozing, 0⟩ :=
    ⟨0, by decide, rfl⟩
  exact ⟨_, invokes _ _ _ _ known [] (.ofMillis 7), invokes _ _ _ _ known [] (.ofMillis 6),
    runs _ _ rfl {} []⟩

end FlowTree
