import FlowTree.Proofs.Run.Peace
import FlowTree.Proofs.Tally

/-! Independent branches are free of races. If no branch of a block touches what another one writes,
the run ends with the store of the run that takes the branches one after another, and every call has
the same inputs; so neither the delays of the calls nor the order of the branches matters. -/

set_option autoImplicit false

namespace FlowTree

open FlowTree.Action (performAll)

namespace Statement

def Independent (s t : Statement) : Prop :=
  ∀ a ∈ s.invocations, ∀ b ∈ t.invocations, a.access.Independent b.access

/-- In each parallel block the branches do not touch what other branches write. -/
inductive RaceFree : Statement → Prop where
  | invocation (call : Invocation) : RaceFree (.invocation call)
  | sequence {elements : List Statement} (each : ∀ s ∈ elements, RaceFree s) :
    RaceFree (.sequence elements)
  | parallel {branches : List Statement} (apart : branches.Pairwise Independent)
    (each : ∀ s ∈ branches, RaceFree s) : RaceFree (.parallel branches)
  | noop : RaceFree .noop

mutual

def sequential : Statement → Statement
  | .sequence elements => .sequence (sequentialAll elements)
  | .parallel branches => .sequence (sequentialAll branches)
  | .invocation call => .invocation call
  | .noop => .noop

def sequentialAll : List Statement → List Statement
  | [] => []
  | s :: rest => sequential s :: sequentialAll rest

end

/-- A tree with the branches of some parallel blocks in another order. -/
inductive Reorders : Statement → Statement → Prop where
  | refl (s : Statement) : Reorders s s
  | trans {s t u : Statement} (first : Reorders s t) (later : Reorders t u) : Reorders s u
  | branches {before after : List Statement} (perm : before.Perm after) :
    Reorders (.parallel before) (.parallel after)
  | element {before after : List Statement} {s t : Statement} (inner : Reorders s t) :
    Reorders (.sequence (before ++ s :: after)) (.sequence (before ++ t :: after))
  | branch {before after : List Statement} {s t : Statement} (inner : Reorders s t) :
    Reorders (.parallel (before ++ s :: after)) (.parallel (before ++ t :: after))

theorem accesses_part (s : Statement) : s.part.accesses = s.invocations.map Invocation.access := by
  have all (parts : List Statement)
      (each : ∀ s ∈ parts, s.part.accesses = s.invocations.map Invocation.access) :
      Part.accessesAll (Statement.parts parts) =
        (invocationsAll parts).map Invocation.access := by
    rw [Part.accessesAll_eq, parts_eq_map, List.flatMap_map, invocationsAll_eq, List.map_flatMap]
    exact List.flatMap_congr each
  induction s with
  | noop | invocation => rfl
  | sequence elements ih => exact all elements ih
  | parallel branches ih => exact all branches ih

theorem sequentialAll_eq (parts : List Statement) : sequentialAll parts = parts.map sequential := by
  induction parts with
  | nil => rfl
  | cons s rest ih => rw [sequentialAll, ih, List.map_cons]

theorem Independent.part {s t : Statement} (independent : s.Independent t) :
    s.part.Independent t.part := by
  intro a mem b mem'
  rw [accesses_part] at mem mem'
  obtain ⟨call, here, rfl⟩ := List.mem_map.1 mem
  obtain ⟨other, there, rfl⟩ := List.mem_map.1 mem'
  exact independent call here other there

theorem RaceFree.peaceful {setting : Setting} {s : Statement} (free : s.RaceFree)
    (serves : ∀ call ∈ s.invocations, setting.Serves call) (clock : Nat) :
    s.part.Peaceful setting clock := by
  have each {parts : List Statement}
      (ih : ∀ s ∈ parts, (∀ call ∈ s.invocations, setting.Serves call) →
        s.part.Peaceful setting clock)
      (serves : ∀ call ∈ invocationsAll parts, setting.Serves call) :
      ∀ p ∈ Statement.parts parts, p.Peaceful setting clock := by
    intro p mem
    rw [parts_eq_map] at mem
    obtain ⟨s, found, rfl⟩ := List.mem_map.1 mem
    exact ih s found fun call within => serves call (mem_invocationsAll.2 ⟨s, found, within⟩)
  induction free with
  | noop => exact .ended
  | invocation call => exact .unstarted (serves call (List.mem_singleton_self _))
  | sequence _ ih => exact .sequence (each ih serves)
  | parallel apart _ ih =>
    refine .block ?_ (each ih serves)
    rw [parts_eq_map, List.pairwise_map]
    exact apart.imp Independent.part

theorem sequential_raceFree (s : Statement) : s.sequential.RaceFree := by
  have all (parts : List Statement) (each : ∀ s ∈ parts, s.sequential.RaceFree) :
      (Statement.sequence (sequentialAll parts)).RaceFree := by
    rw [sequentialAll_eq]
    exact .sequence (List.forall_mem_map.2 each)
  induction s with
  | noop => exact .noop
  | invocation call => exact .invocation call
  | sequence elements ih => exact all elements ih
  | parallel branches ih => exact all branches ih

theorem invocations_sequential (s : Statement) : s.sequential.invocations = s.invocations := by
  have all (parts : List Statement)
      (each : ∀ s ∈ parts, s.sequential.invocations = s.invocations) :
      invocationsAll (sequentialAll parts) = invocationsAll parts := by
    rw [sequentialAll_eq, invocationsAll_eq, invocationsAll_eq, List.flatMap_map]
    exact List.flatMap_congr each
  induction s with
  | noop | invocation => rfl
  | sequence elements ih => exact all elements ih
  | parallel branches ih => exact all branches ih

/-- Without parallel blocks the same actions are left, at the same places. -/
theorem actions_sequential (s : Statement) (place : Position) :
    s.sequential.part.actions place = s.part.actions place := by
  have all (parts : List Statement)
      (each : ∀ s ∈ parts, ∀ place, s.sequential.part.actions place = s.part.actions place)
      (place : Position) (index : Nat) :
      Part.actionsFrom (Statement.parts (sequentialAll parts)) place index =
        Part.actionsFrom (Statement.parts parts) place index := by
    induction parts generalizing index with
    | nil => rfl
    | cons s rest ih =>
      rw [sequentialAll, Statement.parts, Statement.parts, Part.actionsFrom, Part.actionsFrom,
        each s List.mem_cons_self, ih fun s mem => each s (List.mem_cons_of_mem _ mem)]
  induction s generalizing place with
  | noop | invocation => rfl
  | sequence elements ih => exact all elements ih place 0
  | parallel branches ih => exact all branches ih place 0

end Statement

namespace Statement

def asks (s : Statement) : List Action := s.invocations.map (.ask [])

theorem actions_unplaced (s : Statement) (place : Position) :
    (s.part.actions place).map Action.unplaced = s.asks := by
  have all (parts : List Statement)
      (each : ∀ s ∈ parts, ∀ place, (s.part.actions place).map Action.unplaced = s.asks)
      (place : Position) (index : Nat) :
      (Part.actionsFrom (Statement.parts parts) place index).map Action.unplaced =
        (invocationsAll parts).map (.ask []) := by
    induction parts generalizing index with
    | nil => rfl
    | cons s rest ih =>
      rw [Statement.parts, Part.actionsFrom, List.map_append, each s List.mem_cons_self,
        ih fun s mem => each s (List.mem_cons_of_mem _ mem), invocationsAll, List.map_append]
      rfl
  induction s generalizing place with
  | noop | invocation => rfl
  | sequence elements ih => exact all elements ih place 0
  | parallel branches ih => exact all branches ih place 0

variable {outputs : String → List String → String} {s t u : Statement}

theorem Independent.symm (independent : s.Independent t) : t.Independent s :=
  fun b mem a mem' => (independent a mem' b mem).symm

theorem Independent.asks (independent : s.Independent t) :
    ∀ a ∈ s.asks, ∀ b ∈ t.asks, a.access.Independent b.access := by
  intro a mem b mem'
  obtain ⟨call, here, rfl⟩ := List.mem_map.1 mem
  obtain ⟨other, there, rfl⟩ := List.mem_map.1 mem'
  exact independent call here other there

def asksAll (parts : List Statement) : List Action := (invocationsAll parts).map (.ask [])

theorem performAll_asksAll (l : Ledger) (s : Statement) (rest : List Statement) :
    performAll outputs l (asksAll (s :: rest)) =
      performAll outputs (performAll outputs l s.asks) (asksAll rest) := by
  rw [asksAll, invocationsAll, List.map_append, Action.performAll_append]
  rfl

theorem performAll_perm {before after : List Statement} (perm : before.Perm after)
    (apart : before.Pairwise Independent) (l : Ledger) :
    performAll outputs l (asksAll before) = performAll outputs l (asksAll after) := by
  induction perm generalizing l with
  | nil => rfl
  | cons s _ ih =>
    rw [performAll_asksAll, performAll_asksAll]
    exact ih (List.pairwise_cons.1 apart).2 _
  | swap s t rest =>
    have independent := (List.pairwise_cons.1 apart).1 s List.mem_cons_self
    simp only [performAll_asksAll, Action.performAll_comm independent.asks]
  | trans first _ ih later =>
    have apart' := (first.pairwise_iff fun h => Independent.symm h).1 apart
    exact (ih apart l).trans (later apart' l)

structure Reordered (outputs : String → List String → String) (s t : Statement) : Prop where
  free : t.RaceFree
  invocations : s.invocations.Perm t.invocations
  performs : ∀ l, performAll outputs l s.asks = performAll outputs l t.asks

theorem Independent.reordered (independent : s.Independent u)
    (reordered : Reordered outputs s t) : t.Independent u :=
  fun a mem b mem' => independent a (reordered.invocations.mem_iff.2 mem) b mem'

theorem Reordered.replace {before after : List Statement} (reordered : Reordered outputs s t) :
    (invocationsAll (before ++ s :: after)).Perm (invocationsAll (before ++ t :: after)) ∧
      ∀ l, performAll outputs l (asksAll (before ++ s :: after)) =
        performAll outputs l (asksAll (before ++ t :: after)) := by
  constructor
  · rw [invocationsAll_append, invocationsAll_append]
    exact (reordered.invocations.append_right _).append_left _
  · intro l
    simp only [asksAll, invocationsAll_append, List.map_append, Action.performAll_append]
    have step := reordered.performs
    simp only [invocationsAll, List.map_append, Action.performAll_append]
    exact congrArg (performAll outputs · _) (step _)

theorem RaceFree.replace {parts before after : List Statement} (reordered : Reordered outputs s t)
    (split : parts = before ++ s :: after) (each : ∀ p ∈ parts, RaceFree p) :
    ∀ p ∈ before ++ t :: after, RaceFree p := by
  subst split
  intro p mem
  rcases List.mem_append.1 mem with left | right
  · exact each p (List.mem_append_left _ left)
  · rcases List.mem_cons.1 right with rfl | right
    · exact reordered.free
    · exact each p (List.mem_append_right _ (List.mem_cons_of_mem _ right))

theorem Reorders.reordered (reorders : s.Reorders t) (free : s.RaceFree) :
    Reordered outputs s t := by
  induction reorders with
  | refl s => exact ⟨free, .refl _, fun _ => rfl⟩
  | trans _ _ ih later =>
    have first := ih free
    have last := later first.free
    exact ⟨last.free, first.invocations.trans last.invocations,
      fun l => (first.performs l).trans (last.performs l)⟩
  | branches perm =>
    cases free with | parallel apart each
    refine ⟨.parallel ?_ fun p mem => each p (perm.mem_iff.2 mem), ?_, performAll_perm perm apart⟩
    · exact (perm.pairwise_iff fun h => Independent.symm h).1 apart
    · rw [invocations, invocations, invocationsAll_eq, invocationsAll_eq]
      exact perm.flatMap_right _
  | element inner ih =>
    cases free with | sequence each
    have reordered := ih (each _ (by simp))
    obtain ⟨invocations, performs⟩ := reordered.replace
    exact ⟨.sequence (RaceFree.replace reordered rfl each), invocations, performs⟩
  | @branch before after s t inner ih =>
    cases free with | parallel apart each
    have reordered := ih (each _ (by simp))
    obtain ⟨invocations, performs⟩ := reordered.replace
    refine ⟨.parallel ?_ (RaceFree.replace reordered rfl each), invocations, performs⟩
    rw [List.pairwise_append, List.pairwise_cons] at apart ⊢
    obtain ⟨left, ⟨later, right⟩, across⟩ := apart
    refine ⟨left, ⟨fun b mem => (later b mem).reordered reordered, right⟩, fun a mem b mem' => ?_⟩
    rcases List.mem_cons.1 mem' with rfl | mem'
    · exact ((across a mem s List.mem_cons_self).symm.reordered reordered).symm
    · exact across a mem b (List.mem_cons_of_mem _ mem')

end Statement

def Request.id (request : Request) : CallId := (request.place, request.name)

theorem Trace.ids_requests (trace : Trace) :
    (↑(trace.requests.map Request.id) : Multiset CallId) = trace.opened := by
  refine congrArg Multiset.ofList ?_
  rw [requests, List.map_filterMap]
  exact List.filterMap_congr fun entry _ => by cases entry <;> rfl

/-- Two runs of the invocations of a tree that end well, with the same store and with the same inputs
for each invocation. -/
structure Run.Agrees (root : Statement) (run other : Run) : Prop where
  well : run.outcome = .ok () ∧ other.outcome = .ok ()
  store : run.store = other.store
  requests : run.trace.requests.Perm other.trace.requests
  /-- Every invocation goes out once, and nothing else does. -/
  once : (↑(run.trace.requests.map Request.id) : Multiset CallId) = root.callIds

namespace Workflow

variable (workflow : Workflow) (setting : Setting) (called : List String)

def sequential : Workflow := { workflow with root := workflow.root.sequential }

/-- A run of a race-free tree does the calls of the tree, from left to right. -/
theorem run_performs (free : workflow.root.RaceFree)
    (serves : ∀ call ∈ workflow.root.invocations, setting.Serves call) :
    (workflow.run setting {} called).outcome = .ok () ∧
      Ledger.mk (workflow.run setting {} called).store
          (workflow.run setting {} called).trace.requests =
        performAll setting.output ⟨workflow.seed, 0⟩ (workflow.root.part.actions []) := by
  have start : (workflow.world called false).ledger = ⟨workflow.seed, 0⟩ := rfl
  obtain ⟨well, ledger⟩ := Machine.run_performs workflow.root (workflow.world called false)
    (free.peaceful serves 0) rfl
  rw [start] at ledger
  refine ⟨well, ?_⟩
  rw [← ledger]
  have closes : (closing (Machine.run setting none workflow.root
      (workflow.world called false)).2).request? = none := by
    rw [well]
    rfl
  exact World.ledger_emit _ closes

theorem run_requests (well : (workflow.run setting {} called).outcome = .ok ()) :
    (↑((workflow.run setting {} called).trace.requests.map Request.id) : Multiset CallId) =
      workflow.root.callIds := by
  obtain ⟨w, outcome, eq, reaches⟩ := workflow.run_reaches setting {} called
  rw [eq] at well ⊢
  cases well
  rw [Trace.ids_requests, Trace.opened, close_filterMap fun outcome => (closing_silent outcome).1]
  exact reaches.all_complete.1

variable {workflow setting called}

theorem agrees_of_ledgers {other : Run} (well : (workflow.run setting {} called).outcome = .ok ())
    (well' : other.outcome = .ok ())
    (same : Ledger.mk (workflow.run setting {} called).store
        (workflow.run setting {} called).trace.requests =
      Ledger.mk other.store other.trace.requests) :
    (workflow.run setting {} called).Agrees workflow.root other := by
  obtain ⟨store, requests⟩ := Ledger.mk.inj same
  exact ⟨⟨well, well'⟩, store, Multiset.coe_eq_coe.1 requests, workflow.run_requests setting called well⟩

end Workflow

theorem Statement.mem_actions {s : Statement} {place : Position} {a : Action}
    (mem : a ∈ s.part.actions place) : ∃ place, ∃ call ∈ s.invocations, a = .ask place call := by
  have stripped := List.mem_map_of_mem (f := Action.unplaced) mem
  rw [actions_unplaced] at stripped
  obtain ⟨call, here, eq⟩ := List.mem_map.1 stripped
  cases a with
  | give result output => cases eq
  | ask place other =>
    cases eq
    exact ⟨place, _, here, rfl⟩

/-- If no branch of a block touches what another one writes and every call ends with an output, the
run ends well, with the store of the run that takes the branches one after another and with the same
inputs for every invocation. Delays do not change this, nor does the order of the branches. -/
theorem Workflow.run_race_free (workflow : Workflow) (setting : Setting) (called : List String)
    (free : workflow.root.RaceFree)
    (serves : ∀ call ∈ workflow.root.invocations, setting.Serves call) :
    (workflow.run setting {} called).Agrees workflow.root (workflow.sequential.run setting {} called) ∧
    (∀ (other : Setting) (earlier : List String),
      (∀ call ∈ workflow.root.invocations, other.Serves call ∧
        ∀ inputs, other.output call.name inputs = setting.output call.name inputs) →
      (workflow.run other {} earlier).Agrees workflow.root (workflow.run setting {} called)) ∧
    ∀ root, workflow.root.Reorders root →
      (run { workflow with root } setting {} called).outcome = .ok () ∧
      (run { workflow with root } setting {} called).store = (workflow.run setting {} called).store ∧
      ((run { workflow with root } setting {} called).trace.requests.map Request.unplaced).Perm
        ((workflow.run setting {} called).trace.requests.map Request.unplaced) := by
  obtain ⟨well, ledger⟩ := workflow.run_performs setting called free serves
  refine ⟨?_, fun other earlier answers => ?_, fun root reorders => ?_⟩
  · have serves' : ∀ call ∈ workflow.sequential.root.invocations, setting.Serves call := by
      rw [sequential, Statement.invocations_sequential]
      exact serves
    obtain ⟨well', ledger'⟩ := workflow.sequential.run_performs setting called
      workflow.root.sequential_raceFree serves'
    refine agrees_of_ledgers well well' ?_
    rw [ledger, ledger', sequential, Statement.actions_sequential]
  · obtain ⟨well', ledger'⟩ := workflow.run_performs other earlier free
      fun call mem => (answers call mem).1
    refine agrees_of_ledgers well' well ?_
    rw [ledger, ledger']
    refine Action.performAll_congr (fun a mem l => ?_) _
    obtain ⟨place, call, here, rfl⟩ := Statement.mem_actions mem
    simp only [Action.perform, Ledger.ask, (answers call here).2]
  · have reordered : Statement.Reordered setting.output workflow.root root :=
      reorders.reordered free
    have serves' : ∀ call ∈ root.invocations, setting.Serves call :=
      fun call mem => serves call (reordered.invocations.mem_iff.2 mem)
    obtain ⟨well', ledger'⟩ := run_performs { workflow with root } setting called reordered.free
      serves'
    have same := congrArg Ledger.unplaced (ledger'.trans rfl)
    have first := congrArg Ledger.unplaced ledger
    rw [Action.performAll_unplaced, Statement.actions_unplaced] at same first
    rw [← reordered.performs, ← first] at same
    obtain ⟨store, requests⟩ := Ledger.mk.inj same
    refine ⟨well', store, ?_⟩
    rw [Multiset.map_coe, Multiset.map_coe] at requests
    exact Multiset.coe_eq_coe.1 requests

/-- A unit with one script that ends with an output serves every call that gives it the time. -/
theorem Setting.serves_of_script {setting : Setting} {call : Invocation} {script : Script}
    (known : setting.host.find? call.name = some (.scripted [script]))
    (quiet : script.cancels = false)
    (answers : ∀ echo, ∃ output, script.answer echo = .ok output)
    (inTime : setting.host.enforcesTimeouts = true →
      script.delay ≤ (call.timeout.getD setting.timeout).millisUp) : setting.Serves call := by
  have steady (earlier : Nat) (inputs : List String) :
      (Work.scripted [script]).script earlier inputs = script := by
    cases earlier <;> rfl
  have same (inputs : List String) : setting.host.script call.name inputs = script := by
    rw [Host.script, known]
    rfl
  constructor
  case steady => exact ⟨_, known, fun earlier inputs => (steady earlier inputs).trans (same inputs).symm⟩
  case quiet => exact fun inputs => (same inputs).symm ▸ quiet
  case answers => exact fun inputs => (same inputs).symm ▸ answers _
  case inTime => exact fun enforces inputs => (same inputs).symm ▸ inTime enforces

/-- A call beside a sequence of two calls, of which the last one reads what the first one wrote. -/
def Workflow.fork : Workflow :=
  .ofTree .empty (.parallel
    [.invocation { name := "slow", result := some "x" },
      .sequence
        [.invocation { name := "quick", result := some "y" },
          .invocation { name := "slow", arguments := ["y"] }]])

def Setting.racing : Setting where
  host := ⟨[("slow", .scripted [[.delay 5, .echo]]), ("quick", .scripted [[.give "v"]])], true⟩

theorem Workflow.fork_race_free : fork.root.RaceFree ∧
    (∀ call ∈ fork.root.invocations, Setting.racing.Serves call) ∧
    (fork.run .racing {} []).Agrees fork.root (fork.sequential.run .racing {} []) := by
  have apart : Statement.Independent (.invocation { name := "slow", result := some "x" })
      (.sequence [.invocation { name := "quick", result := some "y" },
        .invocation { name := "slow", arguments := ["y"] }]) := by
    intro a mem b mem'
    simp [Statement.invocations, Statement.invocationsAll] at mem mem'
    rcases mem' with rfl | rfl <;> subst mem <;> constructor <;> simp [Invocation.access]
  have free : fork.root.RaceFree := by
    refine .parallel (List.pairwise_pair.2 apart) fun s mem => ?_
    simp at mem
    rcases mem with rfl | rfl
    · exact .invocation _
    · refine .sequence fun s mem => ?_
      simp at mem
      rcases mem with rfl | rfl <;> exact .invocation _
  have serves : ∀ call ∈ fork.root.invocations, Setting.racing.Serves call := by
    intro call mem
    simp [fork, ofTree, Statement.invocations, Statement.invocationsAll] at mem
    rcases mem with rfl | rfl | rfl
    · exact Setting.serves_of_script rfl rfl (fun echo => ⟨echo, rfl⟩) (by decide)
    · exact Setting.serves_of_script rfl rfl (fun echo => ⟨"v", rfl⟩) (by decide)
    · exact Setting.serves_of_script rfl rfl (fun echo => ⟨echo, rfl⟩) (by decide)
  exact ⟨free, serves, (run_race_free fork .racing [] free serves).1⟩

end FlowTree
