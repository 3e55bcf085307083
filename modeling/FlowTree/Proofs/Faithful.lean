import FlowTree.Authored.Resolution
import FlowTree.Proofs.Barriers
import FlowTree.Proofs.Results

/-! What resolution keeps of a definition that it accepts: all but empty result names, which count as
none. The tree has the same shape and the same calls, and two definitions become one tree only if they
differ in empty result names. So no run of such a tree calls a blank name, and none touches the variable
whose name is empty. -/

set_option autoImplicit false

namespace FlowTree

namespace Authored

namespace Invocation

def tidy (call : Invocation) : Invocation :=
  { call with result := if call.result = some "" then none else call.result }

/-- The executable call says what the written one says, but for an empty result name. -/
structure Becomes (call : Invocation) (made : FlowTree.Invocation) : Prop where
  named : Text.trim call.name ≠ ""
  name : made.name = call.name
  arguments : made.arguments = call.arguments
  result : ∀ key, made.result = some key ↔ call.result = some key ∧ key ≠ ""
  /-- A timeout is as many milliseconds as are written. -/
  timeout : made.timeout.map Duration.nanos = call.timeoutMs.map fun ms => ms.toNat * 1000000

variable {call other : Invocation} {made : FlowTree.Invocation} {path : Path}

theorem becomes_of_resolve (resolved : call.resolve path = .ok made) : call.Becomes made := by
  unfold resolve at resolved
  split at resolved
  · cases resolved
  · next named =>
    cases resolved
    constructor
    case named => exact named
    case name => rfl
    case arguments => rfl
    case result =>
      intro key
      simp [Option.filter_eq_some_iff]
    case timeout =>
      simp [Option.map_map, Function.comp_def, Duration.ofMillis]

theorem resolve_tidy (call : Invocation) (path : Path) : call.tidy.resolve path = call.resolve path := by
  have result : call.tidy.result.filter (· ≠ "") = call.result.filter (· ≠ "") := by
    by_cases empty : call.result = some ""
    · simp [tidy, empty, Option.filter]
    · simp [tidy, empty]
  simp only [resolve, result]
  rfl

theorem Becomes.tidy_result (becomes : call.Becomes made) : call.tidy.result = made.result := by
  apply Option.ext
  intro key
  rw [becomes.result]
  by_cases empty : call.result = some ""
  · simp [tidy, empty, eq_comm]
  · simp [tidy, empty]
    rintro found rfl
    exact empty found

theorem millis_injective : Function.Injective fun ms : UInt64 => ms.toNat * 1000000 := by
  intro a b same
  apply UInt64.toNat_inj.1
  exact Nat.eq_of_mul_eq_mul_right (by decide) same

theorem Becomes.tidy_eq (becomes : call.Becomes made) (becomes' : other.Becomes made) :
    call.tidy = other.tidy := by
  have name := becomes.name.symm.trans becomes'.name
  have arguments := becomes.arguments.symm.trans becomes'.arguments
  have result := becomes.tidy_result.trans becomes'.tidy_result.symm
  have timeout := becomes.timeout.symm.trans becomes'.timeout
  have timeoutMs := Option.map_injective millis_injective timeout
  cases call
  cases other
  simp_all [tidy]

end Invocation

namespace Statement

mutual

def tidy : Statement → Statement
  | ⟨invocation, sequence, parallel⟩ =>
    ⟨invocation.map Invocation.tidy, tidyOption sequence, tidyOption parallel⟩

def tidyOption : Option (List Statement) → Option (List Statement)
  | none => none
  | some parts => some (tidyAll parts)

def tidyAll : List Statement → List Statement
  | [] => []
  | s :: rest => tidy s :: tidyAll rest

end

mutual

def invocations : Statement → List Invocation
  | ⟨invocation, sequence, parallel⟩ =>
    invocation.toList ++ (invocationsOption sequence ++ invocationsOption parallel)

def invocationsOption : Option (List Statement) → List Invocation
  | none => []
  | some parts => invocationsAll parts

def invocationsAll : List Statement → List Invocation
  | [] => []
  | s :: rest => invocations s ++ invocationsAll rest

end

/-- The executable tree has the shape of the written one, with its calls in their places. -/
inductive Becomes : Statement → FlowTree.Statement → Prop where
  | noop : Becomes ⟨none, none, none⟩ .noop
  | invocation {call : Invocation} {made : FlowTree.Invocation} (becomes : call.Becomes made) :
    Becomes ⟨some call, none, none⟩ (.invocation made)
  | sequence {elements : List Statement} {made : List FlowTree.Statement}
    (each : List.Forall₂ Becomes elements made) :
    Becomes ⟨none, some elements, none⟩ (.sequence made)
  | parallel {branches : List Statement} {made : List FlowTree.Statement}
    (each : List.Forall₂ Becomes branches made) :
    Becomes ⟨none, none, some branches⟩ (.parallel made)

variable {s other : Statement} {made : FlowTree.Statement} {path : Path}

theorem forall₂_of_resolveParts {parts : List Statement} {made : List FlowTree.Statement}
    (each : ∀ s ∈ parts, ∀ path made, s.resolve path = .ok made → s.Becomes made)
    {place : Nat → Path} {index : Nat} (resolved : resolveParts place index parts = .ok made) :
    List.Forall₂ Becomes parts made := by
  induction parts generalizing index made with
  | nil =>
    cases resolved
    exact .nil
  | cons s rest ih =>
    rw [resolveParts, bind_eq_ok] at resolved
    obtain ⟨one, first, resolved⟩ := resolved
    obtain ⟨others, later, same⟩ := bind_eq_ok.1 resolved
    cases pure_eq_ok.1 same
    apply List.Forall₂.cons
    · exact each s List.mem_cons_self _ _ first
    · exact ih (fun t mem => each t (List.mem_cons_of_mem _ mem)) later

-- The cases are the entries that are set. Where several are, there is no result.
theorem becomes_of_resolve (resolved : s.resolve path = .ok made) : s.Becomes made := by
  induction s generalizing path made with
  | mk invocation sequence parallel elements branches =>
    cases invocation with
    | some call =>
      cases sequence with
      | some => cases resolved
      | none =>
        cases parallel with
        | some => cases resolved
        | none =>
          rw [resolve, map_eq_ok] at resolved
          obtain ⟨one, resolved, rfl⟩ := resolved
          exact .invocation (Invocation.becomes_of_resolve resolved)
    | none =>
      cases sequence with
      | none =>
        cases parallel with
        | none =>
          cases resolved
          exact .noop
        | some parts =>
          rw [resolve, map_eq_ok] at resolved
          obtain ⟨all, resolved, rfl⟩ := resolved
          exact .parallel (forall₂_of_resolveParts (fun s mem _ _ => branches parts rfl s mem) resolved)
      | some parts =>
        cases parallel with
        | some => cases resolved
        | none =>
          rw [resolve, map_eq_ok] at resolved
          obtain ⟨all, resolved, rfl⟩ := resolved
          exact .sequence (forall₂_of_resolveParts (fun s mem _ _ => elements parts rfl s mem) resolved)

theorem resolveParts_tidyAll {parts : List Statement}
    (each : ∀ s ∈ parts, ∀ path, s.tidy.resolve path = s.resolve path) (place : Nat → Path)
    (index : Nat) : resolveParts place index (tidyAll parts) = resolveParts place index parts := by
  induction parts generalizing index with
  | nil => rfl
  | cons s rest ih =>
    rw [tidyAll, resolveParts, resolveParts, each s List.mem_cons_self,
      ih fun t mem => each t (List.mem_cons_of_mem _ mem)]

theorem resolve_tidy (s : Statement) (path : Path) : s.tidy.resolve path = s.resolve path := by
  induction s generalizing path with
  | mk invocation sequence parallel elements branches =>
    cases invocation with
    | some call =>
      cases sequence with
      | some => rfl
      | none =>
        cases parallel with
        | some => rfl
        | none => exact congrArg (Except.map _) (call.resolve_tidy path)
    | none =>
      cases sequence with
      | none =>
        cases parallel with
        | none => rfl
        | some parts => exact congrArg (Except.map _) (resolveParts_tidyAll (branches parts rfl) _ 0)
      | some parts =>
        cases parallel with
        | some => rfl
        | none => exact congrArg (Except.map _) (resolveParts_tidyAll (elements parts rfl) _ 0)

theorem tidyAll_eq {parts others : List Statement} {made : List FlowTree.Statement}
    (each : ∀ s ∈ parts, ∀ (other : Statement) (made : FlowTree.Statement),
      s.Becomes made → other.Becomes made → s.tidy = other.tidy)
    (become : List.Forall₂ Becomes parts made) (become' : List.Forall₂ Becomes others made) :
    tidyAll parts = tidyAll others := by
  induction become generalizing others with
  | nil =>
    cases become'
    rfl
  | cons first _ ih =>
    cases become' with | cons first' later' =>
    rw [tidyAll, tidyAll, each _ List.mem_cons_self _ _ first first',
      ih (fun t mem => each t (List.mem_cons_of_mem _ mem)) later']

/-- Definitions that become one tree differ in empty result names only. -/
theorem Becomes.tidy_eq (becomes : s.Becomes made) (becomes' : other.Becomes made) :
    s.tidy = other.tidy := by
  induction s generalizing other made with
  | mk invocation sequence parallel elements branches =>
    cases becomes with
    | noop =>
      cases becomes'
      rfl
    | invocation first =>
      cases becomes' with | invocation second =>
      rw [tidy, tidy, Option.map_some, Option.map_some, first.tidy_eq second]
    | sequence each =>
      cases becomes' with | sequence each' =>
      rw [tidy, tidy, tidyOption.eq_2, tidyOption.eq_2,
        tidyAll_eq (fun s mem _ _ => elements _ rfl s mem) each each']
    | parallel each =>
      cases becomes' with | parallel each' =>
      rw [tidy, tidy, tidyOption.eq_2, tidyOption.eq_2, tidyAll_eq (fun s mem _ _ => branches _ rfl s mem) each each']

theorem invocationsAll_become {parts : List Statement} {made : List FlowTree.Statement}
    (each : ∀ s ∈ parts, ∀ made, s.Becomes made →
      List.Forall₂ Invocation.Becomes s.invocations made.invocations)
    (become : List.Forall₂ Becomes parts made) :
    List.Forall₂ Invocation.Becomes (invocationsAll parts)
      (FlowTree.Statement.invocationsAll made) := by
  induction become with
  | nil => exact .nil
  | cons first _ ih =>
    apply List.rel_append
    · exact each _ List.mem_cons_self _ first
    · exact ih fun t mem => each t (List.mem_cons_of_mem _ mem)

/-- The calls of the tree are those of the definition, in the same order. -/
theorem Becomes.invocations (becomes : s.Becomes made) :
    List.Forall₂ Invocation.Becomes s.invocations made.invocations := by
  induction s generalizing made with
  | mk invocation sequence parallel elements branches =>
    cases becomes with
    | noop => exact .nil
    | invocation becomes => exact .cons becomes .nil
    | sequence each =>
      have calls := invocationsAll_become (fun s mem _ => elements _ rfl s mem) each
      simpa [Statement.invocations, invocationsOption, FlowTree.Statement.invocations] using calls
    | parallel each =>
      exact invocationsAll_become (fun s mem _ => branches _ rfl s mem) each

theorem Becomes.invocationCount_eq (becomes : s.Becomes made) :
    made.invocationCount = s.invocations.length := by
  rw [← made.length_invocations, becomes.invocations.length_eq]

theorem Becomes.named (becomes : s.Becomes made) {call : FlowTree.Invocation}
    (mem : call ∈ made.invocations) : Text.trim call.name ≠ "" ∧ call.result ≠ some "" := by
  have both : List.Forall₂ (fun made call => (Text.trim made.name ≠ "" ∧ made.result ≠ some "") ∧
      Invocation.Becomes call made) made.invocations s.invocations := by
    refine becomes.invocations.flip.imp fun made call becomes => ⟨⟨?_, ?_⟩, becomes⟩
    · rw [becomes.name]
      exact becomes.named
    · intro empty
      exact ((becomes.result "").1 empty).2 rfl
  exact ((List.forall₂_and_left _ _).1 both).1 call mem

end Statement

end Authored

theorem World.get?_write {w : World} {result : Option String} {key : String}
    (other : result ≠ some key) (output : String) :
    (w.write result output).store.get? key = w.store.get? key := by
  cases result with
  | none => rfl
  | some name =>
    have apart : key ≠ name := fun same => other (congrArg some same.symm)
    simp [World.write, NameMap.get?_insert, apart]

namespace Flight

/-- No call of a flight writes a variable, and the variable has had one value, or none, all the time. -/
structure Spares (key : String) (held : Option String) (flight : Flight) : Prop where
  todo : ∀ site ∈ flight.todo, site.2.result ≠ some key
  calls : ∀ call ∈ flight.calls, call.result ≠ some key
  moments : ∀ moment ∈ flight.world.moments, moment.store.get? key = held
  store : flight.world.store.get? key = held

variable {setting : Setting} {key : String} {held : Option String} {w : World}
  {todo left : Multiset Site} {calls inFlight : Multiset Call}

theorem Spares.tell (spares : Spares key held ⟨w, todo, calls⟩) {mid : World}
    (tells : w.Tells mid) : Spares key held ⟨mid, todo, calls⟩ := by
  cases tells
  exact ⟨spares.todo, spares.calls, spares.moments, spares.store⟩

theorem Spares.emit (spares : Spares key held ⟨w, todo, calls⟩) (happening : Happening)
    (fewer : left ⊆ todo) (ended : inFlight ⊆ calls) :
    Spares key held ⟨w.emit happening, left, inFlight⟩ := by
  refine ⟨fun site mem => spares.todo site (fewer mem),
    fun call mem => spares.calls call (ended mem), fun moment mem => ?_, spares.store⟩
  rw [World.moments_emit] at mem
  rcases List.mem_append.1 mem with mem | mem
  · exact spares.moments moment mem
  · cases List.mem_singleton.1 mem
    exact spares.store

theorem Spares.complete {call : Call} (spares : Spares key held ⟨w, todo, call ::ₘ calls⟩)
    (output : String) : Spares key held ⟨call.complete w output, todo, calls⟩ := by
  have other := spares.calls call (Multiset.mem_cons_self _ _)
  have written : Spares key held ⟨w.write call.result output, todo, call ::ₘ calls⟩ := by
    refine ⟨spares.todo, spares.calls, ?_, ?_⟩
    · rw [World.moments_write]
      exact spares.moments
    · rw [World.get?_write other]
      exact spares.store
  exact (written.tell (.intro _ _)).emit _ (.refl _) (Multiset.subset_cons _ _)

theorem Tick.spares {phase : Phase} {a b : Flight} (tick : Tick setting phase a b)
    (spares : Spares key held a) : Spares key held b := by
  cases tick with
  | @send place invocation w todo calls called live =>
    have sent : Spares key held ⟨Call.sent setting place invocation w, todo, calls⟩ :=
      (spares.tell (.intro _ _)).emit _ (Multiset.subset_cons _ _) (.refl _)
    refine ⟨sent.todo, fun call mem => ?_, sent.moments, sent.store⟩
    rcases Multiset.mem_cons.1 mem with rfl | mem
    · exact spares.todo (place, invocation) (Multiset.mem_cons_self _ _)
    · exact sent.calls call mem
  | stir _ stirs =>
    cases stirs
    exact ⟨spares.todo, spares.calls, spares.moments, spares.store⟩
  | sleep same =>
    refine ⟨spares.todo, fun call mem => ?_, spares.moments, spares.store⟩
    rcases Multiset.mem_cons.1 mem with rfl | mem
    · rw [same.result]
      exact spares.calls _ (Multiset.mem_cons_self _ _)
    · exact spares.calls call (Multiset.mem_cons_of_mem mem)
  | complete output live => exact spares.complete output
  | fail _ fails => exact spares.emit _ (.refl _) (Multiset.subset_cons _ _)
  | pass instant => exact ⟨spares.todo, spares.calls, spares.moments, spares.store⟩
  | interrupt instant => exact ⟨spares.todo, spares.calls, spares.moments, spares.store⟩
  | skip _ => exact spares.emit _ (Multiset.subset_cons _ _) (.refl _)
  | forget lost =>
    refine ⟨fun site mem => spares.todo site ?_, spares.calls, spares.moments, spares.store⟩
    exact Multiset.mem_add.2 (.inr mem)
  | note notes => exact spares.emit _ (.refl _) (.refl _)

end Flight

namespace Workflow

variable (workflow : Workflow) (setting : Setting) (cancellation : Cancellation)
  (called : List String)

/-- A variable that is no result of the tree keeps its value, or stays absent, during a run. -/
theorem run_spares {key : String} (spared : ∀ call ∈ workflow.root.invocations, call.result ≠ some key) :
    (∀ moment ∈ (workflow.run setting cancellation called).moments,
      moment.store.get? key = workflow.seed.get? key) ∧
    (workflow.run setting cancellation called).store.get? key = workflow.seed.get? key := by
  obtain ⟨w, outcome, eq, leads⟩ := workflow.run_leads setting cancellation called
  have start : Flight.Spares key (workflow.seed.get? key)
      ⟨workflow.world called cancellation.before, workflow.root.part.todo [], 0⟩ := by
    refine ⟨fun site mem => ?_, nofun, fun moment mem => ?_, rfl⟩
    · apply spared
      have member := Multiset.mem_map_of_mem Prod.snd mem
      rwa [workflow.root.todo_invocations] at member
    · cases List.mem_singleton.1 mem
      rfl
  have last := leads.keeps (motive := Flight.Spares key (workflow.seed.get? key))
    Flight.Tick.spares start
  have closed := last.emit (closing outcome) (.refl _) (.refl _)
  rw [eq]
  exact ⟨closed.moments, closed.store⟩

theorem run_calls_named {sent : Trace.Sent}
    (mem : sent ∈ (workflow.run setting cancellation called).trace.calls) :
    ∃ call ∈ workflow.root.invocations, call.name = sent.name := by
  have known := (workflow.run_known setting cancellation called (List.append_nil _).symm).1
  obtain ⟨happening, here, shown⟩ := List.mem_filterMap.1 mem
  cases happening with
  | started place name inputs timeout =>
    cases shown
    have opened : (place, name) ∈ (workflow.run setting cancellation called).trace.opened :=
      Multiset.mem_coe.2 (List.mem_filterMap.2 ⟨_, here, rfl⟩)
    have names := Multiset.mem_map_of_mem Prod.snd (Multiset.mem_of_le known opened)
    rw [workflow.root.names_callIds] at names
    exact List.mem_map.1 (Multiset.mem_coe.1 names)
  | _ => cases shown

end Workflow

namespace Authored

/-- What an executable workflow keeps of a definition. -/
structure Workflow.Keeps (workflow : Workflow) (made : FlowTree.Workflow) : Prop where
  tree : workflow.root.Becomes made.root
  /-- The definitions that give this tree are those that differ in empty result names only. -/
  alike : ∀ (other : Workflow) (made' : FlowTree.Workflow), other.resolve = .ok made' →
    (made.root = made'.root ↔ workflow.root.tidy = other.root.tidy)
  size : made.root.invocationCount = workflow.root.invocations.length
  seed : made.seed = workflow.seed
  named : ∀ call ∈ made.root.invocations, Text.trim call.name ≠ "" ∧ call.result ≠ some ""
  /-- No run of the tree calls a blank name, whatever its initial variables are. -/
  calls : ∀ seed setting cancellation called,
    ∀ sent ∈ ({ made with seed }.run setting cancellation called).trace.calls,
      Text.trim sent.name ≠ ""
  /-- No run of the tree touches the variable whose name is empty. -/
  spares : ∀ (seed : Store) setting cancellation called,
    let run := { made with seed }.run setting cancellation called
    (∀ moment ∈ run.moments, moment.store.get? "" = seed.get? "") ∧
    run.store.get? "" = seed.get? ""

theorem Workflow.root_of_resolve {workflow : Workflow} {made : FlowTree.Workflow}
    (resolved : workflow.resolve = .ok made) :
    workflow.root.resolve [] = .ok made.root ∧ made.seed = workflow.seed := by
  rw [resolve, bind_eq_ok] at resolved
  obtain ⟨root, resolved, same⟩ := resolved
  cases pure_eq_ok.1 same
  exact ⟨resolved, rfl⟩

/-- Resolution loses nothing but empty result names, and no run undoes what it guarantees. -/
theorem Workflow.resolve_keeps {workflow : Workflow} {made : FlowTree.Workflow}
    (resolved : workflow.resolve = .ok made) : workflow.Keeps made := by
  obtain ⟨root, seed⟩ := root_of_resolve resolved
  have tree := Statement.becomes_of_resolve root
  constructor
  case tree => exact tree
  case alike =>
    intro other made' resolved'
    obtain ⟨root', -⟩ := root_of_resolve resolved'
    constructor
    · intro same
      exact tree.tidy_eq (same ▸ Statement.becomes_of_resolve root')
    · -- Resolution does not tell a definition from its tidy form.
      intro same
      rw [← Statement.resolve_tidy, same, Statement.resolve_tidy, root'] at root
      exact (Except.ok.inj root).symm
  case size => exact tree.invocationCount_eq
  case seed => exact seed
  case named => exact fun call mem => tree.named mem
  case calls =>
    intro seed setting cancellation called sent mem
    obtain ⟨call, member, name⟩ := FlowTree.Workflow.run_calls_named _ _ _ _ mem
    rw [← name]
    exact (tree.named member).1
  case spares =>
    intro seed setting cancellation called
    exact { made with seed }.run_spares setting cancellation called fun call mem => (tree.named mem).2

def Workflow.tidied : Workflow where
  seed := NameMap.empty.insert "" "kept"
  root := { sequence := some [
    { invocation := some { name := "a", result := some "", timeoutMs := some 1500 } },
    { parallel := some [{}, { invocation := some { name := "b", result := some "x" } }] }] }

theorem Workflow.tidied_keeps : ∃ made, tidied.resolve = .ok made ∧ tidied.Keeps made :=
  ⟨_, rfl, resolve_keeps rfl⟩

end Authored

end FlowTree
