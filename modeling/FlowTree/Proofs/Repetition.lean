import FlowTree.Proofs.Run.Veil

/-! Runs one after another on one host. The host only remembers how often its units have been called, so
where that makes no difference to their scripts every run is like the first one, however the runs
before it have ended. -/

set_option autoImplicit false

namespace FlowTree

/-- Work that does the same in every call with the same inputs. -/
inductive Work.Steady : Work → Prop where
  | builtin (unit : Builtin) : Steady (.builtin unit)
  | scripted (script : Script) : Steady (.scripted [script])

theorem Work.Steady.script_eq {work : Work} (steady : work.Steady) (earlier earlier' : Nat)
    (inputs : List String) : work.script earlier inputs = work.script earlier' inputs := by
  cases steady with
  | builtin unit => rfl
  | scripted script =>
    have only (n : Nat) : Work.script (.scripted [script]) n inputs = script := by
      cases n <;> rfl
    rw [only, only]

def Host.Steady (host : Host) : Prop := ∀ name work, host.find? name = some work → work.Steady

theorem Host.steady_of_units {host : Host} (each : ∀ unit ∈ host.units, unit.2.Steady) :
    host.Steady := by
  intro name work found
  obtain ⟨before, after, eq, _⟩ := List.lookup_eq_some_iff.1 found
  exact each (name, work) (eq ▸ List.mem_append_right _ List.mem_cons_self)

theorem Host.builtin_steady : Host.builtin.Steady := by
  refine Host.steady_of_units fun unit mem => ?_
  obtain ⟨work, -, rfl⟩ := List.mem_map.1 mem
  exact .builtin work

def Veil.uncounted (setting : Setting) (steady : setting.host.Steady) : Veil setting where
  __ := Veil.clear setting
  counts _ _ := True
  call _ _ := trivial
  script _ _ found := (steady _ _ found).script_eq _ _

namespace Workflow

/-- What has been called on a host before makes no difference to a run. -/
theorem run_fresh (workflow : Workflow) {setting : Setting} (steady : setting.host.Steady)
    (cancellation : Cancellation) (called called' : List String) :
    (Veil.uncounted setting steady).Runs (workflow.run setting cancellation called)
      (workflow.run setting cancellation called') := by
  have same : (Veil.uncounted setting steady).likeness.Statements workflow.root workflow.root :=
    .refl workflow.root fun _ _ => trivial
  exact Veil.runs rfl trivial same workflow.id workflow.name cancellation

theorem length_runRepeatedly (workflow : Workflow) (setting : Setting) (cancellation : Cancellation)
    (times : Nat) (called : List String) :
    (workflow.runRepeatedly setting cancellation times called).length = times := by
  induction times generalizing called with
  | zero => rfl
  | succ times ih => rw [runRepeatedly, List.length_cons, ih]

/-- Each of several runs starts after some calls, whatever the runs before it were. -/
theorem mem_runRepeatedly {workflow : Workflow} {setting : Setting} {cancellation : Cancellation}
    {times : Nat} {called : List String} {run : Run}
    (mem : run ∈ workflow.runRepeatedly setting cancellation times called) :
    ∃ called, run = workflow.run setting cancellation called := by
  induction times generalizing called with
  | zero => cases mem
  | succ times ih =>
    rcases List.mem_cons.1 mem with rfl | later
    · exact ⟨called, rfl⟩
    · exact ih later

/-- Any number of runs on a host, also one on which there have been other runs, are as one on a fresh
host, if its units are steady. -/
theorem run_repeats (workflow : Workflow) (setting : Setting) (steady : setting.host.Steady)
    (cancellation : Cancellation) (times : Nat) (called : List String) :
    (workflow.runRepeatedly setting cancellation times called).length = times ∧
      ∀ run ∈ workflow.runRepeatedly setting cancellation times called,
        run.Resembles (workflow.run setting cancellation []) ∧
          run.store = (workflow.run setting cancellation []).store := by
  refine ⟨workflow.length_runRepeatedly setting cancellation times called, fun run mem => ?_⟩
  obtain ⟨before, rfl⟩ := mem_runRepeatedly mem
  have runs := workflow.run_fresh steady cancellation before []
  exact ⟨runs.resemble, runs.stores⟩

/-- A call that writes a variable before a block in which a failure drops another call. -/
def relapse : Workflow :=
  .ofTree .empty (.sequence [
    .invocation { name := "quick", result := some "x" },
    .parallel [.invocation { name := "slow" }, .invocation { name := "fail" }]])

def relapsing : Setting where
  host := ⟨[("quick", .scripted [[]]), ("slow", .scripted [[.delay 5]]), ("fail", .builtin .fail)], true⟩

theorem relapse_repeats :
    relapsing.host.Steady ∧
    (relapse.runRepeatedly relapsing {} 3 []).length = 3 ∧
      ∀ run ∈ relapse.runRepeatedly relapsing {} 3 [],
        run.Resembles (relapse.run relapsing {} []) ∧
          run.store = (relapse.run relapsing {} []).store := by
  have steady : relapsing.host.Steady := by
    refine Host.steady_of_units fun unit mem => ?_
    simp only [relapsing, List.mem_cons, List.not_mem_nil, or_false] at mem
    rcases mem with rfl | rfl | rfl
    · exact .scripted []
    · exact .scripted [.delay 5]
    · exact .builtin .fail
  exact ⟨steady, run_repeats relapse relapsing steady {} 3 []⟩

end Workflow

end FlowTree
