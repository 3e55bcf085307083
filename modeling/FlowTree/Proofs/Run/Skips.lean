import FlowTree.Proofs.FailFast

/-! Which invocations are skipped. When a run comes to an invocation, it passes it over if the caller's
token is cancelled or a block around it has failed, and otherwise sends out the call. -/

set_option autoImplicit false

namespace FlowTree

def Happening.met? : Happening → Option CallId
  | .started place name _ _ => some (place, name)
  | .skipped place name => some (place, name)
  | _ => none

def FailedAround (moments : List Moment) (place : Position) : Prop :=
  ∃ e ∈ moments, ∃ block failure remaining index rest,
    e.happening = .branchFailed block failure remaining ∧ place = block ++ index :: rest

def Moment.ScopeCancelled (m : Moment) (before : List Moment) (place : Position) : Prop :=
  m.cancelled = true ∨ FailedAround before place

/-- Of the invocations that a run comes to, those are skipped whose scope is cancelled then. -/
def SkipsCancelled (moments : List Moment) : Prop :=
  ∀ before m after place name, moments = before ++ m :: after →
    m.happening.met? = some (place, name) →
      (m.happening = .skipped place name ↔ m.ScopeCancelled before place)

theorem SkipsCancelled.concat {moments : List Moment} (skips : SkipsCancelled moments) {last : Moment}
    (meets : ∀ place name, last.happening.met? = some (place, name) →
      (last.happening = .skipped place name ↔ last.ScopeCancelled moments place)) :
    SkipsCancelled (moments ++ [last]) := by
  intro before m after place name split met
  rcases split_concat split with ⟨rfl, rfl, -⟩ | ⟨rest, -, inside⟩
  · exact meets place name met
  · exact skips before m rest place name inside met

namespace World

variable {w w' : World}

def Doomed (w : World) (place : Position) : Prop := w.cancelled = true ∨ FailedAround w.moments place

theorem Doomed.settles {place : Position} (doomed : w.Doomed place) (settles : w.Settles w')
    (late : w.cancelled = true → w'.cancelled = true) : w'.Doomed place := by
  rcases doomed with token | ⟨e, mem, fails⟩
  · exact .inl (late token)
  · obtain ⟨-, later, grown, -⟩ := settles
    exact .inr ⟨e, grown ▸ List.mem_append_left _ mem, fails⟩

theorem Doomed.observe {place : Position} (doomed : w.Doomed place) (mode : FailureMode)
    (block : Position) (earlier : List Failure) (remaining : Nat) (failure : Failure) :
    (observe mode block earlier remaining failure w).Doomed place := by
  refine doomed.settles (.of_observe _ _ _ _ _ _) fun late => ?_
  rcases observe_notes mode block earlier remaining failure w with same | notes
  · rwa [same]
  · exact notes.cancelled.trans late

def Unbroken (w : World) : Prop := ∀ m ∈ w.moments, ¬ m.happening.Notes

theorem Unbroken.not_failedAround (unbroken : w.Unbroken) (place : Position) :
    ¬ FailedAround w.moments place := by
  rintro ⟨e, mem, block, failure, remaining, index, rest, fails, -⟩
  exact unbroken e mem (fails ▸ .branchFailed block failure remaining)

theorem Unbroken.concat (unbroken : w.Unbroken) {m : Moment} (grown : w'.moments = w.moments ++ [m])
    (call : ¬ m.happening.Notes) : w'.Unbroken := by
  intro e mem
  rw [grown] at mem
  rcases List.mem_append.1 mem with mem | mem
  · exact unbroken e mem
  · exact List.mem_singleton.1 mem ▸ call

/-- What happens is put down without a call that goes out or is skipped. -/
theorem skips_emit (skips : SkipsCancelled w.moments) {happening : Happening}
    (silent : happening.met? = none) : SkipsCancelled (w.emit happening).moments := by
  rw [moments_emit]
  refine skips.concat fun place name met => ?_
  cases silent.symm.trans met

theorem skips_skip (skips : SkipsCancelled w.moments) {place : Position} (doomed : w.Doomed place)
    (name : String) : SkipsCancelled (w.skip place name).moments := by
  have grown : (w.skip place name).moments = w.moments ++ [⟨w.toScene, .skipped place name⟩] :=
    moments_emit _ _
  rw [grown]
  refine skips.concat fun there other met => ?_
  cases met
  exact iff_of_true rfl doomed

theorem skips_notes (skips : SkipsCancelled w.moments) (notes : w.Notes w') :
    SkipsCancelled w'.moments := by
  obtain ⟨mid, entry, tells, rfl, noted⟩ := notes.emits
  cases tells
  cases noted with
  | branchFailed => exact skips_emit skips rfl
  | discarded => exact skips_emit skips rfl

theorem skips_observe (skips : SkipsCancelled w.moments) (mode : FailureMode) (place : Position)
    (earlier : List Failure) (remaining : Nat) (failure : Failure) :
    SkipsCancelled (observe mode place earlier remaining failure w).moments := by
  rcases observe_notes mode place earlier remaining failure w with same | notes
  · rwa [same]
  · exact skips_notes skips notes

end World

namespace Call

variable {setting : Setting} {call : Call} {w w' : World} {state : Call ⊕ Outcome}

theorem FailsBy.silent {entry : Happening} {failure : Failure} (fails : call.FailsBy entry failure) :
    entry.met? = none ∧ ¬ entry.Notes := by
  cases fails <;> exact ⟨rfl, nofun⟩

theorem Lands.skips (lands : call.Lands w w' state) (skips : SkipsCancelled w.moments) :
    SkipsCancelled w'.moments := by
  cases lands with
  | asleep => exact skips
  | completed output =>
    rw [moments_complete]
    exact skips.concat nofun
  | failed fails => exact World.skips_emit skips fails.silent.1

theorem Lands.unbroken (lands : call.Lands w w' state) (unbroken : w.Unbroken) : w'.Unbroken := by
  cases lands with
  | asleep => exact unbroken
  | completed output => exact unbroken.concat (call.moments_complete w output) nofun
  | failed fails => exact unbroken.concat (w.moments_emit _) fails.silent.2

end Call

namespace Part

mutual

theorem todo_below (part : Part) {place : Position} {site : Site} (mem : site ∈ part.todo place) :
    ∃ rest, site.1 = place ++ rest := by
  cases part with
  | ended | calling => exact absurd mem (Multiset.notMem_zero site)
  | unstarted invocation => exact ⟨[], Multiset.mem_singleton.1 mem ▸ (List.append_nil _).symm⟩
  | sequence index elements =>
    obtain ⟨i, rest, eq⟩ := todoFrom_below elements mem
    exact ⟨i :: rest, eq⟩
  | block branches failures =>
    obtain ⟨i, rest, eq⟩ := todoFrom_below branches mem
    exact ⟨i :: rest, eq⟩

theorem todoFrom_below (parts : List Part) {place : Position} {index : Nat} {site : Site}
    (mem : site ∈ todoFrom parts place index) : ∃ i rest, site.1 = place ++ i :: rest := by
  cases parts with
  | nil => exact absurd mem (Multiset.notMem_zero site)
  | cons part others =>
    rcases Multiset.mem_add.1 mem with mem | mem
    · obtain ⟨rest, eq⟩ := todo_below part mem
      exact ⟨index, rest, eq.trans (List.append_assoc _ _ _)⟩
    · exact todoFrom_below others mem

end

variable {setting : Setting} {part : Part} {place : Position} {w w' : World}

theorem Unwinds.skips {outcome : Outcome} (h : Unwinds setting part place w w' outcome)
    (doomed : ∀ site ∈ part.todo place, w.Doomed site.1) (skips : SkipsCancelled w.moments) :
    SkipsCancelled w'.moments := by
  induction h with
  | ended | finished | drained => exact skips
  | @skip invocation place w =>
    exact World.skips_skip skips (doomed (place, invocation) (Multiset.mem_singleton_self _)) _
  | call unwound =>
    obtain ⟨mid, entry, stirs, rfl, fails⟩ := Call.unwind_fails unwound
    exact World.skips_emit (stirs.moments ▸ skips) fails.silent.1
  | next fresh first others ih later =>
    refine later (fun site mem => ?_) (ih (fun site mem => ?_) skips)
    · exact (doomed site (Multiset.mem_add.2 (.inr mem))).settles first.settled first.late
    · exact doomed site (Multiset.mem_add.2 (.inl mem))
  | stop fresh first ih =>
    exact ih (fun site mem => doomed site (Multiset.mem_add.2 (.inl mem))) skips
  | @branchOk before after branch failures place w mid w' outcome fresh first others ih later =>
    rw [todo_block before branch after failures failures] at doomed
    refine later (fun site mem => ?_) (ih (fun site mem => ?_) skips)
    · exact (doomed site (Multiset.mem_add.2 (.inr mem))).settles first.settled first.late
    · exact doomed site (Multiset.mem_add.2 (.inl mem))
  | @branchFails before after branch failures place w mid w' outcome failure remaining fresh first
      others ih later =>
    rw [todo_block before branch after failures (failures ++ [failure])] at doomed
    refine later (fun site mem => ?_)
      (World.skips_observe (ih (fun site mem => ?_) skips) _ _ _ _ _)
    · exact ((doomed site (Multiset.mem_add.2 (.inr mem))).settles first.settled first.late).observe
        _ _ _ _ _
    · exact doomed site (Multiset.mem_add.2 (.inl mem))

-- In a live scope an invocation is skipped only by the caller's token. A block that fails reaches what
-- is below it and nothing else.
theorem Proceeds.skips {progress : Progress} (h : Proceeds setting part place w w' progress)
    (unbroken : w.Unbroken) (skips : SkipsCancelled w.moments) :
    SkipsCancelled w'.moments ∧ ((∀ failure, progress ≠ .ended (.error failure)) → w'.Unbroken) := by
  induction h with
  | ended | finished | rest => exact ⟨skips, fun _ => unbroken⟩
  | skip late => exact ⟨World.skips_skip skips (.inl late) _, fun well => absurd rfl (well _)⟩
  | @start invocation place w w' state live started =>
    obtain ⟨called, mid, stirs, lands⟩ := Call.start_lands started
    have sent := Call.moments_sent setting place invocation w
    have out : SkipsCancelled (Call.sent setting place invocation w).moments := by
      rw [sent]
      refine skips.concat fun there name met => ?_
      cases met
      refine iff_of_false nofun ?_
      rintro (token | failed)
      · cases live.symm.trans token
      · exact unbroken.not_failedAround place failed
    have still : (Call.sent setting place invocation w).Unbroken := unbroken.concat sent nofun
    have same : mid.moments = (Call.sent setting place invocation w).moments := stirs.moments
    refine ⟨lands.skips (same ▸ out), fun _ => lands.unbroken ?_⟩
    rw [World.Unbroken, same]
    exact still
  | resume resumed =>
    obtain ⟨mid, stirs, lands⟩ := Call.resume_lands resumed
    refine ⟨lands.skips (stirs.moments ▸ skips), fun _ => lands.unbroken ?_⟩
    rw [World.Unbroken, stirs.moments]
    exact unbroken
  | wait first ih =>
    obtain ⟨skips, unbroken⟩ := ih unbroken skips
    exact ⟨skips, fun _ => unbroken nofun⟩
  | next first others ih later =>
    obtain ⟨skips, unbroken⟩ := ih unbroken skips
    exact later (unbroken nofun) skips
  | stop first ih => exact ⟨(ih unbroken skips).1, fun well => absurd rfl (well _)⟩
  | branchWaits first others ih later =>
    obtain ⟨skips, unbroken⟩ := ih unbroken skips
    exact later (unbroken nofun) skips
  | branchOk first others ih later =>
    obtain ⟨skips, unbroken⟩ := ih unbroken skips
    exact later (unbroken nofun) skips
  | @branchFails before after branch place w mid w' outcome failure remaining first others ih =>
    obtain ⟨noted, -⟩ := ih unbroken skips
    refine ⟨others.skips (fun site mem => ?_) (World.skips_observe noted _ _ _ _ _), fun well => ?_⟩
    · obtain ⟨index, rest, below⟩ := todoFrom_below _ mem
      have last : (observe setting.mode place [] remaining failure mid).moments =
          mid.moments ++ [⟨mid.toScene, .branchFailed place failure remaining⟩] :=
        World.moments_emit _ _
      refine .inr ⟨⟨mid.toScene, .branchFailed place failure remaining⟩, ?_, place, failure, remaining,
        index, rest, rfl, below⟩
      exact last ▸ List.mem_append_right _ (List.mem_singleton_self _)
    · obtain ⟨last, rfl⟩ := others.fails_of_failure
      exact absurd rfl (well last)

theorem Finishes.skips {outcome : Outcome} (h : Finishes setting part w w' outcome)
    (unbroken : w.Unbroken) (skips : SkipsCancelled w.moments) : SkipsCancelled w'.moments := by
  induction h with
  | ended turn => exact (turn.skips unbroken skips).1
  | waits turn later ih =>
    obtain ⟨skips, unbroken⟩ := turn.skips unbroken skips
    exact ih (unbroken nofun) skips
  | cancelled busy unwound => exact unwound.skips (fun _ _ => .inl rfl) skips

end Part

/-- A run skips the invocations that it comes to when their scope is cancelled, and no others. -/
theorem Workflow.run_skips (workflow : Workflow) (setting : Setting) (cancellation : Cancellation)
    (called : List String) :
    SkipsCancelled (workflow.run setting cancellation called).moments := by
  obtain ⟨w, outcome, eq, finishes⟩ := workflow.run_finishes setting cancellation called
  have moments : (workflow.world called cancellation.before).moments =
      [⟨_, .workflowStarted workflow.id workflow.name workflow.seed.size⟩] := rfl
  have unbroken : (workflow.world called cancellation.before).Unbroken := by
    intro m mem
    rw [moments] at mem
    exact List.mem_singleton.1 mem ▸ nofun
  have none : SkipsCancelled [] := by
    intro before m after place name split
    cases (List.append_eq_nil_iff.1 split.symm).2
  have skips : SkipsCancelled (workflow.world called cancellation.before).moments := by
    rw [moments]
    exact none.concat nofun
  rw [eq, close_moments]
  refine (finishes.skips unbroken skips).concat fun place name met => ?_
  cases outcome <;> cases met

end FlowTree
