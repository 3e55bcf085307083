import FlowTree.Proofs.Run.Instants
import FlowTree.Proofs.Run.LineUp
import FlowTree.Proofs.Run.Waiting
import Mathlib.Data.List.MinMax
import Mathlib.Order.Nat

/-! A flat race in closed form. The lanes come to their ends in the order of their sleeps, and in list order
at one instant, up to the first that fails. What has completed by then is kept; what is left at that
instant ends by its failure or is dropped, and what is asleep is abandoned. A failure without a sleep
keeps the lanes after it from starting. -/

set_option autoImplicit false

namespace FlowTree

section

variable {setting : Setting} {seed : Store} {lanes : List Lane} {clock : Nat} {w : World}

namespace Lane

theorem sorted_atStart (sorted : lanes.Pairwise (·.index < ·.index)) :
    (lanes.filter (·.woken 0)).Pairwise Before := by
  refine (sorted.sublist List.filter_sublist).imp_of_mem fun left right lt => .inr ⟨?_, lt⟩
  have first := woken_iff.1 (List.mem_filter.1 left).2
  have second := woken_iff.1 (List.mem_filter.1 right).2
  omega

/-- Nothing has failed when the lanes have started that return at once. -/
theorem settled_atStart (ranked : Ranked lanes)
    (returns : ∀ l ∈ lanes, l.woken 0 = true → l.racer.failure? = none)
    (shown : w.sight = .atStart setting seed lanes) : Settled setting seed lanes 0 w where
  shown :=
    ⟨lanes.filter (·.woken 0), ⟨fun _ => List.mem_filter, sorted_atStart ranked.indices⟩, shown⟩
  returns := returns
  reached := .inl rfl

theorem lost_atStart {before : List Lane} {f : Lane} {failure : Failure} {later : List Failure}
    (ranked : Ranked (before ++ [f]))
    (returns : ∀ l ∈ before, l.woken 0 = true → l.racer.failure? = none)
    (awake : f.racer.delay = 0) (fails : f.racer.failure? = some failure)
    (none : later.filter (!·.isCancelled) = [])
    (shown : w.sight = .ofRace setting seed 0 (before ++ [f]) (before.filter (·.woken 0))
      (before.filter (!·.woken 0))) :
    Lost setting seed (before ++ [f]) f w (setting.mode.settle (failure :: later)) := by
  have own : f.woken 0 = true := woken_iff.2 (Nat.le_of_eq awake)
  obtain ⟨sorted, -, cross⟩ := List.pairwise_append.1 ranked.indices
  have earlier {l : Lane} (here : l ∈ before) : l.index < f.index :=
    cross l here f (List.mem_singleton_self f)
  constructor
  case mem => exact List.mem_append_right _ (List.mem_singleton_self f)
  case least =>
    intro l mem failing
    rw [awake]
    rcases List.mem_append.1 mem with here | here
    · refine .inl (Nat.pos_of_ne_zero fun zero => failing (returns l here ?_))
      exact woken_iff.2 (Nat.le_of_eq zero)
    · rw [List.mem_singleton.1 here]
      exact .inr ⟨awake.symm, Nat.le_refl _⟩
  case shown =>
    refine ⟨before.filter (·.woken 0), ⟨fun l => ?_, sorted_atStart sorted⟩, ?_⟩
    · rw [List.mem_filter, woken_iff, Before, awake, List.mem_append, List.mem_singleton]
      constructor
      · rintro ⟨here, woken⟩
        exact ⟨.inl here, .inr ⟨Nat.le_zero.1 woken, earlier here⟩⟩
      · rintro ⟨here | rfl, lt | ⟨zero, lt⟩⟩
        · exact absurd lt (Nat.not_lt_zero _)
        · exact ⟨here, Nat.le_of_eq zero⟩
        · exact absurd lt (Nat.not_lt_zero _)
        · exact absurd lt (Nat.lt_irrefl _)
    · rw [awake, List.filter_append, shown]
      simp [own]
  case fails =>
    refine ⟨failure, fails, ?_⟩
    rw [setting.mode.settle_report (Racer.not_cancelled fails), none, if_pos awake]

end Lane

inductive Lane.Decided (setting : Setting) (seed : Store) (racers : List Racer) (serial : Nat) :
    World × Outcome → Prop where
  | won {last : Nat} {w : World} (settled : Settled setting seed (lineUp racers 0 serial) last w)
    (all : ∀ l ∈ lineUp racers 0 serial, l.woken last = true) :
    Decided setting seed racers serial (w, .ok ())
  | lost {f : Lane} {w : World} {outcome : Outcome} {launched : List Racer}
    (launched_eq : launched = if f.racer.delay = 0 then racers.take (f.index + 1) else racers)
    (lost : Lost setting seed (lineUp launched 0 serial) f w outcome) :
    Decided setting seed racers serial (w, outcome)

namespace Machine

variable {racers : List Racer} {serial instant : Nat}

theorem Due.next_lanes {queue : List Nat} {handedBack : Bool} (now : w.clock = clock)
    (due : Due w (.block (Lane.tasks setting (·.woken clock) lanes) queue handedBack) instant) :
    Lane.Next lanes clock instant := by
  obtain ⟨⟨l, mem, -, ends⟩, least⟩ := Lane.first_of_tasks due.first
  exact ⟨now ▸ due.later, ⟨l, mem, ends⟩, least⟩

theorem ofBranches_lanes (setting : Setting) (clock : Nat) (lanes : List Lane) (handedBack : Bool) :
    (∀ l ∈ lanes, l.woken clock = true) ∧
        Progress.ofBranches (Lane.tasks setting (·.woken clock) lanes) [] handedBack = .ended (.ok ()) ∨
      Progress.ofBranches (Lane.tasks setting (·.woken clock) lanes) [] handedBack =
        .waiting (.block (Lane.tasks setting (·.woken clock) lanes) [] handedBack) := by
  unfold Progress.ofBranches
  rw [Lane.all_hasEnded]
  cases all : lanes.all (·.woken clock) with
  | true => exact .inl ⟨List.all_eq_true.1 all, rfl⟩
  | false => exact .inr rfl

/-- A poll of a settled race leaves it settled, or a lane decides it. -/
theorem GoesOn.decides {ready : Task} {handedBack : Bool} (ranked : Lane.Ranked lanes)
    (settled : Lane.Settled setting seed lanes clock w)
    (goes : GoesOn none w (.block (Lane.tasks setting (·.woken clock) lanes) [] handedBack) instant ready) :
    ∃ w' progress, ready.poll setting [] { w with clock := instant } = (w', progress) ∧
      ((∃ again, progress = .ofBranches (Lane.tasks setting (·.woken instant) lanes) [] again ∧
        Lane.Settled setting seed lanes instant w') ∨
      ∃ f outcome, progress = .ended outcome ∧ f.racer.delay ≠ 0 ∧
        Lane.Lost setting seed lanes f w' outcome) := by
  cases goes with
  | again =>
    -- A race that has handed back has nothing to poll.
    have calm : Task.Calm (Task.poll setting) (Lane.tasks setting (·.woken clock) lanes) [] :=
      ⟨.nil, nofun, nofun⟩
    obtain ⟨again, -, polled⟩ := Task.poll_calm [] calm handedBack w
    exact ⟨w, _, polled, .inl ⟨again, by rw [settled.clock_eq], settled.clock_eq.symm ▸ settled⟩⟩
  | fires due =>
    have next := due.next_lanes settled.clock_eq
    obtain ⟨w', progress, polled, settled | ⟨f, outcome, ended, ends, lost⟩⟩ :=
      settled.poll ranked next [] handedBack
    · exact ⟨w', progress, polled, .inl settled⟩
    · have late : f.racer.delay ≠ 0 := fun zero => absurd (ends ▸ next.later) (zero ▸ Nat.not_lt_zero _)
      exact ⟨w', progress, polled, .inr ⟨f, outcome, ended, late, lost⟩⟩

-- Each instant decides the race or leaves it settled at a later one.
theorem finish_decided (settled : Lane.Settled setting seed (lineUp racers 0 serial) clock w)
    {handedBack : Bool}
    (onTime : OnTime w (.block (Lane.tasks setting (·.woken clock) (lineUp racers 0 serial)) []
      handedBack)) :
    Lane.Decided setting seed racers serial (finish setting none w
      (.block (Lane.tasks setting (·.woken clock) (lineUp racers 0 serial)) [] handedBack)) := by
  have ranked := lineUp_ranked racers serial
  refine finish_induction (motive := fun w task result => ∀ clock handedBack,
    task = .block (Lane.tasks setting (·.woken clock) (lineUp racers 0 serial)) [] handedBack →
    Lane.Settled setting seed (lineUp racers 0 serial) clock w →
    Lane.Decided setting seed racers serial result) ?cut ?ended ?waits onTime clock handedBack rfl settled
  case cut => exact fun _ set => nomatch set
  case ended =>
    rintro w _ instant ready w' outcome goes polled clock handedBack rfl settled
    obtain ⟨mid, progress, went, ⟨again, rfl, settled⟩ | ⟨f, outcome, rfl, late, lost⟩⟩ :=
      goes.decides ranked settled
    · rw [went] at polled
      obtain ⟨rfl, ended⟩ := Prod.mk.inj polled
      rcases ofBranches_lanes setting instant (lineUp racers 0 serial) again with ⟨all, well⟩ | waits
      · cases ended.symm.trans well
        exact .won settled all
      · cases ended.symm.trans waits
    · cases went.symm.trans polled
      exact .lost (if_neg late).symm lost
  case waits =>
    rintro w _ instant ready mid task goes polled - ih clock handedBack rfl settled
    obtain ⟨mid, progress, went, ⟨again, rfl, settled⟩ | ⟨f, outcome, rfl, late, lost⟩⟩ :=
      goes.decides ranked settled
    · rw [went] at polled
      obtain ⟨rfl, waiting⟩ := Prod.mk.inj polled
      rcases ofBranches_lanes setting instant (lineUp racers 0 serial) again with ⟨all, well⟩ | waits
      · cases waiting.symm.trans well
      · cases waiting.symm.trans waits
        exact ih instant again rfl settled
    · cases went.symm.trans polled

theorem goOn_settles (runs : ∀ r ∈ racers, setting.host.Runs r)
    (bare : setting.host.enforcesTimeouts = false)
    (sound : ∀ r ∈ racers, r.delay = 0 → r.failure? = none)
    (shown : w.sight = .atStart setting seed []) :
    ∃ w', Lane.goOn setting [] (Racer.branches racers) w =
        (w', .left (Lane.tasks setting (·.woken 0) (lineUp racers 0 w.timers))) ∧
      Lane.Settled setting seed (lineUp racers 0 w.timers) 0 w' := by
  obtain ⟨w', launched, last⟩ := goOn_launches runs bare sound [] shown
  refine ⟨w', ?_, Lane.settled_atStart (lineUp_ranked racers w.timers) (fun l mem woken => ?_) last⟩
  · rw [List.append_nil, List.nil_append] at launched
    refine launched.trans ?_
    rw [Lane.goOn, Lane.midway, List.map_nil, List.append_nil]
    rfl
  · refine sound l.racer ?_ (Nat.le_zero.1 (Lane.woken_iff.1 woken))
    rw [← map_racer_lineUp racers 0 w.timers]
    exact List.mem_map_of_mem mem

theorem goOn_loses {before after : List Racer} {r : Racer} {failure : Failure}
    (runs : ∀ r' ∈ before ++ r :: after, setting.host.Runs r')
    (bare : setting.host.enforcesTimeouts = false)
    (sound : ∀ r ∈ before, r.delay = 0 → r.failure? = none) (awake : r.delay = 0)
    (fails : r.failure? = some failure) (shown : w.sight = .atStart setting seed []) :
    ∃ f w' outcome, Lane.goOn setting [] (Racer.branches (before ++ r :: after)) w =
        (w', .failed outcome) ∧ f.racer.delay = 0 ∧ f.index = before.length ∧
      Lane.Lost setting seed (lineUp (before ++ [r]) 0 w.timers) f w' outcome := by
  obtain ⟨serial, lined⟩ := lineUp_concat before r 0 w.timers
  let f : Lane := ⟨r, 0 + before.length, serial⟩
  obtain ⟨mid, launched, settled⟩ := goOn_launches
    (fun r' mem => runs r' (List.mem_append_left _ mem)) bare sound (Racer.branches (r :: after)) shown
  rw [List.nil_append] at launched settled
  have ranked := lineUp_ranked before w.timers
  have index : f.index = (lineUp before 0 w.timers).length := by
    rw [length_lineUp]
    exact Nat.zero_add _
  obtain ⟨w', later, fell, none, last⟩ := goOn_fails (f := f)
    (runs r (List.mem_append_right _ List.mem_cons_self)) awake fails after ranked index settled
  refine ⟨f, w', setting.mode.settle (failure :: later), ?_, awake, Nat.zero_add _, ?_⟩
  · rw [Racer.branches, List.map_append]
    exact launched.trans fell
  · rw [lined]
    refine Lane.lost_atStart (lined ▸ lineUp_ranked (before ++ [r]) w.timers) (fun l mem woken => ?_)
      awake fails none last
    refine sound l.racer ?_ (Nat.le_zero.1 (Lane.woken_iff.1 woken))
    rw [← map_racer_lineUp before 0 w.timers]
    exact List.mem_map_of_mem mem

/-- The first poll of a race lets its racers start in list order. -/
theorem next_race (setting : Setting) (racers : List Racer) (w : World) :
    ∃ handedBack, next setting none w (.fresh (.parallel (Racer.branches racers))) =
      ofProgress (Task.Pass.progress handedBack (Lane.goOn setting [] (Racer.branches racers) w)) := by
  have all : Task.pending (Lane.midway setting [] (Racer.branches racers)) =
      (Racer.branches racers).length := Task.pending_fresh _
  obtain ⟨handedBack, -, polled⟩ := Task.pollAll_calm [] (calm_racers setting racers) all w
  refine ⟨handedBack, (next_of_woken rfl).trans (congrArg ofProgress ?_)⟩
  rw [Task.poll_eq, Task.pollWith, Task.pollFresh, List.range_eq_range']
  exact polled

theorem run_decided (runs : ∀ r ∈ racers, setting.host.Runs r)
    (bare : setting.host.enforcesTimeouts = false) (shown : w.sight = .atStart setting seed []) :
    Lane.Decided setting seed racers w.timers
      (run setting none (.parallel (Racer.branches racers)) w) := by
  obtain ⟨handedBack, first⟩ := next_race setting racers w
  unfold run
  cases found : racers.find? fun r => decide (r.delay = 0) && r.failure?.isSome with
  | none =>
    have sound : ∀ r ∈ racers, r.delay = 0 → r.failure? = none := fun r mem => by
      simpa using List.find?_eq_none.1 found r mem
    obtain ⟨w', went, settled⟩ := goOn_settles runs bare sound shown
    rw [went, Task.Pass.progress] at first
    rcases ofBranches_lanes setting 0 (lineUp racers 0 w.timers) handedBack with ⟨all, well⟩ | waits
    · rw [well] at first
      rw [finish_of_ended first]
      exact .won settled all
    · rw [waits] at first
      obtain ⟨_, _, _, _, onTime⟩ := (onTime_fresh w _).next first
      rw [finish_of_waiting first]
      exact finish_decided settled onTime
  | some r =>
    obtain ⟨failing, before, after, rfl, sound⟩ := List.find?_eq_some_iff_append.1 found
    rw [Bool.and_eq_true, decide_eq_true_iff, Option.isSome_iff_exists] at failing
    obtain ⟨awake, failure, fails⟩ := failing
    obtain ⟨f, w', outcome, went, zero, index, lost⟩ := goOn_loses (w := w) runs bare
      (fun r mem zero => by simpa [zero] using sound r mem) awake fails shown
    rw [went] at first
    rw [finish_of_ended first]
    refine .lost ?_ lost
    rw [if_pos zero, index, List.append_cons before r after]
    exact (List.take_left' List.length_append).symm

end Machine

end

/-- The calls of a run that have completed: which they are, in which order, and what they have written. -/
def Run.Finishes (run : Run) (seed : Store) (racers : List Racer) (past : Nat → Racer → Prop) : Prop :=
  ∃ done : List Finish,
    (∀ f, f ∈ done ↔ racers[f.index]? = some f.racer ∧ f.racer.answer = .ok f.output ∧
      past f.index f.racer) ∧
    done.Pairwise Finish.Before ∧
    run.trace.completions = done.map Finish.happening ∧ run.store = done.foldl Finish.write seed

/-- How a flat race ends: every racer returns, or the racer at an index is the first that fails. -/
inductive Run.Races (run : Run) (setting : Setting) (seed : Store) (racers : List Racer) : Prop where
  | won (returns : ∀ r ∈ racers, r.failure? = none) (outcome : run.outcome = .ok ())
    (elapsed : run.elapsed = (racers.map (·.delay)).foldr max 0)
    (calls : run.trace.calls = racers.map (·.sent setting)) (abandoned : run.trace.abandoned = [])
    (finishes : run.Finishes seed racers fun _ _ => True)
  | lost {index : Nat} {first : Racer} {failure : Failure} {called : List Racer}
    {failures : List Failure} (found : racers[index]? = some first)
    (fails : first.failure? = some failure)
    (least : ∀ i r, racers[i]? = some r → r.failure? ≠ none →
      first.delay < r.delay ∨ first.delay = r.delay ∧ index ≤ i)
    (called_eq : called = if first.delay = 0 then racers.take (index + 1) else racers)
    (failures_eq : failures = if first.delay = 0 then [failure] else
      (racers.filter (·.delay = first.delay)).filterMap (·.failure?))
    (outcome : run.outcome = .error (setting.mode.report failure failures))
    (elapsed : run.elapsed = first.delay)
    (calls : run.trace.calls = called.map (·.sent setting))
    (abandoned : run.trace.abandoned = (called.filter (first.delay < ·.delay)).map (·.name))
    (finishes : run.Finishes seed racers fun i r =>
      r.delay < first.delay ∨ r.delay = first.delay ∧ i < index)

theorem foldr_max_eq {values : List Nat} {greatest : Nat} (le : ∀ n ∈ values, n ≤ greatest)
    (reached : greatest = 0 ∨ greatest ∈ values) : values.foldr max 0 = greatest := by
  refine Nat.le_antisymm (List.max_le_of_forall_le values greatest le) ?_
  rcases reached with rfl | mem
  · exact Nat.zero_le _
  · exact List.le_max_of_le mem (Nat.le_refl _)

section

variable {racers launched : List Racer} {serial : Nat}

theorem mem_lineUp_iff (serial : Nat) {i : Nat} {r : Racer} :
    (∃ l ∈ lineUp racers 0 serial, l.index = i ∧ l.racer = r) ↔ racers[i]? = some r := by
  have ranked := lineUp_ranked racers serial
  constructor
  · rintro ⟨l, mem, rfl, rfl⟩
    rw [← getElem?_lineUp racers 0 serial, ranked.at_index mem]
    rfl
  · intro found
    rw [← getElem?_lineUp racers 0 serial, Option.map_eq_some_iff] at found
    obtain ⟨l, at_i, rfl⟩ := found
    exact ⟨l, List.mem_of_getElem? at_i, ranked.index at_i, rfl⟩

theorem racer_mem {l : Lane} (mem : l ∈ lineUp racers 0 serial) : l.racer ∈ racers :=
  List.mem_of_getElem? ((mem_lineUp_iff serial).1 ⟨l, mem, rfl, rfl⟩)

variable {setting : Setting} {seed : Store} {clock : Nat} {w : World} {outcome : Outcome}

namespace Workflow

theorem sight_close (w : World) (outcome : Outcome) : (w.emit (closing outcome)).sight = w.sight := by
  cases outcome <;> exact w.sight_emit _

theorem close_finishes {done abandoned : List Lane} {past : Nat → Racer → Prop}
    (completed : Lane.Completed (lineUp launched 0 serial) done fun l => past l.index l.racer)
    (shown : w.sight = .ofRace setting seed clock (lineUp launched 0 serial) done abandoned)
    (all : ∀ i r, past i r → (launched[i]? = some r ↔ racers[i]? = some r)) (outcome : Outcome) :
    (close w outcome).Finishes seed racers past := by
  have seen := (sight_close w outcome).trans shown
  refine ⟨done.filterMap Lane.finish?, fun f => ?_, ?_, congrArg Sight.completions seen,
    congrArg Sight.store seen⟩
  · rw [List.mem_filterMap]
    constructor
    · rintro ⟨l, here, finish⟩
      obtain ⟨mem, passed⟩ := (completed.mem_iff l).1 here
      obtain ⟨index, racer, answer⟩ := Lane.finish?_eq_some.1 finish
      rw [← index, ← racer] at passed
      rw [← racer] at answer
      have found := (mem_lineUp_iff serial).1 ⟨l, mem, index.symm, racer.symm⟩
      exact ⟨(all _ _ passed).1 found, answer, passed⟩
    · rintro ⟨found, answer, passed⟩
      obtain ⟨l, mem, index, racer⟩ :=
        (mem_lineUp_iff serial).2 ((all _ _ passed).2 found)
      rw [← index, ← racer] at passed
      rw [← racer] at answer
      exact ⟨l, (completed.mem_iff l).2 ⟨mem, passed⟩,
        Lane.finish?_eq_some.2 ⟨index.symm, racer.symm, answer⟩⟩
  · refine completed.sorted.filterMap _ fun l m before f found g other => ?_
    obtain ⟨index, racer, -⟩ := Lane.finish?_eq_some.1 found
    obtain ⟨index', racer', -⟩ := Lane.finish?_eq_some.1 other
    rw [Finish.Before, index, racer, index', racer']
    exact before

theorem close_won {last : Nat}
    (settled : Lane.Settled setting seed (lineUp racers 0 serial) last w)
    (all : ∀ l ∈ lineUp racers 0 serial, l.woken last = true) :
    (close w (.ok ())).Races setting seed racers := by
  obtain ⟨done, completed, shown⟩ := settled.shown
  have seen := (sight_close w (.ok ())).trans shown
  have lane {r : Racer} (mem : r ∈ racers) : ∃ l ∈ lineUp racers 0 serial, l.racer = r := by
    rwa [← List.mem_map, map_racer_lineUp]
  refine .won (fun r mem => ?_) rfl ?_ ?_ (congrArg Sight.abandoned seen)
    (close_finishes ⟨fun l => ?_, completed.sorted⟩ shown (fun _ _ _ => Iff.rfl) (.ok ()))
  · obtain ⟨l, here, rfl⟩ := lane mem
    exact settled.returns l here (all l here)
  · have greatest : (racers.map (·.delay)).foldr max 0 = last := by
      refine foldr_max_eq (fun n mem => ?_) (settled.reached.imp_right fun ⟨l, here, eq⟩ => ?_)
      · obtain ⟨r, there, rfl⟩ := List.mem_map.1 mem
        obtain ⟨l, here, rfl⟩ := lane there
        exact Lane.woken_iff.1 (all l here)
      · exact List.mem_map.2 ⟨l.racer, racer_mem here, eq⟩
    exact (congrArg Sight.clock seen).trans greatest.symm
  · refine (congrArg Sight.calls seen).trans ?_
    exact map_lineUp (·.sent setting)
  · rw [completed.mem_iff]
    exact and_congr_right fun mem => iff_true_intro (all l mem)

theorem close_lost {f : Lane} {launched : List Racer}
    (launched_eq : launched = if f.racer.delay = 0 then racers.take (f.index + 1) else racers)
    (lost : Lane.Lost setting seed (lineUp launched 0 serial) f w outcome) :
    (close w outcome).Races setting seed racers := by
  obtain ⟨done, completed, shown⟩ := lost.shown
  obtain ⟨failure, fails, outcome_eq⟩ := lost.fails
  have seen := (sight_close w outcome).trans shown
  -- The racers that are called stand where they stand among all.
  have within {i : Nat} {r : Racer} (found : launched[i]? = some r) : racers[i]? = some r := by
    rw [launched_eq] at found
    split at found
    · rw [List.getElem?_take] at found
      split at found
      · exact found
      · cases found
    · exact found
  have reached {i : Nat} {r : Racer} (found : racers[i]? = some r)
      (past : f.racer.delay = 0 → i ≤ f.index) : launched[i]? = some r := by
    rw [launched_eq]
    split
    · next zero => rw [List.getElem?_take_of_lt (Nat.lt_succ_of_le (past zero))]; exact found
    · exact found
  refine .lost (within ((mem_lineUp_iff serial).1 ⟨f, lost.mem, rfl, rfl⟩)) fails ?_ launched_eq rfl
    ?_ (congrArg Sight.clock seen) ?_ ?_ (close_finishes completed shown ?_ outcome)
  · intro i r found failing
    by_cases past : f.racer.delay = 0 → i ≤ f.index
    · obtain ⟨l, mem, rfl, rfl⟩ := (mem_lineUp_iff serial).2 (reached found past)
      exact lost.least l mem failing
    · obtain ⟨zero, lt⟩ := Classical.not_imp.1 past
      rw [zero, eq_comm, ← Nat.le_zero]
      omega
  · refine outcome_eq.trans ?_
    by_cases zero : f.racer.delay = 0
    · rw [if_pos zero, if_pos zero]
    · rw [if_neg zero] at launched_eq
      rw [if_neg zero, if_neg zero, ← launched_eq,
        ← filter_lineUp 0 serial (fun r : Racer => r.delay = f.racer.delay), List.filterMap_map]
      rfl
  · exact (congrArg Sight.calls seen).trans (map_lineUp (·.sent setting))
  · refine (congrArg Sight.abandoned seen).trans ?_
    have asleep : (lineUp launched 0 serial).filter (!·.woken f.racer.delay) =
        (lineUp launched 0 serial).filter fun l => f.racer.delay < l.racer.delay :=
      List.filter_congr fun l _ => by rw [Lane.woken, ← decide_not, decide_eq_decide, Nat.not_le]
    rw [asleep, ← filter_lineUp 0 serial (fun r : Racer => f.racer.delay < r.delay)]
    exact List.map_map.symm
  · intro i r past
    refine ⟨within, fun found => reached found fun zero => ?_⟩
    rcases past with lt | ⟨-, lt⟩
    · exact absurd lt (zero ▸ Nat.not_lt_zero _)
    · exact Nat.le_of_lt lt

/-- The observable behaviour of a flat race on a host that leaves calls their time, whatever has been
called on it before, is that of its closed form. -/
theorem run_races (workflow : Workflow) (setting : Setting) (called : List String) (racers : List Racer)
    (root : workflow.root = .parallel (Racer.branches racers))
    (bare : setting.host.enforcesTimeouts = false) (runs : ∀ r ∈ racers, setting.host.Runs r) :
    (workflow.run setting {} called).Races setting workflow.seed racers := by
  have shown : (workflow.world called false).sight = .atStart setting workflow.seed [] :=
    World.sight_emit _ _
  have decided := Machine.run_decided runs bare shown
  rw [← root] at decided
  have ran : workflow.run setting {} called =
      close (Machine.run setting none workflow.root (workflow.world called false)).1
        (Machine.run setting none workflow.root (workflow.world called false)).2 := rfl
  rw [ran]
  generalize Machine.run setting none workflow.root (workflow.world called false) = result at decided ⊢
  cases decided with
  | won settled all => exact close_won settled all
  | lost launched_eq lost => exact close_lost launched_eq lost

def heat : List Racer := [
  { name := "steady", result := some "x", delay := 3, answer := .ok "1" },
  { name := "faulty", delay := 3, answer := .error "no" },
  { name := "late", delay := 5, answer := .ok "2" }]

def race : Workflow := .ofTree .empty (.parallel (Racer.branches heat))

def track : Setting where
  host := ⟨heat.map fun r => (r.name, .scripted [r.script]), false⟩

theorem heat_races : track.host.enforcesTimeouts = false ∧ (∀ r ∈ heat, track.host.Runs r) ∧
    (race.run track {} []).Races track .empty heat ∧ (race.run track {} []).elapsed = 3 := by
  have runs : ∀ r ∈ heat, track.host.Runs r := by
    intro r mem
    simp only [heat, List.mem_cons, List.not_mem_nil, or_false] at mem
    rcases mem with rfl | rfl | rfl <;>
      exact ⟨.scripted [_], rfl, fun earlier => by cases earlier <;> rfl⟩
  have races := run_races race track [] heat rfl rfl runs
  refine ⟨rfl, runs, races, ?_⟩
  cases races with
  | won returns => exact absurd (returns _ (List.mem_cons_of_mem _ List.mem_cons_self)) nofun
  | lost found fails _ _ _ _ elapsed =>
    have mem := List.mem_of_getElem? found
    simp only [heat, List.mem_cons, List.not_mem_nil, or_false] at mem
    rcases mem with rfl | rfl | rfl
    · cases fails
    · exact elapsed
    · cases fails

end Workflow

end

end FlowTree
