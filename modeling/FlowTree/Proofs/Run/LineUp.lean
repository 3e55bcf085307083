import FlowTree.Proofs.Run.LaneBlocks

/-! The start of a flat race. Its racers start in list order and get their lanes; a racer that sleeps for
no time ends at once, and if it fails, the racers after it do not start. -/

set_option autoImplicit false

namespace FlowTree

def lineUp : List Racer → Nat → Nat → List Lane
  | [], _, _ => []
  | r :: rest, index, serial =>
    ⟨r, index, serial⟩ :: lineUp rest (index + 1) (if r.delay = 0 then serial else serial + 1)

section

variable {racers : List Racer} {index serial k : Nat} {l : Lane}

theorem map_racer_lineUp (racers : List Racer) (index serial : Nat) :
    (lineUp racers index serial).map (·.racer) = racers := by
  induction racers generalizing index serial with
  | nil => rfl
  | cons r rest ih => rw [lineUp, List.map_cons, ih]

theorem index_lineUp (found : (lineUp racers index serial)[k]? = some l) : l.index = index + k := by
  induction racers generalizing index serial k with
  | nil => cases found
  | cons r rest ih =>
    cases k with
    | zero => cases found; rfl
    | succ k => rw [ih found]; omega

theorem serial_le_of_mem_lineUp (mem : l ∈ lineUp racers index serial) : serial ≤ l.serial := by
  induction racers generalizing index serial with
  | nil => cases mem
  | cons r rest ih =>
    rcases List.mem_cons.1 mem with rfl | mem
    · exact Nat.le_refl serial
    · have := ih mem
      split at this <;> omega

theorem lineUp_ranked (racers : List Racer) (serial : Nat) : Lane.Ranked (lineUp racers 0 serial) where
  index found := (index_lineUp found).trans (Nat.zero_add _)
  serials := by
    have sorted (index : Nat) : (lineUp racers index serial).Pairwise (·.serial ≤ ·.serial) := by
      induction racers generalizing index serial with
      | nil => exact .nil
      | cons r rest ih =>
        refine .cons (fun l mem => ?_) (ih _ _)
        have := serial_le_of_mem_lineUp mem
        simp only
        split at this <;> omega
    exact sorted 0

theorem lineUp_concat (racers : List Racer) (r : Racer) (index serial : Nat) :
    ∃ last, lineUp (racers ++ [r]) index serial =
      lineUp racers index serial ++ [⟨r, index + racers.length, last⟩] := by
  induction racers generalizing index serial with
  | nil => exact ⟨serial, rfl⟩
  | cons first rest ih =>
    obtain ⟨last, eq⟩ := ih (index + 1) (if first.delay = 0 then serial else serial + 1)
    refine ⟨last, ?_⟩
    rw [List.cons_append, lineUp, eq, lineUp, List.cons_append, List.length_cons,
      Nat.add_assoc, Nat.add_comm 1]

theorem map_lineUp {α : Type} (view : Racer → α) :
    (lineUp racers index serial).map (fun l => view l.racer) = racers.map view := by
  rw [← map_racer_lineUp racers index serial, List.map_map, map_racer_lineUp]
  rfl

theorem filter_lineUp (index serial : Nat) (test : Racer → Bool) :
    ((lineUp racers index serial).filter fun l => test l.racer).map (·.racer) =
      racers.filter test := by
  conv => rhs; rw [← map_racer_lineUp racers index serial, List.filter_map]
  rfl

theorem length_lineUp (racers : List Racer) (index serial : Nat) :
    (lineUp racers index serial).length = racers.length := by
  rw [← List.length_map, map_racer_lineUp]

theorem getElem?_lineUp (racers : List Racer) (index serial k : Nat) :
    (lineUp racers index serial)[k]?.map (·.racer) = racers[k]? := by
  rw [← List.getElem?_map, map_racer_lineUp]

end

section

variable {setting : Setting} {seed : Store} {w : World}

def Racer.branches (racers : List Racer) : List Statement :=
  racers.map fun r => .invocation r.invocation

def Sight.atStart (setting : Setting) (seed : Store) (started : List Lane) : Sight :=
  .ofRace setting seed 0 started (started.filter (·.woken 0)) []

theorem Sight.called_atStart {started : List Lane} (l : Lane)
    (shown : w.sight = atStart setting seed started) :
    { w.sight with calls := w.sight.calls ++ [l.racer.sent setting] } =
      ofRace setting seed 0 (started ++ [l]) (started.filter (·.woken 0)) [] := by
  rw [shown]
  simp [atStart, ofRace]

/-- A block of which some lanes have started and some branches have not. -/
def Lane.midway (setting : Setting) (before : List Lane) (rest : List Statement) : List Task :=
  Lane.tasks setting (·.woken 0) before ++ rest.map .fresh

theorem Lane.getD_midway {before : List Lane} (s : Statement) (rest : List Statement) :
    (midway setting before (s :: rest)).getD before.length .ended = .fresh s := by
  simp [midway, tasks]

theorem Lane.set_midway {before : List Lane} {l : Lane} (s : Statement) (rest : List Statement) :
    (midway setting before (s :: rest)).set before.length (l.task setting (l.woken 0)) =
      midway setting (before ++ [l]) rest := by
  simp [midway, tasks]

/-- Lets the branches go on that are left after some lanes have started. -/
def Lane.goOn (setting : Setting) (before : List Lane) (rest : List Statement) (w : World) :
    World × Task.Pass :=
  Task.passAll setting (Task.poll setting) [] (midway setting before rest)
    (List.range' before.length rest.length) w

theorem goOn_joins {l : Lane} (runs : setting.host.Runs l.racer)
    (bare : setting.host.enforcesTimeouts = false)
    (sound : l.racer.delay = 0 → l.racer.failure? = none) (rest : List Statement)
    {before : List Lane} (index : l.index = before.length) (serial : l.serial = w.timers)
    (shown : w.sight = .atStart setting seed before) :
    ∃ w', Lane.goOn setting before (.invocation l.racer.invocation :: rest) w =
        Lane.goOn setting (before ++ [l]) rest w' ∧
      w'.sight = .atStart setting seed (before ++ [l]) ∧
      w'.timers = if l.racer.delay = 0 then w.timers else w.timers + 1 := by
  have live : w.cancelled = false := congrArg Sight.cancelled shown
  have now : w.clock = 0 := congrArg Sight.clock shown
  have size : (before ++ [l]).length = before.length + 1 := List.length_append
  unfold Lane.goOn
  rw [List.length_cons, List.range'_succ, Task.passAll, Lane.getD_midway, List.nil_append, ← index]
  by_cases awake : l.racer.delay = 0
  · have woken : l.woken 0 = true := Lane.woken_iff.2 (Nat.le_of_eq awake)
    have ended : l.racer.outcome = .ok () := by rw [Racer.outcome, sound awake]
    obtain ⟨w', started, settled, timers⟩ := Lane.start_at_once runs live awake
    have task : l.task setting (l.woken 0) = .ended := by rw [woken]; rfl
    refine ⟨w', ?_, ?_, timers.trans (if_pos awake).symm⟩
    · rw [started, ended]
      simp only
      rw [← task, index, Lane.set_midway, size]
    · rw [settled, Sight.called_atStart l shown, Sight.settle_ofRace]
      simp [Sight.atStart, woken]
  · have woken : l.woken 0 = false := Bool.eq_false_iff.2 fun woken =>
      awake (Nat.le_zero.1 (Lane.woken_iff.1 woken))
    obtain ⟨w', started, settled, timers⟩ := Lane.start_asleep runs bare live now serial awake
    refine ⟨w', ?_, ?_, timers.trans (if_neg awake).symm⟩
    · rw [started]
      simp only
      rw [← woken, index, Lane.set_midway, size]
    · rw [settled, Sight.called_atStart l shown]
      simp [Sight.atStart, woken]

/-- An invocation that starts and waits is a call in flight. -/
theorem calm_racers (setting : Setting) (racers : List Racer) :
    Task.Calm (Task.poll setting) (Lane.midway setting [] (Racer.branches racers))
      (List.range' 0 (Racer.branches racers).length) := by
  have found (i : Nat) (mem : i ∈ List.range' 0 (Racer.branches racers).length) :
      ∃ call, (Lane.midway setting [] (Racer.branches racers)).getD i .ended =
        .fresh (.invocation call) := by
    obtain ⟨-, less⟩ := List.mem_range'_1.1 mem
    rw [Racer.branches, List.length_map, Nat.zero_add] at less
    refine ⟨racers[i].invocation, ?_⟩
    simp [Lane.midway, Lane.tasks, Racer.branches, less]
  refine ⟨List.nodup_range', fun i mem => ?_, fun i mem place w w' task polled => ?_⟩ <;>
    obtain ⟨call, eq⟩ := found i mem
  · rw [eq]
    rfl
  · rw [eq] at polled
    have shown := Task.poll_polls polled
    generalize waits : Progress.waiting task = progress at shown
    cases shown with
    | skip => cases waits
    | @start _ _ _ _ state =>
      rcases state with call | outcome <;> cases waits
      exact ⟨rfl, rfl⟩

-- The racers start in list order; `before` are the lanes that have started.
theorem goOn_launches {racers : List Racer} (runs : ∀ r ∈ racers, setting.host.Runs r)
    (bare : setting.host.enforcesTimeouts = false)
    (sound : ∀ r ∈ racers, r.delay = 0 → r.failure? = none) (rest : List Statement)
    {before : List Lane} (shown : w.sight = .atStart setting seed before) :
    ∃ w', Lane.goOn setting before (Racer.branches racers ++ rest) w =
      Lane.goOn setting (before ++ lineUp racers before.length w.timers) rest w' ∧
      w'.sight = .atStart setting seed (before ++ lineUp racers before.length w.timers) := by
  induction racers generalizing before w with
  | nil => exact ⟨w, by simp [Racer.branches, lineUp], by simpa [lineUp] using shown⟩
  | cons r racers ih =>
    let l : Lane := ⟨r, before.length, w.timers⟩
    obtain ⟨mid, joined, settled, timers⟩ := goOn_joins (l := l)
      (runs r List.mem_cons_self) bare (sound r List.mem_cons_self)
      (Racer.branches racers ++ rest) rfl rfl shown
    obtain ⟨w', launched, last⟩ := ih (fun r mem => runs r (List.mem_cons_of_mem _ mem))
      (fun r mem => sound r (List.mem_cons_of_mem _ mem)) settled
    have lined : before ++ [l] ++ lineUp racers (before ++ [l]).length mid.timers =
        before ++ lineUp (r :: racers) before.length w.timers := by
      rw [List.length_append, List.length_singleton, timers, List.append_assoc, lineUp]
      rfl
    rw [lined] at launched last
    exact ⟨w', joined.trans launched, last⟩

theorem skipBranches_racers (mode : FailureMode) (racers : List Racer) (index : Nat)
    (failures : List Failure) (w : World) :
    ∃ w', Statement.skipBranches mode (Racer.branches racers) [] index failures w =
        (w', failures ++ List.replicate racers.length .cancelled) ∧ w'.sight = w.sight := by
  induction racers generalizing index failures w with
  | nil => exact ⟨w, by simp [Racer.branches, Statement.skipBranches], rfl⟩
  | cons r racers ih =>
    let mid := observe mode [] failures (Racer.branches racers).length .cancelled
      (w.skip [index] r.name)
    have quiet : mid.sight = w.sight := (sight_observe ..).trans (World.sight_emit _ _)
    obtain ⟨w', skipped, last⟩ := ih (index + 1) (failures ++ [.cancelled]) mid
    refine ⟨w', ?_, last.trans quiet⟩
    have step : Statement.skipBranches mode (Racer.branches (r :: racers)) [] index failures w =
        Statement.skipBranches mode (Racer.branches racers) [] (index + 1) (failures ++ [.cancelled])
          mid := rfl
    rw [step, skipped, List.append_assoc, List.singleton_append, List.length_cons,
      List.replicate_succ]

/-- The end of a block at the start of which a lane has failed: the lanes before it that are asleep are
abandoned, and those after it are skipped. -/
theorem collapse_midway {before : List Lane} (ranked : Lane.Ranked before) (rest : List Racer)
    (queue : List Nat) (failures : List Failure) {called done : List Lane}
    (shown : w.sight = .ofRace setting seed 0 called done []) :
    ∃ w' later, Task.collapse setting
        (Lane.tasks setting (·.woken 0) before ++ .ended :: (Racer.branches rest).map .fresh) queue []
        failures w = (w', setting.mode.settle (failures ++ later)) ∧
      later.filter (!·.isCancelled) = [] ∧
      w'.sight = .ofRace setting seed 0 called done (before.filter (!·.woken 0)) := by
  let asleep := before.filter (!·.woken 0)
  let fresh := Task.unwindings setting ((Racer.branches rest).map .fresh) 0 [] (before.length + 1)
  have now : w.clock = 0 := congrArg Sight.clock shown
  have waits : ∀ l ∈ asleep, l.woken 0 = false := fun l mem => by
    simpa using (List.mem_filter.1 mem).2
  have left : Task.unwindings setting
      (Lane.tasks setting (·.woken 0) before ++ .ended :: (Racer.branches rest).map .fresh) w.clock [] 0 =
        asleep.map (Lane.unwinding setting 0) ++ fresh := by
    have size : (Lane.tasks setting (·.woken 0) before).length = before.length := List.length_map _
    rw [now, Task.unwindings_append, size, Nat.zero_add,
      Lane.unwindings_tasks 0 0 fun k l found => (ranked.index found).trans (Nat.zero_add k).symm]
    rfl
  have calm : ∀ b ∈ asleep.map (Lane.unwinding setting 0) ++ fresh, b.due = false := by
    intro b mem
    rcases List.mem_append.1 mem with mem | mem
    · obtain ⟨l, here, rfl⟩ := List.mem_map.1 mem
      exact waits l here
    · exact Task.unwindings_fresh _ _ _ _ b mem
  obtain ⟨past, dropped, quiet⟩ := Lane.runAll_drops asleep fresh failures shown
  obtain ⟨w', skipped, last⟩ := skipBranches_racers setting.mode rest (before.length + 1)
    (failures ++ asleep.map (Lane.dropped 0)) past
  refine ⟨w', asleep.map (Lane.dropped 0) ++ List.replicate rest.length .cancelled, ?_, ?_, ?_⟩
  · rw [Task.collapse, left, Task.inTurn_calm _ calm, dropped, Task.runAll_fresh, skipped,
      List.append_assoc]
  · have none : asleep.filter (·.woken 0) = [] := List.filter_eq_nil_iff.2 fun l mem => by simp [waits l mem]
    rw [List.filter_append, Lane.filter_dropped, none, List.filterMap_nil, List.nil_append]
    exact List.filter_eq_nil_iff.2 fun other mem => by
      rw [(List.mem_replicate.1 mem).2]
      exact Bool.false_ne_true
  · rw [last, quiet, List.nil_append, List.filter_filter]
    simp only [Bool.and_self]

theorem goOn_fails {f : Lane} (runs : setting.host.Runs f.racer)
    (awake : f.racer.delay = 0) {failure : Failure} (fails : f.racer.failure? = some failure)
    (rest : List Racer) {before : List Lane} (ranked : Lane.Ranked before)
    (index : f.index = before.length) (shown : w.sight = .atStart setting seed before) :
    ∃ w' later, Lane.goOn setting before (Racer.branches (f.racer :: rest)) w =
      (w', .failed (setting.mode.settle (failure :: later))) ∧
      later.filter (!·.isCancelled) = [] ∧
      w'.sight = .ofRace setting seed 0 (before ++ [f]) (before.filter (·.woken 0))
        (before.filter (!·.woken 0)) := by
  have live : w.cancelled = false := congrArg Sight.cancelled shown
  obtain ⟨mid, started, settled, -⟩ := Lane.start_at_once runs live awake
  have ended : f.racer.outcome = .error failure := by rw [Racer.outcome, fails]
  rw [Sight.called_atStart f shown, Sight.settle, Lane.finish?_eq_none fails] at settled
  let branches := Lane.tasks setting (·.woken 0) before ++ .ended :: (Racer.branches rest).map .fresh
  have observed := (sight_observe setting.mode [] [] (Task.pending branches) failure mid).trans settled
  obtain ⟨w', later, collapsed, none, last⟩ := collapse_midway ranked rest
    (List.range' (before.length + 1) (Racer.branches rest).length) [failure] observed
  refine ⟨w', later, ?_, none, last⟩
  have here : (Lane.midway setting before (Racer.branches (f.racer :: rest))).getD before.length .ended =
      .fresh (.invocation f.racer.invocation) := Lane.getD_midway _ _
  have left : (Lane.midway setting before (Racer.branches (f.racer :: rest))).set before.length .ended =
      branches := by simp [Lane.midway, Lane.tasks, Racer.branches, branches]
  have size : (Racer.branches (f.racer :: rest)).length = (Racer.branches rest).length + 1 := rfl
  rw [Lane.goOn, size, List.range'_succ, Task.passAll, here, left, List.nil_append, ← index, started, ended,
    index]
  simp only [Task.failAll, branches, collapsed]
  rfl

end

end FlowTree
