import FlowTree.Proofs.Run.LaneBlocks

/-! The instants of a flat race. At each instant at which a sleep ends the lanes whose sleeps end go on in
list order. The race is settled again when all of them return; the first of them that fails brings it to
its end, with the failures of the lanes after it at this instant, and abandons the lanes that are asleep. -/

set_option autoImplicit false

namespace FlowTree

def Failure.unite : List Failure → Failure
  | [only] => only
  | several => .parallel several

def FailureMode.report (mode : FailureMode) (first : Failure) (all : List Failure) : Failure :=
  match mode with
  | .firstObserved => first
  | .aggregate => .unite all

theorem FailureMode.settle_report (mode : FailureMode) {first : Failure} {later : List Failure}
    (genuine : first.isCancelled = false) : mode.settle (first :: later) =
      .error (mode.report first (first :: later.filter (!·.isCancelled))) := by
  cases mode with
  | firstObserved => rfl
  | aggregate =>
    have kept : (first :: later).filter (!·.isCancelled) =
        first :: later.filter (!·.isCancelled) := by simp [genuine]
    rw [settle, join, kept]
    cases later.filter (!·.isCancelled) <;> rfl

section

variable {setting : Setting} {seed : Store} {lanes : List Lane} {clock : Nat} {w : World}
  {outcome : Outcome}

structure Lane.Completed (lanes done : List Lane) (past : Lane → Prop) : Prop where
  mem_iff : ∀ l, l ∈ done ↔ l ∈ lanes ∧ past l
  sorted : done.Pairwise Before

structure Lane.Settled (setting : Setting) (seed : Store) (lanes : List Lane) (clock : Nat)
    (w : World) : Prop where
  shown : ∃ done, Completed lanes done (·.woken clock = true) ∧
    w.sight = .ofRace setting seed clock lanes done []
  returns : ∀ l ∈ lanes, l.woken clock = true → l.racer.failure? = none
  reached : clock = 0 ∨ ∃ l ∈ lanes, l.racer.delay = clock

theorem Lane.Settled.clock_eq (settled : Settled setting seed lanes clock w) : w.clock = clock := by
  obtain ⟨done, -, shown⟩ := settled.shown
  exact congrArg Sight.clock shown

/-- A race that has come to its end by the failure of a lane. -/
structure Lane.Lost (setting : Setting) (seed : Store) (lanes : List Lane) (f : Lane) (w : World)
    (outcome : Outcome) : Prop where
  mem : f ∈ lanes
  least : ∀ l ∈ lanes, l.racer.failure? ≠ none →
    f.racer.delay < l.racer.delay ∨ f.racer.delay = l.racer.delay ∧ f.index ≤ l.index
  shown : ∃ done, Completed lanes done (·.Before f) ∧
    w.sight = .ofRace setting seed f.racer.delay lanes done (lanes.filter (!·.woken f.racer.delay))
  fails : ∃ failure, f.racer.failure? = some failure ∧
    outcome = .error (setting.mode.report failure (if f.racer.delay = 0 then [failure] else
      (lanes.filter (·.racer.delay = f.racer.delay)).filterMap (·.racer.failure?)))

namespace Lane

def due (instant : Nat) (lanes : List Lane) : List Lane :=
  lanes.filter (·.racer.delay = instant)

theorem mem_due {instant : Nat} {l : Lane} :
    l ∈ due instant lanes ↔ l ∈ lanes ∧ l.racer.delay = instant := by
  rw [due, List.mem_filter, decide_eq_true_iff]

structure Next (lanes : List Lane) (clock instant : Nat) : Prop where
  later : clock < instant
  found : ∃ l ∈ lanes, l.racer.delay = instant
  least : ∀ l ∈ lanes, l.woken clock = false → instant ≤ l.racer.delay

variable {instant : Nat}

/-- The sleeps that are over are those that end before the next instant. -/
theorem Next.woken_iff_lt (next : Next lanes clock instant) {l : Lane} (mem : l ∈ lanes) :
    l.woken clock = true ↔ l.racer.delay < instant := by
  have later := next.later
  constructor
  · intro woken
    have := Lane.woken_iff.1 woken
    omega
  · intro lt
    by_contra waits
    exact absurd lt (Nat.not_lt.2 (next.least l mem (Bool.eq_false_iff.2 waits)))

theorem Next.woken_iff (next : Next lanes clock instant) {l : Lane} (mem : l ∈ lanes) :
    l.woken instant = true ↔ l.woken clock = true ∨ l ∈ due instant lanes := by
  rw [next.woken_iff_lt mem, mem_due, Lane.woken_iff, Nat.le_iff_lt_or_eq]
  exact or_congr_right (and_iff_right mem).symm

theorem Next.not_woken (next : Next lanes clock instant) {l : Lane} (here : l ∈ due instant lanes) :
    l.woken clock = false :=
  Bool.eq_false_iff.2 fun woken =>
    Nat.ne_of_lt ((next.woken_iff_lt (mem_due.1 here).1).1 woken) (mem_due.1 here).2

/-- A sleep is over at the next instant but not before if it ends then. -/
theorem Next.newly_woken (next : Next lanes clock instant) {l : Lane} (mem : l ∈ lanes) :
    (!l.woken clock && l.woken instant) = decide (l.racer.delay = instant) := by
  rw [Bool.eq_iff_iff, Bool.and_eq_true, next.woken_iff mem, mem_due, decide_eq_true_iff]
  constructor
  · rintro ⟨waits, woken | here⟩
    · simp [woken] at waits
    · exact here.2
  · intro here
    have waits := next.not_woken (mem_due.2 ⟨mem, here⟩)
    exact ⟨by simp [waits], .inr ⟨mem, here⟩⟩

/-- At the next instant the lanes go on whose sleeps end. -/
theorem Next.poll_block (next : Next lanes clock instant) (ranked : Ranked lanes) (setting : Setting)
    (w : World) (queue : List Nat) (before : Bool) :
    ∃ handedBack, ((Task.block (tasks setting (·.woken clock) lanes) queue before).wake instant).poll
        setting [] w = Task.Pass.progress handedBack (Task.passAll setting (Task.poll setting) []
          (tasks setting (·.woken clock) lanes) ((due instant lanes).map (·.index)) w) := by
  have waits : ∀ l ∈ due instant lanes, l ∈ lanes ∧ l.woken clock = false :=
    fun l here => ⟨(mem_due.1 here).1, next.not_woken here⟩
  have calm := calm_tasks setting ranked waits
    (ranked.indices.sublist List.filter_sublist)
  obtain ⟨handedBack, -, polled⟩ := Task.poll_calm [] calm before w
  refine ⟨handedBack, ?_⟩
  rw [← polled, Task.wake, wakeAll_tasks, queueAt_tasks ranked, due,
    List.filter_congr fun l mem => next.newly_woken mem]

theorem Completed.sorted_append {done more : List Lane} (ranked : Ranked lanes)
    (completed : Completed lanes done (·.woken clock = true)) (later : clock < instant)
    (sub : more.Sublist (due instant lanes)) : (done ++ more).Pairwise Before := by
  have same (l : Lane) (mem : l ∈ more) : l.racer.delay = instant := (mem_due.1 (sub.subset mem)).2
  refine List.pairwise_append.2 ⟨completed.sorted, ?_, fun l here m there => .inl ?_⟩
  · refine (ranked.indices.sublist (sub.trans List.filter_sublist)).imp_of_mem
      fun left right lt => .inr ⟨?_, lt⟩
    rw [same _ left, same _ right]
  · have := woken_iff.1 ((completed.mem_iff l).1 here).2
    rw [same m there]
    omega

theorem Settled.goes_on (ranked : Ranked lanes) (settled : Settled setting seed lanes clock w)
    (next : Next lanes clock instant) (returns : ∀ l ∈ due instant lanes, l.racer.failure? = none) :
    ∃ w', Task.passAll setting (Task.poll setting) [] (tasks setting (·.woken clock) lanes)
        ((due instant lanes).map (·.index)) { w with clock := instant } =
          (w', .left (tasks setting (·.woken instant) lanes)) ∧
      Settled setting seed lanes instant w' := by
  obtain ⟨done, completed, shown⟩ := settled.shown
  obtain ⟨w', went, last⟩ := passAll_returns ranked (·.woken clock)
    (fun l here => ⟨(mem_due.1 here).1, next.not_woken here⟩)
    (ranked.indices.sublist List.filter_sublist)
    (fun l here => woken_iff.2 (Nat.le_of_eq (mem_due.1 here).2)) returns
    (World.sight_later shown instant) []
  have past : ∀ l ∈ lanes, (l.woken clock || (due instant lanes).any (·.index == l.index)) =
      l.woken instant := by
    intro l mem
    rw [Bool.eq_iff_iff, next.woken_iff mem, Bool.or_eq_true, List.any_eq_true]
    refine or_congr_right ⟨?_, fun here => ⟨l, here, beq_self_eq_true _⟩⟩
    rintro ⟨m, there, same⟩
    rwa [← ranked.eq_of_index (mem_due.1 there).1 mem (beq_iff_eq.1 same)]
  refine ⟨w', ?_, ⟨done ++ due instant lanes, ⟨fun l => ?_, ?_⟩, last⟩, fun l mem woken => ?_,
    .inr next.found⟩
  · rw [← List.append_nil (List.map _ _), went, Task.passAll, tasks_congr past]
  · rw [List.mem_append, completed.mem_iff]
    constructor
    · rintro (⟨mem, woken⟩ | here)
      · exact ⟨mem, (next.woken_iff mem).2 (.inl woken)⟩
      · have mem := (mem_due.1 here).1
        exact ⟨mem, (next.woken_iff mem).2 (.inr here)⟩
    · rintro ⟨mem, woken⟩
      exact ((next.woken_iff mem).1 woken).imp_left (⟨mem, ·⟩)
  · exact completed.sorted_append ranked next.later (List.Sublist.refl _)
  · rcases (next.woken_iff mem).1 woken with past | here
    · exact settled.returns l mem past
    · exact returns l here

/-- The first of the lanes whose sleeps end at an instant that fails. -/
structure FirstFailing (lanes : List Lane) (instant : Nat) (before : List Lane) (f : Lane)
    (after : List Lane) : Prop where
  split : due instant lanes = before ++ f :: after
  returns : ∀ l ∈ before, l.racer.failure? = none

namespace FirstFailing

variable {before after : List Lane} {f l : Lane}

theorem sorted (first : FirstFailing lanes instant before f after) (ranked : Ranked lanes) :
    (before ++ f :: after).Pairwise (·.index < ·.index) :=
  first.split ▸ ranked.indices.sublist List.filter_sublist

theorem mem_iff (first : FirstFailing lanes instant before f after) :
    l ∈ before ++ f :: after ↔ l ∈ lanes ∧ l.racer.delay = instant := by
  rw [← first.split, mem_due]

theorem mem (first : FirstFailing lanes instant before f after) :
    f ∈ lanes ∧ f.racer.delay = instant :=
  first.mem_iff.1 (List.mem_append_right _ List.mem_cons_self)

theorem mem_before (first : FirstFailing lanes instant before f after) (here : l ∈ before) :
    l ∈ lanes ∧ l.racer.delay = instant :=
  first.mem_iff.1 (List.mem_append_left _ here)

theorem mem_before_iff (first : FirstFailing lanes instant before f after) (ranked : Ranked lanes) :
    l ∈ before ↔ l ∈ lanes ∧ l.racer.delay = instant ∧ l.index < f.index := by
  obtain ⟨-, tail, cross⟩ := List.pairwise_append.1 (first.sorted ranked)
  constructor
  · intro here
    obtain ⟨mem, same⟩ := first.mem_before here
    exact ⟨mem, same, cross l here f List.mem_cons_self⟩
  · rintro ⟨mem, same, lt⟩
    rcases List.mem_append.1 (first.mem_iff.2 ⟨mem, same⟩) with here | here
    · exact here
    · rcases List.mem_cons.1 here with rfl | here
      · exact absurd lt (Nat.lt_irrefl _)
      · exact absurd ((List.pairwise_cons.1 tail).1 l here) (Nat.lt_asymm lt)

theorem le_of_failing (first : FirstFailing lanes instant before f after) (ranked : Ranked lanes)
    (mem : l ∈ lanes) (same : l.racer.delay = instant) (failing : l.racer.failure? ≠ none) :
    f.index ≤ l.index :=
  Nat.not_lt.1 fun lt => failing (first.returns l ((first.mem_before_iff ranked).2 ⟨mem, same, lt⟩))

/-- The lanes that are left when those up to the first failing one have ended. -/
theorem filter_after (first : FirstFailing lanes instant before f after) (ranked : Ranked lanes) :
    (due instant lanes).filter
      (fun l => !(before.any (·.index == l.index) || f.index == l.index)) = after := by
  obtain ⟨-, tail, cross⟩ := List.pairwise_append.1 (first.sorted ranked)
  have earlier : before.filter
      (fun l => !(before.any (·.index == l.index) || f.index == l.index)) = [] := by
    refine List.filter_eq_nil_iff.2 fun l here => ?_
    have listed : before.any (·.index == l.index) = true :=
      List.any_eq_true.2 ⟨l, here, beq_self_eq_true _⟩
    simp [listed]
  have later : after.filter
      (fun l => !(before.any (·.index == l.index) || f.index == l.index)) = after := by
    refine List.filter_eq_self.2 fun l here => ?_
    have none : before.any (·.index == l.index) = false := List.any_eq_false.2 fun m there =>
      Bool.eq_false_iff.1 (beq_false_of_ne
        (Nat.ne_of_lt (cross m there l (List.mem_cons_of_mem _ here))))
    have apart : (f.index == l.index) = false :=
      beq_false_of_ne (Nat.ne_of_lt ((List.pairwise_cons.1 tail).1 l here))
    simp [none, apart]
  rw [first.split, List.filter_append, earlier, List.filter_cons_of_neg (by simp), later,
    List.nil_append]

def gone (clock : Nat) (before : List Lane) (f l : Lane) : Bool :=
  l.woken clock || before.any (·.index == l.index) || f.index == l.index

theorem woken_of_gone (first : FirstFailing lanes instant before f after) (ranked : Ranked lanes)
    (next : Next lanes clock instant) (mem : l ∈ lanes) (past : gone clock before f l = true) :
    l.woken instant = true := by
  simp only [gone, Bool.or_eq_true, List.any_eq_true, beq_iff_eq] at past
  rw [next.woken_iff mem]
  rcases past with (past | ⟨m, here, same⟩) | same
  · exact .inl past
  · rw [← ranked.eq_of_index (first.mem_before here).1 mem same]
    exact .inr (mem_due.2 (first.mem_before here))
  · rw [← ranked.eq_of_index first.mem.1 mem same]
    exact .inr (mem_due.2 first.mem)

/-- Of the lanes that are left those after the first failing one have ended their sleep. -/
theorem filter_woken (first : FirstFailing lanes instant before f after) (ranked : Ranked lanes)
    (next : Next lanes clock instant) :
    (lanes.filter fun l => l.woken instant && !gone clock before f l) = after := by
  rw [← first.filter_after ranked, due, List.filter_filter]
  refine List.filter_congr fun l mem => ?_
  rw [← next.newly_woken mem, gone]
  cases l.woken clock <;> simp [Bool.and_comm]

theorem filter_asleep (first : FirstFailing lanes instant before f after) (ranked : Ranked lanes)
    (next : Next lanes clock instant) :
    (lanes.filter fun l => !l.woken instant && !gone clock before f l) =
      lanes.filter (!·.woken instant) := by
  refine List.filter_congr fun l mem => ?_
  cases past : gone clock before f l with
  | true => simp [first.woken_of_gone ranked next mem past]
  | false => exact Bool.and_true _

/-- The failures of the instant are the first one and those of the lanes after it. -/
theorem failures (first : FirstFailing lanes instant before f after) {failure : Failure}
    (fails : f.racer.failure? = some failure) :
    (due instant lanes).filterMap (·.racer.failure?) =
      failure :: after.filterMap (·.racer.failure?) := by
  have head : (f :: after).filterMap (·.racer.failure?) =
      failure :: after.filterMap (·.racer.failure?) := List.filterMap_cons_some fails
  rw [first.split, List.filterMap_append, List.filterMap_eq_nil_iff.2 first.returns, head,
    List.nil_append]

end FirstFailing

theorem Settled.falls (ranked : Ranked lanes) (settled : Settled setting seed lanes clock w)
    (next : Next lanes clock instant) {before after : List Lane} {f : Lane} {failure : Failure}
    (first : FirstFailing lanes instant before f after)
    (fails : f.racer.failure? = some failure) :
    ∃ w' outcome, Task.passAll setting (Task.poll setting) [] (tasks setting (·.woken clock) lanes)
        ((due instant lanes).map (·.index)) { w with clock := instant } = (w', .failed outcome) ∧
      Lost setting seed lanes f w' outcome := by
  obtain ⟨done, completed, shown⟩ := settled.shown
  have split := first.sorted ranked
  obtain ⟨sorted, -, cross⟩ := List.pairwise_append.1 split
  have waiting : f.woken clock = false := next.not_woken (mem_due.2 first.mem)
  have apart : before.any (·.index == f.index) = false := List.any_eq_false.2 fun l here =>
    Bool.eq_false_iff.1 (beq_false_of_ne (Nat.ne_of_lt (cross l here f List.mem_cons_self)))
  obtain ⟨mid, went, kept⟩ := passAll_returns ranked (·.woken clock)
    (fun l here => ⟨(first.mem_before here).1, next.not_woken (mem_due.2 (first.mem_before here))⟩) sorted
    (fun l here => woken_iff.2 (Nat.le_of_eq (first.mem_before here).2)) first.returns
    (World.sight_later shown instant) ((f :: after).map (·.index))
  obtain ⟨w', later, fell, others, last⟩ := passAll_fails ranked
    (fun l => l.woken clock || before.any (·.index == l.index)) first.mem.1 (by rw [waiting, apart]; rfl)
    (woken_iff.2 (Nat.le_of_eq first.mem.2)) fails (first.filter_woken ranked next) kept
  replace last := last.trans (congrArg (Sight.ofRace _ _ _ _ _) (first.filter_asleep ranked next))
  refine ⟨w', .error (setting.mode.report failure (failure :: later.filter (!·.isCancelled))), ?_, ?_⟩
  · rw [first.split, List.map_append, went, List.map_cons, fell,
      setting.mode.settle_report (Racer.not_cancelled fails)]
  constructor
  case mem => exact first.mem.1
  case least =>
    intro l mem failing
    rw [first.mem.2]
    have waits : l.woken clock = false := Bool.eq_false_iff.2 fun woken =>
      failing (settled.returns l mem woken)
    rcases Nat.lt_or_eq_of_le (next.least l mem waits) with lt | same
    · exact .inl lt
    · exact .inr ⟨same, first.le_of_failing ranked mem same.symm failing⟩
  case shown =>
    refine ⟨done ++ before, ⟨fun l => ?_, ?_⟩, first.mem.2 ▸ last⟩
    · rw [List.mem_append, completed.mem_iff, first.mem_before_iff ranked, Before, first.mem.2,
        ← and_or_left]
      exact and_congr_right fun mem => or_congr_left (next.woken_iff_lt mem)
    · exact completed.sorted_append ranked next.later (first.split ▸ List.sublist_append_left _ _)
  case fails =>
    have late : instant ≠ 0 := Nat.ne_of_gt (Nat.zero_lt_of_lt next.later)
    refine ⟨failure, fails, ?_⟩
    rw [others, first.mem.2, if_neg late, ← first.failures fails]
    rfl

theorem Settled.poll (ranked : Ranked lanes) (settled : Settled setting seed lanes clock w)
    (next : Next lanes clock instant) (queue : List Nat) (before : Bool) :
    ∃ w' progress, ((Task.block (tasks setting (·.woken clock) lanes) queue before).wake instant).poll
        setting [] { w with clock := instant } = (w', progress) ∧
      ((∃ handedBack, progress = .ofBranches (tasks setting (·.woken instant) lanes) [] handedBack ∧
        Settled setting seed lanes instant w') ∨
      ∃ f outcome, progress = .ended outcome ∧ f.racer.delay = instant ∧
        Lost setting seed lanes f w' outcome) := by
  obtain ⟨handedBack, polled⟩ := next.poll_block ranked setting { w with clock := instant } queue before
  cases found : (due instant lanes).find? (·.racer.failure?.isSome) with
  | none =>
    have returns : ∀ l ∈ due instant lanes, l.racer.failure? = none := fun l here => by
      simpa using List.find?_eq_none.1 found l here
    obtain ⟨w', went, settled⟩ := settled.goes_on ranked next returns
    rw [went] at polled
    exact ⟨w', _, polled, .inl ⟨handedBack, rfl, settled⟩⟩
  | some f =>
    obtain ⟨failing, before, after, split, returns⟩ := List.find?_eq_some_iff_append.1 found
    obtain ⟨failure, fails⟩ := Option.isSome_iff_exists.1 failing
    have first : FirstFailing lanes instant before f after :=
      ⟨split, fun l here => by simpa using returns l here⟩
    obtain ⟨w', outcome, went, lost⟩ := settled.falls ranked next first fails
    rw [went] at polled
    exact ⟨w', _, polled, .inr ⟨f, outcome, rfl, first.mem.2, lost⟩⟩

end Lane

end

end FlowTree
