import FlowTree.Proofs.Run.Lanes
import FlowTree.Proofs.Run.Passes

/-! A block of lanes. Its lanes are numbered in list order and set their timers in that order, so of the
lanes whose sleep is over at one instant the first in the list is the first to go on, in a live scope as in
a cancelled one. -/

set_option autoImplicit false

namespace FlowTree

section

variable {α : Type} {key : α → Nat} {values : List α}

theorem insertByKey_last {a : α} (least : ∀ b ∈ values, key b ≤ key a) :
    insertByKey key a values = values ++ [a] := by
  induction values with
  | nil => rfl
  | cons b rest ih =>
    rw [insertByKey, if_pos (least b List.mem_cons_self),
      ih fun c mem => least c (List.mem_cons_of_mem _ mem)]
    rfl

theorem foldl_insertByKey {before : List α} (sorted : (before ++ values).Pairwise (key · ≤ key ·)) :
    values.foldl (fun sorted a => insertByKey key a sorted) before = before ++ values := by
  induction values generalizing before with
  | nil => exact (List.append_nil before).symm
  | cons a rest ih =>
    have least : ∀ b ∈ before, key b ≤ key a := fun b mem =>
      (List.pairwise_append.1 sorted).2.2 b mem a List.mem_cons_self
    rw [List.append_cons] at sorted ⊢
    rw [List.foldl_cons, insertByKey_last least]
    exact ih sorted

theorem orderByKey_of_sorted (sorted : values.Pairwise (key · ≤ key ·)) :
    orderByKey key values = values :=
  foldl_insertByKey (List.nil_append values ▸ sorted)

end

/-- Lanes at their indices, with serials in list order. -/
structure Lane.Ranked (lanes : List Lane) : Prop where
  index : ∀ {k : Nat} {l : Lane}, lanes[k]? = some l → l.index = k
  serials : lanes.Pairwise (·.serial ≤ ·.serial)

namespace Lane.Ranked

variable {lanes : List Lane}

theorem at_index (ranked : Ranked lanes) {l : Lane} (mem : l ∈ lanes) : lanes[l.index]? = some l := by
  obtain ⟨k, found⟩ := List.mem_iff_getElem?.1 mem
  rwa [ranked.index found]

theorem eq_of_index (ranked : Ranked lanes) {l m : Lane} (left : l ∈ lanes) (right : m ∈ lanes)
    (same : l.index = m.index) : l = m := by
  have found := ranked.at_index left
  rw [same, ranked.at_index right] at found
  exact (Option.some.inj found).symm

theorem indices (ranked : Ranked lanes) : lanes.Pairwise (·.index < ·.index) := by
  refine List.pairwise_iff_getElem.2 fun i j here there lt => ?_
  rw [ranked.index (List.getElem?_eq_getElem here), ranked.index (List.getElem?_eq_getElem there)]
  exact lt

end Lane.Ranked

namespace Lane

variable {setting : Setting} {lanes : List Lane} {gone : Lane → Bool}

def tasks (setting : Setting) (gone : Lane → Bool) (lanes : List Lane) : List Task :=
  lanes.map fun l => l.task setting (gone l)

theorem tasks_congr {past : Lane → Bool} (same : ∀ l ∈ lanes, gone l = past l) :
    tasks setting gone lanes = tasks setting past lanes :=
  List.map_congr_left fun l mem => by rw [same l mem]

theorem all_hasEnded : (tasks setting gone lanes).all Task.hasEnded = lanes.all gone := by
  rw [tasks, List.all_map]
  exact congrArg lanes.all (funext fun l => l.hasEnded_task setting (gone l))

theorem tasks_set (ranked : Ranked lanes) (k : Nat) :
    (tasks setting gone lanes).set k .ended =
      tasks setting (fun l => gone l || k == l.index) lanes := by
  refine List.ext_getElem? fun j => ?_
  rw [List.getElem?_set, tasks, tasks, List.getElem?_map, List.getElem?_map, List.length_map]
  cases found : lanes[j]? with
  | none =>
    have beyond := List.getElem?_eq_none_iff.1 found
    simp only [Option.map_none, ite_eq_right_iff]
    rintro rfl within
    exact absurd within (Nat.not_lt.2 beyond)
  | some l =>
    have within := (List.getElem?_eq_some_iff.1 found).1
    have at_j := ranked.index found
    by_cases here : k = j
    · subst here
      simp [within, at_j, task]
    · have apart : (k == j) = false := beq_false_of_ne here
      simp [here, at_j, apart]

theorem getD_tasks (ranked : Ranked lanes) {l : Lane} (mem : l ∈ lanes) :
    (tasks setting gone lanes).getD l.index .ended = l.task setting (gone l) := by
  rw [List.getD_eq_getElem?_getD, tasks, List.getElem?_map, ranked.at_index mem]
  rfl

def unwinding (setting : Setting) (instant : Nat) (l : Lane) : Unwinding :=
  ⟨l.index, l.woken instant, (l.task setting false).unwind setting [l.index]⟩

-- The lanes are those from the given index on, so that the induction can drop the first of them.
theorem unwindings_tasks (instant index : Nat)
    (numbered : ∀ k l, lanes[k]? = some l → l.index = index + k) :
    Task.unwindings setting (tasks setting gone lanes) instant [] index =
      (lanes.filter (!gone ·)).map (unwinding setting instant) := by
  induction lanes generalizing index with
  | nil => rfl
  | cons l rest ih =>
    have head : l.index = index := numbered 0 l rfl
    have tail := ih (index + 1) fun k m found =>
      (numbered (k + 1) m found).trans (by omega)
    have step : Task.unwindings setting (tasks setting gone (l :: rest)) instant [] index =
        if (l.task setting (gone l)).hasEnded then
          Task.unwindings setting (tasks setting gone rest) instant [] (index + 1)
        else
          ⟨index, ((l.task setting (gone l)).dueAt instant).isSome,
            (l.task setting (gone l)).unwind setting [index]⟩ ::
          Task.unwindings setting (tasks setting gone rest) instant [] (index + 1) := rfl
    rw [step, tail, hasEnded_task]
    cases past : gone l with
    | true => simp [past]
    | false =>
      rw [dueAt_task]
      by_cases due : l.woken instant = true <;> simp [past, due, unwinding, head]

theorem entries_tasks (instant index : Nat)
    (numbered : ∀ k l, lanes[k]? = some l → l.index = index + k) :
    ((tasks setting gone lanes).zipIdx index).filterMap
        (fun (task, i) => (task.dueAt instant).map fun serial => (serial, i)) =
      (lanes.filter fun l => !gone l && l.woken instant).map fun l => (l.serial, l.index) := by
  induction lanes generalizing index with
  | nil => rfl
  | cons l rest ih =>
    have head : l.index = index := numbered 0 l rfl
    have tail := ih (index + 1) fun k m found =>
      (numbered (k + 1) m found).trans (by omega)
    change ((l.task setting (gone l) :: tasks setting gone rest).zipIdx index).filterMap _ = _
    rw [List.zipIdx_cons, List.filterMap_cons, tail]
    cases past : gone l with
    | true => simp [past, task, Task.dueAt]
    | false =>
      simp only [dueAt_task]
      by_cases due : l.woken instant = true <;> simp [past, due, head]

/-- The queue of a block of lanes: those whose sleep is over, in list order. -/
theorem queueAt_tasks (ranked : Ranked lanes) (instant : Nat) :
    Task.queueAt instant (tasks setting gone lanes) =
      (lanes.filter fun l => !gone l && l.woken instant).map (·.index) := by
  have sorted : ((lanes.filter fun l => !gone l && l.woken instant).map
      fun l => (l.serial, l.index)).Pairwise (·.1 ≤ ·.1) :=
    List.pairwise_map.2 (ranked.serials.sublist List.filter_sublist)
  unfold Task.queueAt
  rw [entries_tasks instant 0 fun k l found => (ranked.index found).trans (Nat.zero_add k).symm]
  simp only [orderByKey_of_sorted sorted, List.map_map]
  rfl

theorem wakeAll_tasks (instant : Nat) :
    Task.wakeAll instant (tasks setting gone lanes) = tasks setting gone lanes := by
  rw [Task.wakeAll_eq_map, tasks, List.map_map]
  refine List.map_congr_left fun l _ => ?_
  rw [Function.comp_apply]
  cases gone l <;> rfl

theorem filter_index (sorted : lanes.Pairwise (·.index < ·.index)) {d : Lane} (mem : d ∈ lanes) :
    lanes.filter (·.index == d.index) = [d] := by
  obtain ⟨before, after, rfl⟩ := List.append_of_mem mem
  obtain ⟨-, tail, cross⟩ := List.pairwise_append.1 sorted
  have none : before.filter (·.index == d.index) = [] := List.filter_eq_nil_iff.2 fun l here =>
    Bool.eq_false_iff.1 (beq_false_of_ne (Nat.ne_of_lt (cross l here d List.mem_cons_self)))
  have past : after.filter (·.index == d.index) = [] := List.filter_eq_nil_iff.2 fun l here =>
    Bool.eq_false_iff.1 (beq_false_of_ne (Nat.ne_of_gt ((List.pairwise_cons.1 tail).1 l here)))
  rw [List.filter_append, none, List.filter_cons, if_pos (beq_self_eq_true d.index), past]
  rfl

-- The induction is on the lanes whose sleep is over, which the queue holds.
theorem inTurn_due {due : List Lane} (sorted : lanes.Pairwise (·.index < ·.index)) {instant : Nat}
    (all : lanes.filter (·.woken instant) = due) :
    Unwinding.inTurn (due.map (·.index)) (lanes.map (unwinding setting instant)) =
      (due ++ lanes.filter (!·.woken instant)).map (unwinding setting instant) := by
  induction due generalizing lanes with
  | nil =>
    have none : ∀ l ∈ lanes, l.woken instant = false := fun l mem =>
      Bool.eq_false_iff.2 (List.filter_eq_nil_iff.1 all l mem)
    rw [List.nil_append, List.filter_eq_self.2 fun l mem => by rw [none l mem]; rfl]
    rfl
  | cons d due ih =>
    have mem : d ∈ lanes.filter (·.woken instant) := all ▸ List.mem_cons_self
    have some : (lanes.map (unwinding setting instant)).any (·.due) = true :=
      List.any_eq_true.2 ⟨_, List.mem_map_of_mem (List.mem_filter.1 mem).1, (List.mem_filter.1 mem).2⟩
    have own : lanes.filter (·.index == d.index) = [d] := filter_index sorted (List.mem_filter.1 mem).1
    have ahead := List.pairwise_cons.1 (all ▸ sorted.sublist List.filter_sublist)
    have rest : (lanes.filter (·.index != d.index)).filter (·.woken instant) = due := by
      rw [List.filter_comm, all, List.filter_cons_of_neg (by simp), List.filter_eq_self.2]
      exact fun l later => bne_iff_ne.2 (Nat.ne_of_gt (ahead.1 l later))
    have asleep : (lanes.filter (·.index != d.index)).filter (!·.woken instant) =
        lanes.filter (!·.woken instant) := by
      rw [List.filter_comm, List.filter_eq_self.2]
      intro l later
      obtain ⟨here, waits⟩ := List.mem_filter.1 later
      refine bne_iff_ne.2 fun same => ?_
      have found : l ∈ lanes.filter (·.index == d.index) := List.mem_filter.2 ⟨here, beq_iff_eq.2 same⟩
      rw [own, List.mem_singleton] at found
      rw [found, (List.mem_filter.1 mem).2] at waits
      cases waits
    have others := ih (sorted.sublist List.filter_sublist) rest
    rw [asleep] at others
    rw [List.map_cons, Unwinding.inTurn, if_pos some, List.filter_map, List.filter_map]
    refine (congrArg₂ (· ++ ·) (congrArg (List.map _) own) others).trans ?_
    rw [← List.map_append]
    rfl

variable (setting) in
/-- A call in flight that goes on and waits is a call in flight. -/
theorem calm_tasks (ranked : Ranked lanes) {queue : List Lane}
    (waits : ∀ l ∈ queue, l ∈ lanes ∧ gone l = false) (sorted : queue.Pairwise (·.index < ·.index)) :
    Task.Calm (Task.poll setting) (tasks setting gone lanes) (queue.map (·.index)) := by
  refine ⟨List.pairwise_map.2 (sorted.imp Nat.ne_of_lt), fun i mem => ?_,
    fun i mem place w w' task polled => ?_⟩ <;> obtain ⟨l, here, rfl⟩ := List.mem_map.1 mem
  · rw [getD_tasks ranked (waits l here).1, (waits l here).2]
    rfl
  · rw [getD_tasks ranked (waits l here).1, (waits l here).2] at polled
    have shown := Task.poll_polls polled
    generalize eq : Progress.waiting task = progress at shown
    cases shown with
    | @resume _ _ _ _ state =>
      rcases state with call | outcome <;> cases eq
      exact ⟨rfl, rfl⟩

-- The first timer of a block of lanes is that of a lane with the shortest sleep of those that wait.
theorem first_of_tasks {instant : Nat} {queue : List Nat} {handedBack : Bool}
    (first : FirstTimer (Task.block (tasks setting gone lanes) queue handedBack).part.calls instant) :
    (∃ l ∈ lanes, gone l = false ∧ l.racer.delay = instant) ∧
      ∀ l ∈ lanes, gone l = false → instant ≤ l.racer.delay := by
  have mem_calls (call : Call) :
      call ∈ (Task.block (tasks setting gone lanes) queue handedBack).part.calls ↔
      ∃ l ∈ lanes, gone l = false ∧ call = l.call setting := by
    change call ∈ Part.callsAll (Task.parts (tasks setting gone lanes)) ↔ _
    have own (l : Lane) : call ∈ (l.task setting (gone l)).part.calls ↔
        gone l = false ∧ call = l.call setting := by
      cases gone l <;> simp [task, Task.part, Part.calls]
    simp [Part.mem_callsAll, Task.parts_eq_map, tasks, own]
  constructor
  · obtain ⟨call, mem, rfl⟩ := first.found
    obtain ⟨l, here, waits, rfl⟩ := (mem_calls call).1 mem
    exact ⟨l, here, waits, rfl⟩
  · intro l here waits
    exact first.least _ ((mem_calls _).2 ⟨l, here, waits, rfl⟩)

end Lane

/-- What a race shows in which some lanes have been called, some have completed, and some have been
abandoned. -/
def Sight.ofRace (setting : Setting) (seed : Store) (clock : Nat) (called done abandoned : List Lane) :
    Sight where
  clock := clock
  cancelled := false
  store := (done.filterMap Lane.finish?).foldl Finish.write seed
  completions := (done.filterMap Lane.finish?).map Finish.happening
  calls := called.map (·.racer.sent setting)
  abandoned := abandoned.map (·.racer.name)

section

variable {setting : Setting} {seed : Store} {clock : Nat} {called done abandoned lanes : List Lane}
  {gone : Lane → Bool} {w : World}

theorem World.sight_later (shown : w.sight = .ofRace setting seed clock called done abandoned)
    (instant : Nat) : ({ w with clock := instant } : World).sight =
      .ofRace setting seed instant called done abandoned := by
  change { w.sight with clock := instant } = _
  rw [shown]
  rfl

theorem Sight.settle_ofRace (l : Lane) :
    (ofRace setting seed clock called done abandoned).settle l =
      ofRace setting seed clock called (done ++ [l]) abandoned := by
  unfold settle
  cases finish : l.finish? with
  | none => simp [ofRace, finish]
  | some f => simp [ofRace, finish, Sight.finish]

theorem Sight.drop_ofRace (l : Lane) :
    (ofRace setting seed clock called done abandoned).drop l =
      ofRace setting seed clock called done
        (abandoned ++ [l].filter (!·.woken clock)) := by
  by_cases due : l.woken clock = true <;> simp [drop, ofRace, due]

namespace Lane

/-- Lanes that return end one after another when their sleeps are over. -/
theorem passAll_returns (ranked : Ranked lanes) (gone : Lane → Bool) {queue : List Lane}
    (waits : ∀ l ∈ queue, l ∈ lanes ∧ gone l = false) (sorted : queue.Pairwise (·.index < ·.index))
    (due : ∀ l ∈ queue, l.woken clock = true) (returns : ∀ l ∈ queue, l.racer.failure? = none)
    (shown : w.sight = .ofRace setting seed clock called done abandoned) (rest : List Nat) :
    ∃ w', Task.passAll setting (Task.poll setting) [] (tasks setting gone lanes)
          (queue.map (·.index) ++ rest) w =
        Task.passAll setting (Task.poll setting) []
          (tasks setting (fun l => gone l || queue.any (·.index == l.index)) lanes) rest w' ∧
      w'.sight = .ofRace setting seed clock called (done ++ queue) abandoned := by
  induction queue generalizing gone done w with
  | nil =>
    refine ⟨w, ?_, by rw [shown, List.append_nil]⟩
    simp only [List.map_nil, List.nil_append, List.any_nil, Bool.or_false]
  | cons l queue ih =>
    obtain ⟨here, active⟩ := waits l List.mem_cons_self
    obtain ⟨ahead, sorted⟩ := List.pairwise_cons.1 sorted
    have live : w.cancelled = false := congrArg Sight.cancelled shown
    have now : w.clock = clock := congrArg Sight.clock shown
    obtain ⟨mid, polled, settled⟩ := poll_task setting live
      (now ▸ due l List.mem_cons_self) [l.index]
    rw [shown, Sight.settle_ofRace] at settled
    have others : ∀ m ∈ queue, m ∈ lanes ∧ (gone m || l.index == m.index) = false := by
      intro m mem
      obtain ⟨there, waits⟩ := waits m (List.mem_cons_of_mem _ mem)
      exact ⟨there, by rw [waits, beq_false_of_ne (Nat.ne_of_lt (ahead m mem))]; rfl⟩
    obtain ⟨w', went, last⟩ := ih (fun m => gone m || l.index == m.index) others sorted
      (fun m mem => due m (List.mem_cons_of_mem _ mem))
      (fun m mem => returns m (List.mem_cons_of_mem _ mem)) settled
    have outcome : l.racer.outcome = .ok () := by
      rw [Racer.outcome, returns l List.mem_cons_self]
    refine ⟨w', ?_, by rw [last, List.append_assoc, List.singleton_append]⟩
    rw [List.map_cons, List.cons_append, Task.passAll, getD_tasks ranked here, active, List.nil_append,
      polled, outcome]
    simp only [List.any_cons, ← Bool.or_assoc]
    rw [← went, tasks_set ranked]

theorem runAll_drops (ending : List Lane) (rest : List Unwinding) (failures : List Failure)
    (shown : w.sight = .ofRace setting seed clock called done abandoned) :
    ∃ w', Unwinding.runAll setting.mode [] (ending.map (unwinding setting clock) ++ rest) failures w =
        Unwinding.runAll setting.mode [] rest (failures ++ ending.map (dropped clock)) w' ∧
      w'.sight = .ofRace setting seed clock called done
        (abandoned ++ ending.filter (!·.woken clock)) := by
  induction ending generalizing failures abandoned w with
  | nil => exact ⟨w, by simp, by simp [shown]⟩
  | cons l ending ih =>
    have now : w.clock = clock := congrArg Sight.clock shown
    obtain ⟨mid, unwound, fell⟩ := l.unwind_drops [l.index] w
    rw [now] at unwound
    rw [shown, Sight.drop_ofRace] at fell
    have observed := (sight_observe setting.mode [] failures
      (ending.map (unwinding setting clock) ++ rest).length (l.dropped clock) mid).trans fell
    obtain ⟨w', went, last⟩ := ih (failures ++ [l.dropped clock]) observed
    have stepped : (unwinding setting clock l).run w = (mid, .error (l.dropped clock)) := unwound
    refine ⟨w', ?_, ?_⟩
    · rw [List.map_cons, List.cons_append, Unwinding.runAll]
      simp only [stepped]
      rw [went, List.append_assoc]
      rfl
    · rw [last, List.append_assoc, ← List.filter_append]
      rfl

/-- The failures among the ends of lanes are those of the lanes whose sleeps are over. -/
theorem filter_dropped (ending : List Lane) (instant : Nat) :
    (ending.map (dropped instant)).filter (!·.isCancelled) =
      (ending.filter (·.woken instant)).filterMap (·.racer.failure?) := by
  induction ending with
  | nil => rfl
  | cons l ending ih =>
    rw [List.map_cons, List.filter_cons, List.filter_cons, ih, dropped]
    by_cases due : l.woken instant = true
    · cases failure : l.racer.failure? with
      | none => simp [due, failure, Failure.isCancelled]
      | some f => simp [due, failure, Racer.not_cancelled failure]
    · simp [due, Failure.isCancelled]

theorem collapse_tasks (ranked : Ranked lanes) {queue : List Lane}
    (due : (lanes.filter fun l => l.woken clock && !gone l) = queue) (failures : List Failure)
    (shown : w.sight = .ofRace setting seed clock called done []) :
    ∃ w' rest, Task.collapse setting (tasks setting gone lanes) (queue.map (·.index)) [] failures w =
        (w', setting.mode.settle (failures ++ rest)) ∧
      rest.filter (!·.isCancelled) = queue.filterMap (·.racer.failure?) ∧
      w'.sight = .ofRace setting seed clock called done
        (lanes.filter fun l => !l.woken clock && !gone l) := by
  have now : w.clock = clock := congrArg Sight.clock shown
  let waiting := lanes.filter (!gone ·)
  let ending := queue ++ waiting.filter (!·.woken clock)
  have woken : waiting.filter (·.woken clock) = queue := by
    rw [← due, List.filter_filter]
  have inTurn : Unwinding.inTurn (queue.map (·.index))
      (Task.unwindings setting (tasks setting gone lanes) w.clock [] 0) =
      ending.map (unwinding setting clock) := by
    rw [now, unwindings_tasks clock 0 fun k l found => (ranked.index found).trans (Nat.zero_add k).symm]
    exact inTurn_due (ranked.indices.sublist List.filter_sublist) woken
  have past : ending.filter (·.woken clock) = queue := by
    simp only [ending, ← woken, List.filter_append, List.filter_filter]
    simp
  have asleep : ending.filter (!·.woken clock) = lanes.filter fun l => !l.woken clock && !gone l := by
    simp only [ending, ← woken, waiting, List.filter_append, List.filter_filter]
    simpa using fun l _ no yes => absurd yes (Bool.eq_false_iff.1 no)
  obtain ⟨w', went, last⟩ := runAll_drops ending [] failures shown
  rw [List.append_nil] at went
  refine ⟨w', ending.map (dropped clock), ?_, ?_, ?_⟩
  · rw [Task.collapse, inTurn, went]
    rfl
  · exact (filter_dropped ending clock).trans (congrArg _ past)
  · rw [last, List.nil_append]
    exact congrArg _ asleep

theorem passAll_fails (ranked : Ranked lanes) (gone : Lane → Bool) {f : Lane} (here : f ∈ lanes)
    (active : gone f = false) (due : f.woken clock = true) {failure : Failure}
    (fails : f.racer.failure? = some failure) {after : List Lane}
    (left : (lanes.filter fun l => l.woken clock && !(gone l || f.index == l.index)) = after)
    (shown : w.sight = .ofRace setting seed clock called done []) :
    ∃ w' later, Task.passAll setting (Task.poll setting) [] (tasks setting gone lanes)
          (f.index :: after.map (·.index)) w =
        (w', .failed (setting.mode.settle (failure :: later))) ∧
      later.filter (!·.isCancelled) = after.filterMap (·.racer.failure?) ∧
      w'.sight = .ofRace setting seed clock called done
        (lanes.filter fun l => !l.woken clock && !(gone l || f.index == l.index)) := by
  have live : w.cancelled = false := congrArg Sight.cancelled shown
  have now : w.clock = clock := congrArg Sight.clock shown
  obtain ⟨mid, polled, settled⟩ := poll_task setting live (now ▸ due) [f.index]
  have outcome : f.racer.outcome = .error failure := by rw [Racer.outcome, fails]
  rw [shown, Sight.settle, finish?_eq_none fails] at settled
  have observed := (sight_observe setting.mode [] []
    (Task.pending (tasks setting (fun l => gone l || f.index == l.index) lanes)) failure mid).trans
    settled
  obtain ⟨w', later, collapsed, failures, last⟩ := collapse_tasks ranked left [failure] observed
  refine ⟨w', later, ?_, failures, last⟩
  rw [Task.passAll, getD_tasks ranked here, active, List.nil_append, polled, outcome]
  simp only [Task.failAll]
  rw [tasks_set ranked, collapsed]
  rfl

end Lane

end

end FlowTree
