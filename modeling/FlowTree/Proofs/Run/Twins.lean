import FlowTree.Proofs.Run.Calm
import FlowTree.Proofs.Run.Elements

/-! The same task under a schedule in which blocks yield and under one in which they do not. The queues on
one side hold what is in those on the other, and after it only branches that wait for timers still to fire.
Both sides wait for the same timers, and end alike. -/

set_option autoImplicit false

namespace FlowTree

open List (Forall₂)

/-- The same setting in which no block yields. -/
def Setting.steady (setting : Setting) : Setting := { setting with yields := false }

namespace Task

variable {setting : Setting} {t u : Task} {ts us : List Task} {p : Call → Prop} {w : World} {place : Position}

inductive Twin : Task → Task → Prop where
  | ended : Twin .ended .ended
  | fresh (s : Statement) : Twin (.fresh s) (.fresh s)
  | calling (call : Call) : Twin (.calling call) (.calling call)
  | sequence {t u : Task} {index : Nat} {rest : List Statement} (first : Twin t u) :
    Twin (.sequence t index rest) (.sequence u index rest)
  | block {ts us : List Task} {queue : List Nat} {handedBack : Bool} (size : ts.length = us.length)
    (each : ∀ i, Twin (ts.getD i .ended) (us.getD i .ended)) (spare : List Nat) :
    Twin (.block ts (queue ++ spare) handedBack) (.block us queue false)

theorem forall₂_of_getD {related : Task → Task → Prop} (size : ts.length = us.length)
    (each : ∀ i, related (ts.getD i .ended) (us.getD i .ended)) : Forall₂ related ts us := by
  refine List.forall₂_iff_get.2 ⟨size, fun i left right => ?_⟩
  have here := each i
  rwa [List.getD_eq_getElem?_getD, List.getD_eq_getElem?_getD, List.getElem?_eq_getElem left,
    List.getElem?_eq_getElem right] at here

theorem Twin.hasEnded (twin : Twin t u) : t.hasEnded = u.hasEnded := by
  cases twin <;> rfl

theorem Twin.nextInstant (twin : Twin t u) : t.nextInstant = u.nextInstant := by
  induction twin with
  | ended | fresh | calling => rfl
  | sequence _ ih => exact ih
  | block size _ _ ih => exact nextInstants_congr (forall₂_of_getD size ih)

theorem Twin.dueAt (twin : Twin t u) (instant : Nat) : t.dueAt instant = u.dueAt instant := by
  induction twin with
  | ended | fresh | calling => rfl
  | sequence _ ih => exact ih
  | block size _ _ ih => exact anyDueAt_congr (forall₂_of_getD size ih)

theorem getD_wakeAll (instant : Nat) (ts : List Task) (i : Nat) :
    (wakeAll instant ts).getD i .ended = (ts.getD i .ended).wake instant := by
  rw [wakeAll_eq_map, List.getD_eq_getElem?_getD, List.getElem?_map, List.getD_eq_getElem?_getD]
  cases ts[i]? <;> rfl

theorem Twin.wake (twin : Twin t u) (instant : Nat) : Twin (t.wake instant) (u.wake instant) := by
  induction twin with
  | ended => exact .ended
  | fresh s => exact .fresh s
  | calling call => exact .calling call
  | sequence _ ih => exact .sequence ih
  | @block ts us queue handedBack size each spare ih =>
    have queues : queueAt instant ts = queueAt instant us ++ [] := by
      rw [List.append_nil]
      exact queueAt_congr (forall₂_of_getD size fun i => (each i).dueAt instant)
    rw [Task.wake, Task.wake, queues]
    refine .block ?_ (fun i => ?_) []
    · rw [wakeAll_eq_map, wakeAll_eq_map, List.length_map, List.length_map, size]
    · rw [getD_wakeAll, getD_wakeAll]
      exact ih i

/-- What rests under one schedule rests under the other. -/
theorem Twin.rests (twin : Twin t u) (rests : t.Rests p) : u.Rests p ∧ u.woken = false := by
  induction twin with
  | ended | fresh => cases rests
  | calling => exact ⟨rests, rfl⟩
  | sequence _ ih =>
    cases rests with | sequence first
    obtain ⟨inner, asleep⟩ := ih first
    exact ⟨.sequence inner, asleep⟩
  | @block ts us queue handedBack size each spare ih =>
    generalize empty : queue ++ spare = whole at rests
    cases rests with | block others live
    obtain ⟨rfl, -⟩ := List.append_eq_nil_iff.1 empty
    have twins : Forall₂ (fun t u => (t.hasEnded = false → t.Rests p) →
        u.hasEnded = t.hasEnded ∧ (u.hasEnded = false → u.Rests p)) ts us :=
      forall₂_of_getD size fun i each_rests =>
        ⟨(each i).hasEnded.symm, fun active => (ih i (each_rests ((each i).hasEnded.trans active))).1⟩
    refine ⟨.block (fun b mem active => ?_) ?_, rfl⟩
    · obtain ⟨i, bound, rfl⟩ := List.mem_iff_getElem.1 mem
      have here := (List.forall₂_iff_get.1 twins).2 i (size ▸ bound) bound
      exact (here (others _ (List.getElem_mem _))).2 active
    · obtain ⟨b, mem, active⟩ := live
      obtain ⟨i, bound, rfl⟩ := List.mem_iff_getElem.1 mem
      have here := (List.forall₂_iff_get.1 twins).2 i bound (size ▸ bound)
      exact ⟨_, List.getElem_mem _, (here (others _ mem)).1.trans active⟩

section Unwinding

/-- Branches that are to end, and end in the same way at an instant. -/
structure EndsAs (clock : Nat) (x y : Unwinding) : Prop where
  index : x.index = y.index
  due : x.due = y.due
  run : ∀ w : World, w.clock = clock → x.run w = y.run w ∧ (y.run w).1.clock = clock

variable {clock : Nat} {xs ys : List Unwinding}

theorem anyDue_as (each : Forall₂ (EndsAs clock) xs ys) : xs.any (·.due) = ys.any (·.due) := by
  induction each with
  | nil => rfl
  | cons first _ ih => rw [List.any_cons, List.any_cons, first.due, ih]

/-- What comes after the last branch in a queue of which a timer is due makes no difference. -/
theorem inTurn_as {queue : List Nat} (each : Forall₂ (EndsAs clock) xs ys)
    (queued : ∀ y ∈ ys, y.due = true → y.index ∈ queue) (spare : List Nat) :
    Forall₂ (EndsAs clock) (Unwinding.inTurn (queue ++ spare) xs) (Unwinding.inTurn queue ys) := by
  induction queue generalizing xs ys with
  | nil =>
    have calm : xs.any (·.due) = false := by
      rw [anyDue_as each, List.any_eq_false]
      exact fun y mem due => List.not_mem_nil (queued y mem due)
    rw [List.nil_append, inTurn_calm spare (by simpa using calm)]
    exact each
  | cons index queue ih =>
    rw [List.cons_append, Unwinding.inTurn, Unwinding.inTurn, anyDue_as each]
    split
    · refine List.rel_append (List.rel_filter (fun x y same => ?_) each)
        (ih (List.rel_filter (fun x y same => ?_) each) fun y mem due => ?_)
      · simp only [same.index]
      · simp only [same.index]
      · obtain ⟨mem, other⟩ := List.mem_filter.1 mem
        exact (List.mem_cons.1 (queued y mem due)).resolve_left (by simpa using other)
    · exact each

theorem runAll_as (each : Forall₂ (EndsAs clock) xs ys) (now : w.clock = clock) (mode : FailureMode)
    (place : Position) (failures : List Failure) :
    Unwinding.runAll mode place xs failures w = Unwinding.runAll mode place ys failures w := by
  induction each generalizing w failures with
  | nil => rfl
  | @cons x y xs ys first _ ih =>
    obtain ⟨same, kept⟩ := first.run w now
    have sizes : xs.length = ys.length := List.Forall₂.length_eq (by assumption)
    rw [Unwinding.runAll, Unwinding.runAll, same, sizes]
    rcases ran : y.run w with ⟨mid, failure | _⟩ <;> rw [ran] at kept
    · refine ih ?_ _
      rcases observe_notes mode place failures ys.length failure mid with eq | notes
      · rw [eq, kept]
      · exact notes.clock.trans kept
    · exact ih kept _

/-- The tasks that a block has to end, under both schedules. -/
structure EndsTogether (setting : Setting) (clock : Nat) (t u : Task) : Prop where
  twin : Twin t u
  unwind : u.hasEnded = false → ∀ place w, w.clock = clock →
    t.unwind setting place w = u.unwind setting.steady place w

theorem unwindings_as (each : Forall₂ (EndsTogether setting clock) ts us) (place : Position)
    (index : Nat) : Forall₂ (EndsAs clock) (unwindings setting ts clock place index)
      (unwindings setting.steady us clock place index) := by
  induction each generalizing index with
  | nil => exact .nil
  | cons first _ ih =>
    rw [unwindings, unwindings, first.twin.hasEnded]
    split
    · exact ih _
    · next active =>
      refine .cons ⟨rfl, ?_, fun w now => ⟨first.unwind (Bool.eq_false_iff.2 active) _ w now, ?_⟩⟩ (ih _)
      · rw [first.twin.dueAt]
      · exact (unwind_unwinds _ (Prod.eta _).symm).clock.trans now

theorem Rests.dueAt (rests : t.Rests fun call => clock < call.nextInstant) : t.dueAt clock = none := by
  induction rests with
  | calling pending =>
    refine Option.eq_none_iff_forall_ne_some.2 fun serial due => ?_
    exact Nat.not_lt.2 (Call.nextInstant_le_of_dueAt due) pending
  | sequence _ ih => exact ih
  | @block branches _ _ _ ih =>
    refine Option.eq_none_iff_forall_ne_some.2 fun serial due => ?_
    obtain ⟨b, mem, found⟩ := anyDueAt_some due
    cases active : b.hasEnded with
    | false =>
      rw [ih b mem active] at found
      cases found
    | true =>
      cases b with
      | ended => cases found
      | _ => cases active

/-- Branches of which a timer is due are in the queue. -/
theorem Poised.queued {queue : List Nat} {before : Bool}
    (poised : (Task.block us queue before).Poised fun call => clock < call.nextInstant) (place : Position) :
    ∀ y ∈ unwindings setting us clock place 0, y.due = true → y.index ∈ queue := by
  intro y mem due
  cases poised with | block _ _ _ others
  rw [unwindings_eq] at mem
  obtain ⟨⟨task, i⟩, found, rfl⟩ := List.mem_map.1 mem
  obtain ⟨at_i, active⟩ := List.mem_filter.1 found
  by_contra idle
  have rests := others i task (List.mem_zipIdx_iff_getElem?.1 at_i) idle (by simpa using active)
  have none : task.dueAt clock = none := rests.dueAt
  rw [unwinding, none] at due
  cases due

theorem collapse_as {queue : List Nat} {before : Bool} (size : ts.length = us.length)
    (each : ∀ i, EndsTogether setting w.clock (ts.getD i .ended) (us.getD i .ended))
    (poised : (Task.block us queue before).Poised fun call => w.clock < call.nextInstant)
    (spare : List Nat) (place : Position) (failures : List Failure) :
    collapse setting ts (queue ++ spare) place failures w =
      collapse setting.steady us queue place failures w := by
  have ends := unwindings_as (forall₂_of_getD size each) place 0
  rw [collapse, collapse, runAll_as (inTurn_as ends (poised.queued place) spare) rfl]
  rfl

end Unwinding

/-- A task ends under both schedules in the same way. -/
theorem Twin.unwind (twin : Twin t u) (poised : u.Poised fun call => w.clock < call.nextInstant)
    (place : Position) : t.unwind setting place w = u.unwind setting.steady place w := by
  induction twin generalizing w place with
  | ended | fresh | calling => rfl
  | sequence _ ih =>
    cases poised with | sequence inner
    rw [unwind_sequence, unwind_sequence, ih inner]
    rfl
  | @block ts us queue handedBack size each spare ih =>
    have together (i : Nat) : EndsTogether setting w.clock (ts.getD i .ended) (us.getD i .ended) :=
      ⟨each i, fun _ place w' now => ih i (now.symm ▸ poised.branch i) place⟩
    exact collapse_as size together poised spare place []

section Blocks

variable {i : Nat} {queue whole : List Nat} {before after : Bool}

theorem Twin.size (twin : Twin (.block ts whole before) (.block us queue after)) :
    ts.length = us.length := by
  cases twin with | block size
  exact size

theorem Twin.branch (twin : Twin (.block ts whole before) (.block us queue after)) (i : Nat) :
    Twin (ts.getD i .ended) (us.getD i .ended) := by
  cases twin with | block _ each
  exact each i

theorem Twin.exists_spare (twin : Twin (.block ts whole before) (.block us queue after)) :
    ∃ spare, whole = queue ++ spare := by
  cases twin with | block _ _ spare
  exact ⟨spare, rfl⟩

theorem Twin.ended_alike (twin : Twin (.block ts whole before) (.block us queue after)) :
    Forall₂ (fun t u : Task => t.hasEnded = u.hasEnded) ts us :=
  forall₂_of_getD twin.size fun i => (twin.branch i).hasEnded

/-- All entries of a queue may be spare ones. -/
theorem Twin.spare (size : ts.length = us.length) (each : ∀ i, Twin (ts.getD i .ended) (us.getD i .ended))
    (queue : List Nat) (before : Bool) : Twin (.block ts queue before) (.block us [] false) :=
  @Twin.block ts us [] before size each queue

theorem Twin.asleep (twin : Twin t u) (rests : u.Rests fun call => w.clock < call.nextInstant) :
    u.woken = false := by
  induction twin with
  | ended | calling | block => rfl
  | fresh => cases rests
  | sequence _ ih =>
    cases rests with | sequence first
    exact ih first

theorem getD_set_twin (size : ts.length = us.length)
    (each : ∀ i, Twin (ts.getD i .ended) (us.getD i .ended)) (twin : Twin t u) (i j : Nat) :
    Twin ((ts.set i t).getD j .ended) ((us.set i u).getD j .ended) := by
  by_cases eq : i = j
  · subst eq
    rw [List.getD_eq_getElem?_getD, List.getD_eq_getElem?_getD, List.getElem?_set_self',
      List.getElem?_set_self']
    by_cases bound : i < ts.length
    · rw [List.getElem?_eq_getElem bound, List.getElem?_eq_getElem (size ▸ bound)]
      exact twin
    · rw [List.getElem?_eq_none (Nat.le_of_not_lt bound),
        List.getElem?_eq_none (size ▸ Nat.le_of_not_lt bound)]
      exact .ended
  · rw [getD_set_of_ne eq, getD_set_of_ne eq]
    exact each j

theorem Twin.set (twin : Twin (.block ts whole before) (.block us queue after)) (inner : Twin t u) (i : Nat)
    (spare : List Nat) (queue' : List Nat) (before' : Bool) :
    Twin (.block (ts.set i t) (queue' ++ spare) before') (.block (us.set i u) queue' false) :=
  .block (by rw [List.length_set, List.length_set, twin.size]) (getD_set_twin twin.size twin.branch inner i)
    spare

theorem Twin.started (parts : List Statement) :
    Twin (.block (parts.map .fresh) (List.range parts.length) true)
      (.block (parts.map .fresh) (List.range parts.length) false) := by
  have each (i : Nat) : Twin ((parts.map Task.fresh).getD i .ended) ((parts.map .fresh).getD i .ended) := by
    rcases getD_fresh parts i with ⟨eq, -⟩ | ⟨s, eq, -⟩ <;> rw [eq]
    · exact .ended
    · exact .fresh s
  have twin : Twin (.block (parts.map .fresh) (List.range parts.length ++ []) true) _ :=
    .block rfl each []
  rwa [List.append_nil] at twin

theorem failAll_twin (size : ts.length = us.length) (each : ∀ i, Twin (ts.getD i .ended) (us.getD i .ended))
    (right : (Task.block us queue before).Poised fun call => w.clock < call.nextInstant) (spare : List Nat)
    (failure : Failure) : failAll setting place ts (queue ++ spare) failure w =
      failAll setting.steady place us queue failure w := by
  have same : (observe setting.mode place [] (pending ts) failure w).clock = w.clock := by
    rcases observe_notes setting.mode place [] (pending ts) failure w with eq | notes
    · rw [eq]
    · exact notes.clock
  have poised : (Task.block us queue before).Poised fun call =>
      (observe setting.mode place [] (pending ts) failure w).clock < call.nextInstant := by
    rw [same]
    exact right
  have together (i : Nat) : EndsTogether setting (observe setting.mode place [] (pending ts) failure w).clock
      (ts.getD i .ended) (us.getD i .ended) :=
    ⟨each i, fun _ place w' now => (each i).unwind (now ▸ poised.branch i) place⟩
  have left : pending ts = pending us := pending_congr (forall₂_of_getD size fun i => (each i).hasEnded)
  rw [failAll, failAll, collapse_as size together poised, left]
  rfl

/-- Where the branches rest on one side, those on the other side wait when they are polled. -/
theorem pollNext_idle (size : ts.length = us.length)
    (each : ∀ i, Twin (ts.getD i .ended) (us.getD i .ended))
    (idle : ∀ i, (us.getD i .ended).hasEnded = false → ∀ t, Twin t (us.getD i .ended) →
      ∃ t', t.poll setting (place ++ [i]) w = (w, .waiting t') ∧ Twin t' (us.getD i .ended))
    (left : Nat) (yielded : Bool) (queue : List Nat) :
    ∃ ts' whole after, pollNext setting (poll setting) place left yielded ts queue w =
        (w, .pending ts' whole after) ∧
      Twin (.block ts' whole after) (.block us [] false) := by
  induction left generalizing ts yielded queue with
  | zero => exact ⟨_, _, _, rfl, .spare size each queue _⟩
  | succ left ih =>
    rw [pollNext]
    rcases found : dropEnded ts queue with _ | ⟨i, queue⟩
    · exact ⟨_, _, _, rfl, .spare size each [] _⟩
    · have active := (each i).hasEnded.symm.trans (hasEnded_of_dropEnded found)
      obtain ⟨t', polled, twin⟩ := idle i active _ (each i)
      have size' : (ts.set i t').length = us.length := List.length_set.trans size
      have each' (j : Nat) : Twin ((ts.set i t').getD j .ended) (us.getD j .ended) := by
        by_cases eq : i = j
        · subst eq
          rw [getD_set_self (hasEnded_of_dropEnded found)]
          exact twin
        · rw [getD_set_of_ne eq]
          exact each j
      simp only [polled]
      split
      · exact ⟨_, _, _, rfl, .spare size' each' _ _⟩
      · exact ih size' each' _ _

/-- A poll does nothing on one side if on the other side all rests. -/
theorem Twin.idle (twin : Twin t u) (rests : u.Rests fun call => w.clock < call.nextInstant)
    (live : w.cancelled = false) (place : Position) :
    ∃ t', t.poll setting place w = (w, .waiting t') ∧ Twin t' u := by
  induction rests generalizing t place with
  | @calling call pending =>
    cases twin
    refine ⟨.calling call, ?_, .calling call⟩
    rw [poll_eq, pollWith, Call.resume_pending pending live]
    rfl
  | sequence _ ih =>
    cases twin with | sequence first
    obtain ⟨t', polled, twin⟩ := ih first (place ++ [_])
    exact ⟨_, by rw [poll_sequence, polled]; rfl, .sequence twin⟩
  | @block us handedBack each active ih =>
    have same {ts : List Task} {whole : List Nat} {before : Bool}
        (twin : Twin (.block ts whole before) (.block us [] handedBack)) : ts.all Task.hasEnded = false := by
      rw [all_hasEnded_congr twin.ended_alike]
      simpa using active
    cases twin with | @block ts _ _ _ size twins spare
    have inner (i : Nat) (live : (us.getD i .ended).hasEnded = false) (t : Task)
        (twin : Twin t (us.getD i .ended)) :
        ∃ t', t.poll setting (place ++ [i]) w = (w, .waiting t') ∧ Twin t' (us.getD i .ended) :=
      ih _ (List.mem_of_getElem? (getElem?_of_live live)) live twin (place ++ [i])
    have some : pending ts ≠ 0 := fun none =>
      Bool.false_ne_true ((same (.spare size twins spare false)).symm.trans (all_hasEnded_of_pending none))
    obtain ⟨left, eq⟩ := Nat.exists_eq_succ_of_ne_zero some
    obtain ⟨ts', whole, after, polled, twin⟩ := pollNext_idle size twins inner (left + 1) false spare
    refine ⟨.block ts' whole after, ?_, twin⟩
    rw [poll_eq, pollWith, List.nil_append, eq, pollAll_succ, polled, afterNext, Progress.ofBranches,
      same twin]
    rfl

end Blocks

end Task

end FlowTree
