import FlowTree.Proofs.Barriers
import FlowTree.Proofs.Run.Firsts

/-! Branches launch in list order. When an invocation starts, the first invocation of every earlier
branch of a block around it has started: a block goes on to its next branch only when the current one
waits or has gone well, and then the first invocation of that branch is out. -/

set_option autoImplicit false

namespace FlowTree

namespace Trace

def Opens (trace : Trace) (place : Position) : Prop := ∃ name, (place, name) ∈ trace.opened

def Launches (root : Statement) (trace : Trace) : Prop :=
  trace.Gated fun before place => root.Ready before.Opens place

theorem Opens.append {trace : Trace} {place : Position} (opens : trace.Opens place) (later : Trace) :
    (trace ++ later).Opens place := by
  obtain ⟨name, mem⟩ := opens
  exact ⟨name, opened_append trace later ▸ Multiset.mem_add.2 (.inl mem)⟩

end Trace

theorem World.Onward.opens {w w' : World} (onward : w.Onward w') (place : Position)
    (opens : w.trace.Opens place) : w'.trace.Opens place := by
  obtain ⟨later, grown, -⟩ := onward.moments
  rw [World.trace_append grown]
  exact opens.append _

/-- A task under way, at a position of a tree: all that is still to start in it may start as far as the
blocks around it go. -/
inductive Task.Launched (root : Statement) (opened : Position → Prop) : Position → Task → Prop where
  | ended {place : Position} : Launched root opened place .ended
  | calling {place : Position} {call : Call} : Launched root opened place (.calling call)
  | fresh {place : Position} {s : Statement} (at_place : root.at? place = some s)
    (ready : root.Ready opened place) : Launched root opened place (.fresh s)
  | sequence {place : Position} {elements : List Statement} {current : Task} {index : Nat}
    {rest : List Statement} (at_place : root.at? place = some (.sequence elements))
    (left : elements.drop (index + 1) = rest) (ready : root.Ready opened place)
    (inside : Launched root opened (place ++ [index]) current) :
    Launched root opened place (.sequence current index rest)
  -- The branches that have not been polled yet are the last ones, and the first ones in the queue.
  | block {place : Position} {statements : List Statement} {branches : List Task}
    {again : List Nat} {handedBack : Bool} (polled : Nat)
    (at_place : root.at? place = some (.parallel statements)) (ready : root.Ready opened place)
    (begun : ∀ k < polled, ∀ s, statements[k]? = some s → s.Begun opened (place ++ [k]))
    (each : ∀ k < polled, ∀ branch, branches[k]? = some branch →
      Launched root opened (place ++ [k]) branch)
    (left : branches.drop polled = (statements.drop polled).map .fresh)
    (earlier : ∀ k ∈ again, k < polled) :
    Launched root opened place
      (.block branches (List.range' polled (statements.length - polled) ++ again) handedBack)

variable {root : Statement} {setting : Setting} {place : Position} {w w' : World}

theorem Task.Launched.mono {opened more : Position → Prop} {task : Task}
    (launched : task.Launched root opened place) (grows : ∀ q, opened q → more q) :
    task.Launched root more place := by
  induction launched with
  | ended => exact .ended
  | calling => exact .calling
  | fresh at_place ready => exact .fresh at_place (ready.mono grows)
  | sequence at_place left ready _ ih => exact .sequence at_place left (ready.mono grows) ih
  | block polled at_place ready begun _ left earlier ih =>
    exact .block polled at_place (ready.mono grows)
      (fun k less s at_k => (begun k less s at_k).mono grows) ih left earlier

namespace Statement

theorem drop_cons {α : Type} {all rest : List α} {index : Nat} {a : α}
    (left : all.drop index = a :: rest) : all[index]? = some a ∧ all.drop (index + 1) = rest := by
  rw [← List.head?_drop, ← List.tail_drop, left]
  exact ⟨rfl, rfl⟩

/-- The first invocation of some elements has started, of which the first has the given index. -/
def ElementsBegun (rest : List Statement) (opened : Position → Prop) (place : Position)
    (index : Nat) : Prop :=
  ∀ i early, (sequence rest).First (i :: early) → opened (place ++ (index + i) :: early)

section Elements

variable {opened more : Position → Prop} {s : Statement} {rest : List Statement} {index : Nat}

theorem ElementsBegun.nil : ElementsBegun [] opened place index := by
  intro i early first
  cases first with
  | element at_i => cases at_i

theorem ElementsBegun.begun (begun : ElementsBegun rest opened place 0) :
    (sequence rest).Begun opened place := by
  intro early first
  cases first with
  | @element _ i _ early at_i first idle =>
    rw [← Nat.zero_add i]
    exact begun i early (.element at_i first idle)

theorem ElementsBegun.of_head (filled : s.invocationCount ≠ 0) (begun : s.Begun opened (place ++ [index])) :
    ElementsBegun (s :: rest) opened place index := by
  intro i early first
  cases first with
  | element at_i first idle =>
    cases i with
    | zero =>
      cases at_i
      rw [List.append_cons]
      exact begun early first
    | succ i => exact absurd (idle 0 (Nat.succ_pos i) s rfl) filled

theorem ElementsBegun.of_tail (begun : s.Begun opened (place ++ [index]))
    (later : ElementsBegun rest opened place (index + 1)) :
    ElementsBegun (s :: rest) opened place index := by
  intro i early first
  cases first with
  | element at_i first idle =>
    cases i with
    | zero =>
      cases at_i
      rw [List.append_cons]
      exact begun early first
    | succ i =>
      rw [← Nat.add_assoc, Nat.add_right_comm]
      refine later i early (.element at_i first fun k less t at_k => ?_)
      exact idle (k + 1) (Nat.succ_lt_succ less) t at_k

-- Once a branch with invocations has begun, the first invocation of the block is in that branch or in an
-- earlier one.
theorem Begun.of_branch {branches : List Statement} {polled : Nat}
    (begun : ∀ k < polled, ∀ s, branches[k]? = some s → s.Begun opened (place ++ [k]))
    (enough : branches.length ≤ polled ∨
      ∃ k < polled, ∃ s, branches[k]? = some s ∧ s.invocationCount ≠ 0) :
    (parallel branches).Begun opened place := by
  intro early first
  cases first with
  | @branch _ i s early at_i first idle =>
    rw [List.append_cons]
    refine begun i ?_ s at_i early first
    rcases enough with all | ⟨k, less, t, at_k, filled⟩
    · exact (List.getElem?_eq_some_iff.1 at_i).1.trans_le all
    · rcases Nat.lt_or_ge k i with before | after
      · exact absurd (idle k before t at_k) filled
      · exact after.trans_lt less

end Elements

end Statement

theorem Call.Lands.gated {gate : Trace → Position → Prop} {call : Call} {state : Call ⊕ Outcome}
    (lands : call.Lands w w' state) (gated : w.trace.Gated gate) : w'.trace.Gated gate := by
  cases lands with
  | asleep => exact gated
  | completed output live =>
    rw [Call.trace_complete]
    refine gated.concat fun _ _ _ _ eq => ?_
    cases eq
  | failed fails => exact (World.Settles.of_emit fails.drains).gated gated

namespace Task

/-- What has started in a task that has been polled. -/
def Out (root : Statement) (opened : Position → Prop) (place : Position) : Task → Prop
  | .fresh s => s.Begun opened place
  | .sequence (.fresh s) index rest => Statement.ElementsBegun (s :: rest) opened place index
  | .block _ _ _ => ∀ branches, root.at? place = some (.parallel branches) →
    (Statement.parallel branches).Begun opened place
  | _ => True

theorem stepsLeftAll_eq_zero {branches : List Task} :
    stepsLeftAll branches = 0 ↔ ∀ b ∈ branches, b.stepsLeft = 0 := by
  induction branches with
  | nil => exact iff_of_true rfl nofun
  | cons head rest ih => rw [stepsLeftAll, Nat.add_eq_zero_iff, ih, List.forall_mem_cons]

theorem calls_of_stepsLeft {task : Task} (none : task.stepsLeft = 0) : task.part.calls = 0 := by
  induction task with
  | ended => rfl
  | fresh s => exact s.calls_part
  | calling call => cases none
  | sequence current index rest ih =>
    rw [part, Part.calls_sequence]
    exact ih none
  | block branches queue handedBack ih =>
    rw [part, Part.calls, Part.callsAll_eq_zero, parts_eq_map]
    intro b mem
    obtain ⟨task, within, rfl⟩ := List.mem_map.1 mem
    exact ih task within (stepsLeftAll_eq_zero.1 none task within)

/-- A statement that waits after its first poll has invocations. -/
theorem Polls.filled {s : Statement} {task : Task}
    (h : Polls setting (.fresh s) place w w' (.waiting task)) : s.invocationCount ≠ 0 := by
  intro none
  have noMore := h.noMore
  have calls := (h.proceeds (.fresh s)).begun.calls_ne_zero
  refine calls (calls_of_stepsLeft ?_)
  simp only [NoMore, unstarted, stepsLeft, none] at noMore
  omega

theorem Polls.onward {task : Task} {progress : Progress} (h : Polls setting task place w w' progress) :
    w.Onward w' := by
  induction h with
  | ended | noop | nothing | rest => exact .refl _
  | skip => exact .of_added (Nat.le_refl _) (World.moments_emit _ _) (Nat.le_refl _)
  | @start call place w w' _ live started =>
    have move : Flight.Move setting _ ⟨w, (place, call) ::ₘ 0, 0⟩ ⟨w', 0, _⟩ := .start live started
    exact move.onward
  | @resume call _ w w' _ resumed =>
    have move : Flight.Move setting _ ⟨w, 0, call ::ₘ 0⟩ ⟨w', 0, _⟩ := .resume resumed
    exact move.onward
  | elements _ ih | wait _ ih | stop _ ih | last _ ih | branches _ ih | branchWaitsLast _ _ ih => exact ih
  | next _ _ ih later | branchWaits _ _ ih later | branchOk _ _ ih later => exact ih.trans later
  | branchFails _ collapsed ih =>
    obtain ⟨still, later, grown, drains⟩ := (World.Settles.of_observe _ _ _ _ _ _).trans
      (collapse_unwinds collapsed).settled
    exact ih.trans ⟨Nat.le_of_eq still.clock.symm, later, grown, fun m mem => Nat.le_of_eq (drains m mem).1.clock.symm⟩

section Blocks

variable {opened more : Position → Prop} {statements : List Statement} {branches : List Task}
  {index polled : Nat} {queue again : List Nat} {handedBack : Bool}

/-- A block of which the branch at the head of the queue is to be polled. That one may not have started. -/
structure Heads (root : Statement) (opened : Position → Prop) (place : Position)
    (statements : List Statement) (branches : List Task) (index : Nat) (queue : List Nat) (polled : Nat)
    (again : List Nat) : Prop where
  at_place : root.at? place = some (.parallel statements)
  ready : root.Ready opened place
  less : index < polled
  each : ∀ k < polled, ∀ branch, branches[k]? = some branch → branch.Launched root opened (place ++ [k])
  begun : ∀ k < polled, ∀ s, statements[k]? = some s →
    s.Begun opened (place ++ [k]) ∨ k = index ∧ branches.getD index .ended = .fresh s
  left : branches.drop polled = (statements.drop polled).map .fresh
  queue_eq : queue = List.range' polled (statements.length - polled) ++ again
  earlier : ∀ k ∈ again, k < polled
  /-- Either all branches have been polled, or this one is about to start. -/
  enough : statements.length ≤ polled ∨
    ∃ s, statements[index]? = some s ∧ branches.getD index .ended = .fresh s

theorem Launched.heads
    (launched : (Task.block branches (index :: queue) handedBack).Launched root opened place) :
    ∃ statements polled again, Heads root opened place statements branches index queue polled again := by
  generalize eq : index :: queue = all at launched
  cases launched with | @block _ statements _ again _ polled at_place ready begun each left earlier
  rcases Nat.lt_or_ge polled statements.length with less | past
  · obtain ⟨s, at_polled⟩ : ∃ s, statements[polled]? = some s := ⟨_, List.getElem?_eq_getElem less⟩
    have fresh : branches[polled]? = some (.fresh s) := by
      rw [← List.head?_drop, left, List.head?_map, List.head?_drop, at_polled]
      rfl
    have found : branches.getD polled .ended = .fresh s := by
      rw [List.getD_eq_getElem?_getD, fresh]
      rfl
    obtain ⟨n, more⟩ : ∃ n, statements.length - polled = n + 1 :=
      Nat.exists_eq_succ_of_ne_zero (Nat.sub_ne_zero_of_lt less)
    have rest : statements.length - (polled + 1) = n := by rw [Nat.sub_add_eq, more, Nat.add_sub_cancel]
    rw [more, List.range'_succ, List.cons_append] at eq
    obtain ⟨rfl, rfl⟩ := List.cons.inj eq
    refine ⟨statements, index + 1, again, at_place, ready, Nat.lt_succ_self _, ?_, ?_, ?_, by rw [rest],
      fun k mem => Nat.lt_succ_of_lt (earlier k mem), .inr ⟨s, at_polled, found⟩⟩
    · intro k below branch at_k
      rcases Nat.lt_succ_iff_lt_or_eq.1 below with below | rfl
      · exact each k below branch at_k
      · obtain rfl := Option.some.inj (fresh.symm.trans at_k)
        exact .fresh ((Statement.at?_branch at_place k).trans at_polled) (ready.branch at_place begun)
    · intro k below t at_k
      rcases Nat.lt_succ_iff_lt_or_eq.1 below with below | rfl
      · exact .inl (begun k below t at_k)
      · obtain rfl := Option.some.inj (at_polled.symm.trans at_k)
        exact .inr ⟨rfl, found⟩
    · rw [← List.tail_drop, left, ← List.map_tail, List.tail_drop]
  · rw [Nat.sub_eq_zero_of_le past, List.range'_zero, List.nil_append] at eq
    obtain rfl := eq
    have below := List.forall_mem_cons.1 earlier
    refine ⟨statements, polled, queue, at_place, ready, below.1, each, fun k less s at_k => ?_, left, ?_,
      below.2, .inl past⟩
    · exact .inl (begun k less s at_k)
    · rw [Nat.sub_eq_zero_of_le past]
      rfl

namespace Heads

variable (heads : Heads root opened place statements branches index queue polled again)
include heads

theorem branch : (branches.getD index .ended).Launched root opened (place ++ [index]) := by
  rw [List.getD_eq_getElem?_getD]
  cases found : branches[index]? with
  | none => exact .ended
  | some branch => exact heads.each index heads.less branch found

/-- When the branch has been polled, it has begun as those before it have. -/
theorem begun_all (grows : ∀ q, opened q → more q)
    (out : (branches.getD index .ended).Out root more (place ++ [index])) {k : Nat} (less : k < polled)
    {s : Statement} (at_k : statements[k]? = some s) : s.Begun more (place ++ [k]) := by
  rcases heads.begun k less s at_k with begun | ⟨rfl, fresh⟩
  · exact begun.mono grows
  · rwa [fresh] at out

theorem replace (grows : ∀ q, opened q → more q)
    (out : (branches.getD index .ended).Out root more (place ++ [index])) {new : Task}
    (launched : new.Launched root more (place ++ [index])) {last : List Nat}
    (last_eq : last = queue ∨ last = queue ++ [index]) :
    (Task.block (branches.set index new) last handedBack).Launched root more place := by
  have left : (branches.set index new).drop polled = (statements.drop polled).map .fresh := by
    rw [List.drop_set_of_lt heads.less, heads.left]
  have each : ∀ k < polled, ∀ branch, (branches.set index new)[k]? = some branch →
      branch.Launched root more (place ++ [k]) := by
    intro k less branch at_k
    by_cases same : index = k
    · subst same
      obtain ⟨bound, rfl⟩ := List.getElem?_eq_some_iff.1 at_k
      rwa [List.getElem_set_self]
    · rw [List.getElem?_set_ne same] at at_k
      exact (heads.each k less branch at_k).mono grows
  have begun := fun k less s at_k => heads.begun_all grows out (k := k) less (s := s) at_k
  have ready := heads.ready.mono grows
  rcases last_eq with rfl | rfl
  · rw [heads.queue_eq]
    exact .block polled heads.at_place ready begun each left heads.earlier
  · rw [heads.queue_eq, List.append_assoc]
    refine .block polled heads.at_place ready begun each left fun k mem => ?_
    rcases List.mem_append.1 mem with mem | mem
    · exact heads.earlier k mem
    · exact List.mem_singleton.1 mem ▸ heads.less

theorem out_of_waits (grows : ∀ q, opened q → more q)
    (out : (branches.getD index .ended).Out root more (place ++ [index]))
    (filled : ∀ s, branches.getD index .ended = .fresh s → s.invocationCount ≠ 0) {last : List Task}
    {queue' : List Nat} {after : Bool} : (Task.block last queue' after).Out root more place := by
  intro statements' there
  cases heads.at_place.symm.trans there
  refine .of_branch (fun k less s => heads.begun_all grows out less) ?_
  rcases heads.enough with all | ⟨s, at_index, fresh⟩
  · exact .inl all
  · exact .inr ⟨index, heads.less, s, at_index, filled s fresh⟩

end Heads

/-- A block with nothing left to poll has all of its branches begun. -/
theorem Launched.out_of_rest (launched : (Task.block branches queue handedBack).Launched root opened place)
    (idle : branches.all hasEnded = false → queue = []) {last : List Task} {queue' : List Nat}
    {after : Bool} : (Task.block last queue' after).Out root opened place := by
  intro statements' there
  cases launched with | @block _ statements _ again _ polled at_place ready begun each left earlier
  cases at_place.symm.trans there
  refine .of_branch begun (.inl (Nat.le_of_not_lt fun less => ?_))
  have fresh : .fresh statements'[polled] ∈ branches.drop polled := by
    rw [left, List.drop_eq_getElem_cons less]
    exact List.mem_cons_self
  have empty := idle (Bool.eq_false_iff.2 fun all =>
    absurd (List.all_eq_true.1 all _ (List.mem_of_mem_drop fresh)) Bool.false_ne_true)
  rw [List.append_eq_nil_iff, List.range'_eq_nil_iff] at empty
  exact absurd empty.1 (Nat.sub_ne_zero_of_lt less)

/-- Timers change nothing in what has started. They fire when nothing is left to poll. -/
theorem Launched.wake {task : Task} (launched : task.Launched root opened place) (instant : Nat)
    (quiet : task.quiet = true) : (task.wake instant).Launched root opened place := by
  induction launched with
  | ended => exact .ended
  | calling => exact .calling
  | fresh => cases quiet
  | sequence at_place left ready _ ih => exact .sequence at_place left ready (ih quiet)
  | @block place statements branches again _ polled at_place ready begun each left earlier ih =>
    rw [Task.quiet, Bool.and_eq_true, List.isEmpty_iff, List.append_eq_nil_iff,
      List.range'_eq_nil_iff] at quiet
    obtain ⟨⟨past, -⟩, calm⟩ := quiet
    have all : branches.length ≤ polled := by
      have sizes := congrArg List.length left
      rw [List.length_drop, List.length_map, List.length_drop, past] at sizes
      exact Nat.sub_eq_zero_iff_le.1 sizes
    have same : queueAt instant branches =
        List.range' polled (statements.length - polled) ++ queueAt instant branches := by rw [past]; rfl
    rw [Task.wake, same, wakeAll_eq_map]
    refine .block polled at_place ready begun (fun k less branch at_k => ?_) ?_ fun k mem => ?_
    · rw [List.getElem?_map] at at_k
      obtain ⟨old, at_old, rfl⟩ := Option.map_eq_some_iff.1 at_k
      exact ih k less old at_old (quietAll_iff.1 calm old (List.mem_of_getElem? at_old))
    · rw [List.drop_eq_nil_of_le (by rwa [List.length_map]),
        List.drop_eq_nil_of_le (Nat.sub_eq_zero_iff_le.1 past), List.map_nil]
    · obtain ⟨old, at_k, -⟩ := mem_queueAt.1 mem
      exact (List.getElem?_eq_some_iff.1 at_k).1.trans_le all

end Blocks

/-- A task that has been polled: all has started in order, and so will what is left. -/
structure Starts (root : Statement) (task : Task) (place : Position) (w : World) (progress : Progress) :
    Prop where
  launches : w.trace.Launches root
  launched : ∀ task, progress = .waiting task → task.Launched root w.trace.Opens place
  out : (∀ failure, progress ≠ .ended (.error failure)) → task.Out root w.trace.Opens place

theorem Starts.of_error {task : Task} {failure : Failure} (launches : w.trace.Launches root) :
    Starts root task place w (.ended (.error failure)) :=
  ⟨launches, nofun, fun fine => absurd rfl (fine failure)⟩

theorem Starts.of_call {task : Task} {state : Call ⊕ Outcome} (launches : w.trace.Launches root)
    (out : task.Out root w.trace.Opens place) : Starts root task place w (.ofCall state) := by
  refine ⟨launches, fun task waits => ?_, fun _ => out⟩
  cases state with
  | inl call =>
    cases waits
    exact .calling
  | inr outcome => cases waits

theorem starts_call {invocation : Invocation} {state : Call ⊕ Outcome}
    (started : Call.start setting place invocation w = (w', state)) (ready : root.Ready w.trace.Opens place)
    (launches : w.trace.Launches root) :
    Starts root (.fresh (.invocation invocation)) place w' (.ofCall state) := by
  obtain ⟨called, mid, stirs, lands⟩ := Call.start_lands started
  have grown : mid.trace = w.trace ++ [.started place invocation.name (w.inputs invocation)
      (invocation.timeout.getD setting.timeout)] :=
    (congrArg Trace.ofMoments stirs.moments).trans (w.trace_emit _)
  have out : mid.trace.Opens place := by
    refine ⟨invocation.name, ?_⟩
    rw [grown, Trace.opened_append]
    exact Multiset.mem_add.2 (.inr (Multiset.mem_singleton_self _))
  refine .of_call (lands.gated ?_) fun rest first => ?_
  · rw [grown]
    refine launches.concat fun _ _ _ _ eq => ?_
    cases eq
    exact ready
  · cases first
    rw [List.append_nil]
    exact lands.onward.opens place out

theorem launched_branches {opened : Position → Prop} {branches : List Statement}
    (at_place : root.at? place = some (.parallel branches)) (ready : root.Ready opened place) :
    (Task.block (branches.map .fresh) (List.range branches.length) true).Launched root opened place := by
  have queue : List.range branches.length = List.range' 0 (branches.length - 0) ++ [] := by
    rw [List.append_nil, List.range_eq_range', Nat.sub_zero]
  rw [queue]
  exact .block 0 at_place ready nofun nofun rfl nofun

theorem requeue_cases (task : Task) (index : Nat) (queue : List Nat) :
    requeue task index queue = queue ∨ requeue task index queue = queue ++ [index] := by
  unfold requeue
  split
  · exact .inr rfl
  · exact .inl rfl

-- An element without invocations never waits, so what waits has its first invocation out.
theorem Polls.starts {task : Task} {progress : Progress} (h : Polls setting task place w w' progress)
    (launched : task.Launched root w.trace.Opens place) (launches : w.trace.Launches root) :
    Starts root task place w' progress := by
  induction h with
  | ended => exact ⟨launches, nofun, fun _ => trivial⟩
  | noop => exact ⟨launches, nofun, fun _ => .of_none rfl⟩
  | @skip call place w =>
    have told : (w.skip place call.name).trace = w.trace ++ [.skipped place call.name] :=
      World.trace_emit _ _
    refine .of_error ?_
    rw [told]
    refine launches.concat fun _ _ _ _ eq => ?_
    cases eq
  | start _ started =>
    cases launched with | fresh _ ready
    exact starts_call started ready launches
  | @resume _ _ w _ _ resumed =>
    obtain ⟨mid, stirs, lands⟩ := Call.resume_lands resumed
    have same : mid.trace = w.trace := congrArg Trace.ofMoments stirs.moments
    exact .of_call (lands.gated (same ▸ launches)) trivial
  | nothing => exact ⟨launches, nofun, fun _ => Statement.ElementsBegun.nil.begun⟩
  | elements _ ih =>
    cases launched with | fresh at_place ready
    have inside := Statement.at?_element at_place 0
    have starts := ih (.sequence at_place rfl ready (.fresh inside (ready.element at_place 0))) launches
    exact ⟨starts.launches, starts.launched, fun fine => (starts.out fine).begun⟩
  | @wait current task index rest place w w' first ih =>
    cases launched with | sequence at_place left ready inside
    have starts := ih inside launches
    refine ⟨starts.launches, ?_, fun _ => ?_⟩
    · rintro _ ⟨⟩
      exact .sequence at_place left (ready.mono first.onward.opens) (starts.launched task rfl)
    · cases current with
      | fresh s => exact .of_head first.filled (starts.out nofun)
      | _ => exact trivial
  | stop _ ih =>
    cases launched with | sequence at_place left ready inside
    exact .of_error (ih inside launches).launches
  | @last current index place w w' first ih =>
    cases launched with | sequence at_place left ready inside
    have starts := ih inside launches
    refine ⟨starts.launches, nofun, fun _ => ?_⟩
    cases current with
    | fresh s => exact .of_tail (starts.out nofun) .nil
    | _ => exact trivial
  | @next current index s rest place w mid w' progress first later ih later_ih =>
    cases launched with | sequence at_place left ready inside
    have starts := ih inside launches
    have ready := ready.mono first.onward.opens
    obtain ⟨at_index, left⟩ := Statement.drop_cons left
    have here := (Statement.at?_element at_place (index + 1)).trans at_index
    have others := later_ih
      (.sequence at_place left ready (.fresh here (ready.element at_place (index + 1)))) starts.launches
    refine ⟨others.launches, others.launched, fun fine => ?_⟩
    cases current with
    | fresh t => exact .of_tail ((starts.out nofun).mono later.onward.opens) (others.out fine)
    | _ => exact trivial
  | branches _ ih =>
    cases launched with | @fresh _ _ at_place ready
    have starts := ih (launched_branches at_place ready) launches
    exact ⟨starts.launches, starts.launched, fun fine => starts.out fine _ at_place⟩
  | @rest branches queue before handedBack place w idle =>
    refine ⟨launches, fun task waits => ?_, fun _ => launched.out_of_rest fun live => (idle live).1⟩
    obtain ⟨rfl, -⟩ := ofBranches_waiting waits
    cases launched with | block polled at_place ready begun each left earlier
    exact .block polled at_place ready begun each left earlier
  | @branchWaits branches index queue handedBack task place w mid w' progress first later ih later_ih =>
    obtain ⟨statements, polled, again, heads⟩ := launched.heads
    have starts := ih heads.branch launches
    have others := later_ih (heads.replace first.onward.opens (starts.out nofun) (starts.launched task rfl)
      (requeue_cases task index queue)) starts.launches
    exact ⟨others.launches, others.launched, fun fine => others.out fine⟩
  | @branchWaitsLast branches index queue before handedBack task place w w' first calm ih =>
    obtain ⟨statements, polled, again, heads⟩ := launched.heads
    have starts := ih heads.branch launches
    refine ⟨starts.launches, fun new waits => ?_, fun _ => ?_⟩
    · obtain ⟨rfl, -⟩ := ofBranches_waiting waits
      exact heads.replace first.onward.opens (starts.out nofun) (starts.launched task rfl)
        (requeue_cases task index queue)
    · refine heads.out_of_waits first.onward.opens (starts.out nofun) fun s fresh => ?_
      rw [fresh] at first
      exact first.filled
  | @branchOk branches index queue handedBack place w mid w' progress first later ih later_ih =>
    obtain ⟨statements, polled, again, heads⟩ := launched.heads
    have starts := ih heads.branch launches
    have others := later_ih (heads.replace first.onward.opens (starts.out nofun) .ended (.inl rfl))
      starts.launches
    exact ⟨others.launches, others.launched, fun fine => others.out fine⟩
  | @branchFails branches index queue handedBack place w mid w' failure outcome first collapsed ih =>
    obtain ⟨statements, polled, again, heads⟩ := launched.heads
    have unwinds := collapse_unwinds collapsed
    have settles := (World.Settles.of_observe _ _ _ _ _ _).trans unwinds.settled
    obtain ⟨last, rfl⟩ := unwinds.fails_of_failure
    exact .of_error (settles.gated (ih heads.branch launches).launches)

end Task

/-- However a root goes on, what is left of it may start as before. -/
theorem Machine.GoesOn.launched {cancelAt : Option Nat} {task ready : Task} {instant : Nat}
    {opened : Position → Prop} (goes : GoesOn cancelAt w task instant ready)
    (launched : task.Launched root opened place) : ready.Launched root opened place := by
  cases goes with
  | again => exact launched
  | fires due => exact launched.wake _ due.awaits.quiet

namespace Machine

theorem finish_launches {cancelAt : Option Nat} {task : Task} (onTime : OnTime w task)
    (launched : task.Launched root w.trace.Opens []) (launches : w.trace.Launches root) :
    (finish setting cancelAt w task).1.trace.Launches root := by
  refine finish_induction (motive := fun w task result => task.Launched root w.trace.Opens [] →
    w.trace.Launches root → result.1.trace.Launches root) ?_ ?_ ?_ onTime launched launches
  · intro w task instant deadline due set passed launched launches
    exact (Task.wake_unwinds rfl).settled.gated launches
  · intro w task instant ready w' outcome goes polled launched launches
    exact ((Task.poll_polls polled).starts (goes.launched launched) launches).launches
  · intro w task instant ready mid later goes polled onTime ih launched launches
    have starts := (Task.poll_polls polled).starts (goes.launched launched) launches
    exact ih (starts.launched later rfl) starts.launches

theorem run_launches (cancelAt : Option Nat) (launches : w.trace.Launches root) :
    (run setting cancelAt root w).1.trace.Launches root := by
  have all : root.at? [] = some root := by cases root <;> rfl
  have ready : root.Ready w.trace.Opens [] := by
    intro p ahead
    generalize nothing : ([] : Position) = late at ahead
    cases ahead with
    | intro => exact absurd nothing (by simp)
  exact finish_launches (onTime_fresh w root) (.fresh all ready) launches

end Machine

theorem Event.started_of_mem {id : String} {trace : Trace} {place : Position} {name : String}
    (mem : (place, name) ∈ trace.opened) :
    ∃ inputs, .invocationStarted id name inputs ∈ ofTrace id trace := by
  obtain ⟨h, here, opens⟩ := List.mem_filterMap.1 (Multiset.mem_coe.1 mem)
  cases h with
  | started p n inputs timeout =>
    cases opens
    exact ⟨inputs, List.mem_filterMap.2 ⟨_, here, rfl⟩⟩
  | _ => cases opens

namespace Workflow

variable (workflow : Workflow) (setting : Setting) (cancellation : Cancellation)
  (called : List String)

theorem run_launches : (workflow.run setting cancellation called).trace.Launches workflow.root := by
  have start : (workflow.world called cancellation.before).trace.Launches workflow.root := by
    intro before place name inputs timeout after split
    rcases before with _ | ⟨_, _ | _⟩ <;> cases split
  rw [run, close_trace]
  refine (Machine.run_launches cancellation.at? start).concat fun _ _ _ _ ends => ?_
  generalize (Machine.run setting cancellation.at? workflow.root _).2 = outcome at ends
  cases outcome <;> cases ends

theorem run_opens_of_completes {trace later : Trace}
    (split : (workflow.run setting cancellation called).trace = trace ++ later) {place : Position}
    (completes : trace.Completes place) : trace.Opens place := by
  obtain ⟨w, outcome, eq, reaches⟩ := workflow.run_reaches setting cancellation called
  rw [eq] at split
  obtain ⟨name, mem⟩ := completes
  refine ⟨name, Multiset.mem_of_le (reaches.orderly_close _ _ split) ?_⟩
  rw [trace.closed_eq]
  exact Multiset.mem_add.2 (.inl mem)

/-- Branches launch in list order: when an invocation inside a branch starts, the first invocation of
each earlier branch has started, and so has the first one of its own branch, unless it is that one. -/
theorem run_launches_in_order (id : String)
    (distinct : (workflow.root.invocations.map (·.name)).Nodup) {place : Position}
    {branches : List Statement} (at_place : workflow.root.at? place = some (.parallel branches))
    {j : Nat} {branch : Statement} (at_j : branches[j]? = some branch) {name : String}
    (inside : name ∈ branch.invocations.map (·.name)) {before after : List Event}
    {inputs : List String}
    (split : (workflow.run setting cancellation called).events id =
      before ++ .invocationStarted id name inputs :: after) :
    (∀ i < j, ∀ earlier first, branches[i]? = some earlier → earlier.invocations.head? = some first →
      ∃ inputs, .invocationStarted id first.name inputs ∈ before) ∧
    ∀ first, branch.invocations.head? = some first →
      name = first.name ∨ ∃ inputs, .invocationStarted id first.name inputs ∈ before := by
  obtain ⟨call, mem, rfl⟩ := List.mem_map.1 inside
  obtain ⟨rest, found⟩ := Statement.exists_place mem
  have here := (Statement.at?_branch at_place j).trans at_j
  have placed := (Statement.invocation?_append here rest).trans found
  rw [workflow.run_events setting cancellation called id] at split
  obtain ⟨earlier, h, later, cut, rfl, tells⟩ := Event.ofTrace_split split
  have opened :=
    (workflow.run_known setting cancellation called (cut.trans (List.append_cons _ _ _))).1
  cases h with
  | started there name inputs timeout =>
    cases tells
    -- The call that starts is the one in the branch, as no other has its name.
    have started : (there, call.name) ∈ workflow.root.callIds := by
      refine Multiset.mem_of_le opened ?_
      rw [Trace.opened_append]
      exact Multiset.mem_add.2 (.inr (Multiset.mem_singleton_self _))
    obtain rfl := Statement.place_unique distinct started (Statement.mem_callIds placed)
    have ready := workflow.run_launches setting cancellation called _ _ _ _ _ _ cut
    have clear := workflow.run_barred setting cancellation called _ _ _ _ _ _ cut
    -- What is out under a position of the tree is the invocation that stands there.
    have told {p : Position} {first : Invocation} (first_at : workflow.root.invocation? p = some first)
        (out : Trace.Opens earlier p) :
        ∃ inputs, .invocationStarted id first.name inputs ∈ Event.ofTrace id earlier := by
      obtain ⟨name, out⟩ := out
      have known := (workflow.run_known setting cancellation called cut).1
      obtain ⟨known, found, rfl⟩ :=
        workflow.root.invocation?_of_mem_callIds (Multiset.mem_of_le known out)
      cases found.symm.trans first_at
      exact Event.started_of_mem out
    constructor
    · intro i less sibling first at_i head
      obtain ⟨q, isFirst, stands⟩ := Statement.exists_first head
      have there := (Statement.at?_branch at_place i).trans at_i
      refine told ((Statement.invocation?_append there q).trans stands) (ready _ ?_)
      rw [List.append_assoc, List.append_assoc]
      exact .intro at_place less at_i isFirst
    · intro first head
      obtain ⟨q, isFirst, stands⟩ := Statement.exists_first head
      have first_at := (Statement.invocation?_append here q).trans stands
      rcases isFirst.leads here found with rfl | inOrder | ahead
      · cases found.symm.trans stands
        exact .inl rfl
      · exact .inr (told first_at
          (workflow.run_opens_of_completes setting cancellation called cut (clear _ _ inOrder first_at)))
      · exact .inr (told first_at (ready _ ahead))
  | _ => cases tells

/-- A branch that sleeps after a statement that does nothing, and a branch that is done at once. -/
def staggered : Workflow :=
  .ofTree .empty (.parallel [
    .sequence [.noop, .invocation { name := "slow" }], .invocation { name := "quick" }])

def staggering : Setting where
  host := ⟨[("slow", .scripted [[.delay 5]]), ("quick", .scripted [[]])], false⟩

theorem staggered_launches_in_order : ∃ before after inputs,
    (staggered.run staggering {} []).events "run" =
      before ++ .invocationStarted "run" "quick" [] :: after ∧
    .invocationStarted "run" "slow" inputs ∈ before := by
  let first : List Event := [.workflowStarted "run" "workflow", .invocationStarted "run" "slow" []]
  let last : List Event := [.invocationCompleted "run" "quick" "",
    .invocationCompleted "run" "slow" "", .workflowCompleted "run"]
  obtain ⟨w, ended, told⟩ : ∃ w,
      Machine.run staggering none staggered.root (staggered.world [] false) = (w, .ok ()) ∧
      (close w (.ok ())).events "run" =
        first ++ .invocationStarted "run" "quick" [] :: last :=
    ⟨_, Machine.run_of_after 3 rfl, by decide⟩
  have ran : staggered.run staggering {} [] = close w (.ok ()) := by rw [run, ended]
  have atOnce : staggered.root.at? [] = some (.parallel [
      .sequence [.noop, .invocation { name := "slow" }], .invocation { name := "quick" }]) := rfl
  have split := (congrArg (fun run => run.events "run") ran).trans told
  obtain ⟨earlier, -⟩ := run_launches_in_order staggered staggering {} [] "run" (by decide) atOnce
    (j := 1) rfl (by decide) split
  obtain ⟨inputs, mem⟩ := earlier 0 Nat.zero_lt_one _ _ rfl rfl
  exact ⟨_, _, inputs, split, mem⟩

end Workflow

end FlowTree
