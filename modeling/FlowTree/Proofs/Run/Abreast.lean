import FlowTree.Proofs.Run.Late
import FlowTree.Proofs.Run.Tame
import FlowTree.Proofs.Run.Twins

/-! Where it cannot be seen when blocks hand back. In a tame tree a block that hands back before it has
come to all of its branches is polled again before anything else goes on. Some polls in a row thus do what
one poll does if no block yields. -/

set_option autoImplicit false

namespace FlowTree

open List (Forall₂)

namespace Task

variable {setting : Setting} {place : Position} {w w' : World} {t u t' u' : Task} {ts us : List Task}
  {i : Nat} {queue whole : List Nat} {before after : Bool}

/-- Two tasks that can be polled, of which the first is tame. -/
structure Abreast (t u : Task) (w : World) : Prop where
  twin : Twin t u
  left : t.Going w
  right : u.Going w
  tame : t.Tame

/-- What comes of two tasks when the first is polled once. Where both wait, the second may have more to do,
but not if the first is slender. -/
inductive Follows (setting : Setting) (place : Position) (slender : Prop) :
    World × Progress → World × Progress → Prop where
  | ended (w : World) (outcome : Outcome) :
    Follows setting place slender (w, .ended outcome) (w, .ended outcome)
  | waits {t u : Task} {w : World} (twin : Twin t u) (right : u.Going w)
    (calm : slender → u.Rests fun call => w.clock < call.nextInstant) :
    Follows setting place slender (w, .waiting t) (u.poll setting.steady place w)

/-- A task that goes on in the same way whether blocks yield or not. -/
def Keeps (setting : Setting) (t : Task) : Prop :=
  ∀ u place w, t.Abreast u w →
    Follows setting place t.Slender (t.poll setting place w) (u.poll setting.steady place w)

variable {slender slender' : Prop} {l r : World × Progress} {index : Nat} {rest : List Statement}

theorem Follows.imp (weaker : slender' → slender) (follows : Follows setting place slender l r) :
    Follows setting place slender' l r := by
  cases follows with
  | ended w outcome => exact .ended w outcome
  | waits twin right calm => exact .waits twin right fun s => calm (weaker s)

theorem Follows.ofCall {state : Call ⊕ Outcome} (left : t.Going w)
    (polled : t.poll setting place w = (w', .ofCall state)) :
    Follows setting place slender (w', .ofCall state) (w', .ofCall state) := by
  rcases state with call | outcome
  · have pauses := left.pauses polled
    have rests := pauses.paused.rests rfl
    have same : poll setting.steady (.calling call) place w' = (w', .waiting (.calling call)) :=
      rests.poll rfl pauses.live place
    have follows : Follows setting place slender (w', .waiting (.calling call)) _ :=
      .waits (.calling call) pauses.going fun _ => rests
    rwa [same] at follows
  · exact .ended w' outcome

theorem Follows.ofElement (follows : Follows setting (place ++ [index]) slender l r)
    (weaker : slender' → slender)
    (later : ∀ mid, l = (mid, .ended (.ok ())) → Follows setting place slender'
      (pollElements (poll setting) place rest (index + 1) mid)
      (pollElements (poll setting.steady) place rest (index + 1) mid)) :
    Follows setting place slender' (Progress.ofElement setting rest place index l)
      (Progress.ofElement setting.steady rest place index r) := by
  cases follows with
  | ended w outcome =>
    rcases outcome with failure | _
    · exact .ended w (.error failure)
    · exact later w rfl
  | waits twin right calm =>
    rw [← poll_sequence]
    exact .waits (.sequence twin) ⟨.sequence right.poised, right.live⟩ fun s => .sequence (calm (weaker s))

theorem Follows.elements (each : ∀ s ∈ rest, Keeps setting (.fresh s)) (tame : ∀ s ∈ rest, s.Tame)
    (live : w.cancelled = false) (index : Nat) :
    Follows setting place (∀ s ∈ rest, s.Slender) (pollElements (poll setting) place rest index w)
      (pollElements (poll setting.steady) place rest index w) := by
  induction rest generalizing index w with
  | nil => exact .ended w (.ok ())
  | cons s rest ih =>
    have mem := List.mem_cons_self (a := s) (l := rest)
    have tail {r : Statement} (mem : r ∈ rest) := List.mem_cons_of_mem s mem
    have abreast : (fresh s).Abreast (.fresh s) w :=
      ⟨.fresh s, .fresh live s, .fresh live s, .fresh (tame s mem)⟩
    rw [pollElements_cons, pollElements_cons]
    refine (each s mem _ _ _ abreast).ofElement (fun slender => .fresh (slender s mem)) fun mid ended => ?_
    exact (ih (fun r mem => each r (tail mem)) (fun r mem => tame r (tail mem))
      ((poll_polls ended).live_of_ok live) (index + 1)).imp fun slender r mem => slender r (tail mem)

section Block

theorem Tame.branch (tame : (Task.block ts whole before).Tame) (i : Nat) :
    (ts.getD i .ended).Tame := by
  cases tame with
  | single few each => exact each i
  | block each => exact (each i).tame

theorem Abreast.branch (abreast : (Task.block ts whole before).Abreast (.block us queue after) w) (i : Nat) :
    (ts.getD i .ended).Abreast (us.getD i .ended) w :=
  ⟨abreast.twin.branch i, abreast.left.branch i, abreast.right.branch i, abreast.tame.branch i⟩

theorem requeue_append (t : Task) (i : Nat) (queue spare : List Nat) :
    ∃ more, requeue t i (queue ++ spare) = queue ++ more := by
  unfold requeue
  split
  · exact ⟨spare ++ [i], List.append_assoc ..⟩
  · exact ⟨spare, rfl⟩

theorem passAll_waits (polled : poll setting (us.getD i .ended) (place ++ [i]) w = (w', .waiting u)) :
    passAll setting (poll setting) place us (i :: queue) w =
      passAll setting (poll setting) place (us.set i u) queue w' := by
  rw [passAll, polled]

/-- A branch that goes on does so in the pass of its block. -/
theorem passAll_again (active : (us.getD i .ended).hasEnded = false)
    (same : poll setting (us.getD i .ended) (place ++ [i]) w = poll setting u (place ++ [i]) w') :
    passAll setting (poll setting) place us (i :: queue) w =
      passAll setting (poll setting) place (us.set i u) (i :: queue) w' := by
  rw [passAll, passAll, getD_set_self active, same]
  simp only [List.set_set]

/-- What is in the queues of two blocks. -/
theorem Abreast.queued (abreast : (Task.block ts whole before).Abreast (.block us queue after) w) :
    queue.Nodup ∧ ∀ j ∈ queue, (us.getD j .ended).hasEnded = false ∧ (ts.getD j .ended).hasEnded = false := by
  have poised := abreast.right.poised
  cases poised with | block apart live
  exact ⟨apart, fun j mem => ⟨live j mem, (abreast.twin.branch j).hasEnded.trans (live j mem)⟩⟩

section Waits

variable (abreast : (Task.block ts (i :: whole) before).Abreast (.block us (i :: queue) after) w)
  (polled : poll setting (ts.getD i .ended) (place ++ [i]) w = (w', .waiting t)) (twin : Twin t u)
  (right : u.Going w')
include abreast polled twin right

/-- A branch that is polled and rests, in a block. -/
theorem Abreast.rests (rests : u.Rests fun call => w'.clock < call.nextInstant) :
    (Task.block (ts.set i t) (requeue t i whole) true).Abreast (.block (us.set i u) queue false) w' := by
  obtain ⟨spare, eq⟩ := abreast.twin.exists_spare
  obtain ⟨rfl⟩ : whole = queue ++ spare := (List.cons.inj eq).2
  obtain ⟨more, requeued⟩ := requeue_append t i queue spare
  have poised := abreast.right.poised
  rw [← (abreast.left.branch i).clock polled] at poised
  have going := poised.replace false rests.paused
  rw [requeue, twin.asleep rests, if_neg Bool.false_ne_true] at going
  refine ⟨?_, abreast.left.replace polled true, ⟨going, right.live⟩,
    (Milder.set (poll_polls polled).milder).tame abreast.tame⟩
  rw [requeued]
  exact abreast.twin.set twin i more queue true

/-- A branch that is polled and asks to be polled again, in a block without others. -/
theorem Abreast.again (few : ts.length ≤ 1) (woken : t.woken = true) :
    queue = [] ∧
      (Task.block (ts.set i t) (requeue t i whole) true).Abreast (.block (us.set i u) [i] false) w' := by
  obtain ⟨spare, eq⟩ := abreast.twin.exists_spare
  obtain ⟨rfl⟩ : whole = queue ++ spare := (List.cons.inj eq).2
  obtain ⟨rfl, rfl⟩ := List.append_eq_nil_iff.1 (abreast.left.nothing_else few)
  have active : u.hasEnded = false := twin.hasEnded.symm.trans (poll_polls polled).hasEnded
  have poised := abreast.right.poised
  rw [← (abreast.left.branch i).clock polled] at poised
  refine ⟨rfl, ?_, abreast.left.replace polled true, ⟨poised.stays false right.poised active, right.live⟩,
    (Milder.set (poll_polls polled).milder).tame abreast.tame⟩
  rw [requeue, woken]
  exact abreast.twin.set twin i [] [i] true

end Waits

/-- A branch that is polled and waits, in a block. -/
theorem Abreast.waits (abreast : (Task.block ts (i :: whole) before).Abreast (.block us (i :: queue) after) w)
    (keeps : Keeps setting (ts.getD i .ended))
    (polled : poll setting (ts.getD i .ended) (place ++ [i]) w = (w', .waiting t)) :
    ∃ us' queue', (Task.block (ts.set i t) (requeue t i whole) true).Abreast (.block us' queue' false) w' ∧
      passAll setting.steady (poll setting.steady) place us (i :: queue) w =
        passAll setting.steady (poll setting.steady) place us' queue' w' ∧
      ((Task.block ts (i :: whole) before).Slender → queue' = queue) := by
  have follows : Follows setting (place ++ [i]) (ts.getD i .ended).Slender _ _ :=
    keeps _ _ _ (abreast.branch i)
  rw [polled] at follows
  generalize eq : poll setting.steady (us.getD i .ended) (place ++ [i]) w = r at follows
  cases follows with | @waits _ u _ twin right calm
  by_cases rests : u.Rests fun call => w'.clock < call.nextInstant
  · rw [rests.poll (twin.asleep rests) right.live] at eq
    exact ⟨_, _, abreast.rests polled twin right rests, passAll_waits eq, fun _ => rfl⟩
  · -- Only the branch of a block without others can have more to do.
    have woken : t.woken = true := by
      by_contra asleep
      have pauses := (abreast.left.branch i).pauses polled
      exact rests (twin.rests (pauses.paused.rests (Bool.eq_false_iff.2 asleep))).1
    have few : ts.length ≤ 1 := by
      cases abreast.tame with
      | single few => exact few
      | block each => exact absurd (calm (each i)) rests
    have active := (abreast.queued.2 i List.mem_cons_self).1
    obtain ⟨rfl, next⟩ := abreast.again polled twin right few woken
    refine ⟨_, _, next, passAll_again active eq, fun slender => ?_⟩
    cases slender with | block each
    exact absurd (calm (each i)) rests

/-- What comes of two blocks when branches of the first are polled up to the one that ends. Where none ends,
the second may have branches left to poll, but not if the first could poll all in its queue. -/
inductive FollowsNext (setting : Setting) (place : Position) (ts₀ : List Task) (spent : Prop) :
    World × Next → World × Pass → Prop where
  | pending {ts us : List Task} {whole queue : List Nat} {handedBack : Bool} {w : World}
    (twin : Twin (.block ts whole handedBack) (.block us queue false))
    (right : (Task.block us queue false).Going w) (calm : spent → queue = []) :
    FollowsNext setting place ts₀ spent (w, .pending ts whole handedBack)
      (passAll setting.steady (poll setting.steady) place us queue w)
  | ok {ts us : List Task} {whole queue : List Nat} {w : World}
    (abreast : (Task.block ts whole true).Abreast (.block us queue false) w)
    (milder : (Task.block ts whole true).Milder (.block ts₀ [] true))
    (fewer : Task.pending ts + 1 = Task.pending ts₀) :
    FollowsNext setting place ts₀ spent (w, .ready ts whole (.ok ()))
      (passAll setting.steady (poll setting.steady) place us queue w)
  | error {ts : List Task} {whole : List Nat} {failure : Failure} {w w' : World} {outcome : Outcome}
    (failed : failAll setting place ts whole failure w = (w', outcome)) :
    FollowsNext setting place ts₀ spent (w, .ready ts whole (.error failure)) (w', .failed outcome)

/-- A block whose branches are sparse, which is about to poll so many of them: two branches that have asked
to be polled again are all that hold blocks, and there is no third one. -/
structure Spends (ts : List Task) (queue : List Nat) (left : Nat) (yielded : Bool) : Prop where
  slender : (Task.block ts [] true).Slender
  enough : queue.length ≤ left
  once : yielded = true → ∃ j, j ∉ queue ∧ (ts.getD j .ended).forks = true

theorem FollowsNext.imp {ts₀ ts₁ : List Task} {spent spent' : Prop} {l : World × Next} {r : World × Pass}
    (follows : FollowsNext setting place ts₀ spent l r) (weaker : spent' → spent)
    (milder : (Task.block ts₀ [] true).Milder (.block ts₁ [] true))
    (same : Task.pending ts₀ = Task.pending ts₁) : FollowsNext setting place ts₁ spent' l r := by
  cases follows with
  | pending twin right calm => exact .pending twin right fun s => calm (weaker s)
  | ok abreast mild fewer => exact .ok abreast (mild.trans milder) (fewer.trans same)
  | error failed => exact .error failed

section Spends

variable {left : Nat} {yielded : Bool}

theorem Spends.waits (spends : Spends ts (i :: queue) (left + 1) yielded) (apart : i ∉ queue)
    (live : (ts.getD i .ended).hasEnded = false)
    (polls : Polls setting (ts.getD i .ended) place w w' (.waiting t)) :
    Spends (ts.set i t) queue left (yielded || t.woken) := by
  have milder : (Task.block (ts.set i t) [] true).Milder (.block ts [] true) := .set polls.milder
  refine ⟨milder.slender spends.slender, Nat.le_of_succ_le_succ spends.enough, fun any => ?_⟩
  cases woken : t.woken with
  | true =>
    refine ⟨i, apart, ?_⟩
    rw [getD_set_self live]
    exact polls.forks_of_woken woken
  | false =>
    rw [woken, Bool.or_false] at any
    obtain ⟨j, idle, forks⟩ := spends.once any
    refine ⟨j, List.not_mem_of_not_mem_cons idle, ?_⟩
    rwa [getD_set_of_ne (List.ne_of_not_mem_cons idle).symm]

/-- After the second branch that asks to be polled again, no other one is in the queue. -/
theorem Spends.twice (spends : Spends ts (i :: queue) left true) (apart : i ∉ queue)
    (others : ∀ j ∈ queue, (ts.getD j .ended).hasEnded = false)
    (polls : Polls setting (ts.getD i .ended) place w w' (.waiting t)) (woken : t.woken = true) :
    queue = [] := by
  have slender := spends.slender
  cases slender with | block _ sparse
  obtain ⟨j, idle, forks⟩ := spends.once rfl
  have here := polls.milder.forks (polls.forks_of_woken woken)
  refine List.eq_nil_iff_forall_not_mem.2 fun k mem => ?_
  rcases sparse i j k here forks (others k mem) with eq | eq | eq
  · exact List.ne_of_not_mem_cons idle eq.symm
  · exact apart (eq ▸ mem)
  · exact List.not_mem_of_not_mem_cons idle (eq ▸ mem)

end Spends

theorem Abreast.ends (abreast : (Task.block ts (i :: whole) before).Abreast (.block us (i :: queue) after) w)
    (polled : poll setting (ts.getD i .ended) (place ++ [i]) w = (w', .ended (.ok ())))
    (same : poll setting.steady (us.getD i .ended) (place ++ [i]) w = (w', .ended (.ok ()))) :
    (Task.block (ts.set i .ended) whole true).Abreast (.block (us.set i .ended) queue false) w' := by
  obtain ⟨spare, eq⟩ := abreast.twin.exists_spare
  obtain ⟨rfl⟩ : whole = queue ++ spare := (List.cons.inj eq).2
  exact ⟨abreast.twin.set .ended i spare queue true, abreast.left.ends polled true,
    abreast.right.ends same false, (Milder.set (.ended _)).tame abreast.tame⟩

/-- A branch that ends, in a block. -/
theorem Abreast.ended {spent : Prop} {outcome : Outcome}
    (abreast : (Task.block ts (i :: whole) before).Abreast (.block us (i :: queue) after) w)
    (keeps : Keeps setting (ts.getD i .ended))
    (polled : poll setting (ts.getD i .ended) (place ++ [i]) w = (w', .ended outcome)) :
    FollowsNext setting place ts spent (w', .ready (ts.set i .ended) whole outcome)
      (passAll setting.steady (poll setting.steady) place us (i :: queue) w) := by
  have follows : Follows setting (place ++ [i]) (ts.getD i .ended).Slender _ _ :=
    keeps _ _ _ (abreast.branch i)
  rw [polled] at follows
  generalize same : poll setting.steady (us.getD i .ended) (place ++ [i]) w = r at follows
  cases follows
  rw [passAll, same]
  rcases outcome with failure | _
  · obtain ⟨spare, eq⟩ := abreast.twin.exists_spare
    obtain ⟨rfl⟩ : whole = queue ++ spare := (List.cons.inj eq).2
    have twin := abreast.twin.set .ended i spare queue true
    have poised := abreast.right.poised.ends false
    rw [← (abreast.right.branch i).clock same] at poised
    rcases failed : failAll setting.steady place (us.set i .ended) queue failure w' with ⟨last, outcome⟩
    simp only [failed]
    exact .error ((failAll_twin twin.size twin.branch poised spare failure).trans failed)
  · have live := (abreast.queued.2 i List.mem_cons_self).2
    exact .ok (abreast.ends polled same) (.set (.ended _)) (pending_set_ended live)

theorem Abreast.nothing {spent : Prop}
    (abreast : (Task.block ts whole before).Abreast (.block us [] after) w) (left : Nat) (yielded : Bool) :
    FollowsNext setting place ts spent (pollNext setting (poll setting) place left yielded ts whole w)
      (passAll setting.steady (poll setting.steady) place us [] w) := by
  have idle (j : Nat) (active : (us.getD j .ended).hasEnded = false) (t : Task)
      (twin : Twin t (us.getD j .ended)) :
      ∃ t', t.poll setting (place ++ [j]) w = (w, .waiting t') ∧ Twin t' (us.getD j .ended) := by
    refine twin.idle ?_ abreast.right.live (place ++ [j])
    have poised := abreast.right.poised
    cases poised with | block _ _ _ others
    exact others j _ (getElem?_of_live active) List.not_mem_nil active
  obtain ⟨ts', whole', handedBack, polled, twin⟩ :=
    pollNext_idle abreast.twin.size abreast.twin.branch idle left yielded whole
  rw [polled]
  exact .pending twin (abreast.right.again false) fun _ => rfl

-- The induction is on the number of branches that may still be polled.
theorem pollNext_follows {n : Nat} (left : Nat) (yielded : Bool)
    (keeps : ∀ t : Task, t.depth ≤ n → Keeps setting t) (bound : ∀ b ∈ ts, b.depth ≤ n)
    (abreast : (Task.block ts whole before).Abreast (.block us queue false) w) :
    FollowsNext setting place ts (Spends ts queue left yielded)
      (pollNext setting (poll setting) place left yielded ts whole w)
      (passAll setting.steady (poll setting.steady) place us queue w) := by
  induction left generalizing yielded before ts us whole queue w with
  | zero =>
    obtain ⟨spare, rfl⟩ := abreast.twin.exists_spare
    exact .pending (.block abreast.twin.size abreast.twin.branch spare) abreast.right fun spends =>
      List.length_eq_zero_iff.1 (Nat.le_zero.1 spends.enough)
  | succ left ih =>
    obtain ⟨spare, eq⟩ := abreast.twin.exists_spare
    cases queue with
    | nil => exact abreast.nothing _ _
    | cons i queue =>
      rw [List.cons_append] at eq
      subst eq
      obtain ⟨apart, live⟩ := abreast.queued
      have others (j : Nat) (mem : j ∈ i :: queue) := (live j mem).2
      have once := (List.nodup_cons.1 apart).1
      have inner := keeps _ (depth_getD bound i)
      rw [pollNext, abreast.left.dropEnded]
      rcases polled : poll setting (ts.getD i .ended) (place ++ [i]) w with ⟨mid, t | outcome⟩ <;>
        simp only [polled]
      · have polls := poll_polls polled
        obtain ⟨us', queue', next, same, kept⟩ := abreast.waits inner polled
        rw [same]
        split
        · next both =>
          obtain ⟨rfl, woken⟩ := Bool.and_eq_true_iff.1 both
          refine .pending next.twin next.right fun spends => ?_
          rw [kept (Milder.again.slender spends.slender)]
          exact spends.twice once (fun j mem => others j (List.mem_cons_of_mem i mem)) polls woken
        · have bound' := depth_set bound i (Nat.le_trans (poll_depth polled) (depth_getD bound i))
          refine (ih _ bound' next).imp (fun spends => ?_) (.set polls.milder)
            (pending_set (others i List.mem_cons_self) polls.hasEnded)
          rw [kept (Milder.again.slender spends.slender)]
          exact spends.waits once (others i List.mem_cons_self) polls
      · exact abreast.ended inner polled

/-- A block in which all goes on that is in its queue. -/
theorem pollAll_follows {n left : Nat} (keeps : ∀ t : Task, t.depth ≤ n → Keeps setting t)
    (bound : ∀ b ∈ ts, b.depth ≤ n)
    (abreast : (Task.block ts whole before).Abreast (.block us queue false) w)
    (all : pending ts = left) :
    Follows setting place (Task.block ts [] true).Slender
      (pollAll setting (poll setting) place left ts whole w)
      (Pass.progress false (passAll setting.steady (poll setting.steady) place us queue w)) := by
  induction left generalizing ts us whole queue before w with
  | zero =>
    have gone := all_hasEnded_of_pending all
    rw [all_hasEnded_congr abreast.twin.ended_alike] at gone
    rw [abreast.right.poised.nothing_left gone, passAll, pollAll, Pass.progress, Progress.ofBranches,
      if_pos gone]
    exact .ended w (.ok ())
  | succ left ih =>
    have agree : Agree n (poll setting) (poll setting) :=
      ⟨fun _ _ _ _ => rfl, fun _ le _ _ _ _ waits => Nat.le_trans (poll_depth waits) le⟩
    have bound' : ∀ b ∈ (pollNext setting (poll setting) place (left + 1) false ts whole w).2.branches,
        b.depth ≤ n := (agree.pollNext (left + 1) false bound whole w).2
    have few : queue.length ≤ pending us :=
      (calm_of_steady (rfl : setting.steady.yields = false) abreast.right.poised).length_le
    rw [← pending_congr abreast.twin.ended_alike, all] at few
    have follows : FollowsNext setting place ts (Spends ts queue (left + 1) false) _ _ :=
      pollNext_follows (left + 1) false keeps bound abreast
    rw [pollAll_succ]
    generalize pollNext setting (poll setting) place (left + 1) false ts whole w = l at follows bound' ⊢
    generalize passAll setting.steady (poll setting.steady) place us queue w = r at follows ⊢
    cases follows with
    | @pending ts' us' _ queue' _ w' twin right calm =>
      rw [afterNext, Progress.ofBranches, all_hasEnded_congr twin.ended_alike]
      cases gone : us'.all Task.hasEnded with
      | true =>
        rw [right.poised.nothing_left gone, passAll, Pass.progress, Progress.ofBranches, if_pos gone]
        exact .ended w' (.ok ())
      | false =>
        rw [← poll_block_steady rfl right.poised]
        exact .waits twin right fun slender =>
          right.poised.rests_of_calm false (calm ⟨slender, few, fun again => absurd again Bool.false_ne_true⟩) gone
    | ok abreast milder fewer =>
      exact (ih bound' abreast (Nat.succ.inj (fewer.trans all))).imp
        fun slender => Milder.again.slender (milder.slender slender)
    | error failed =>
      rw [afterNext, failed]
      exact .ended _ _

end Block

namespace Keeps

theorem ended : Keeps setting .ended := by
  rintro u place w ⟨twin, -, -, -⟩
  cases twin
  exact .ended w (.ok ())

theorem noop : Keeps setting (.fresh .noop) := by
  rintro u place w ⟨twin, -, -, -⟩
  cases twin
  exact .ended w (.ok ())

theorem invocation (call : Invocation) : Keeps setting (.fresh (.invocation call)) := by
  rintro u place w ⟨twin, left, -, -⟩
  cases twin
  have polled (setting : Setting) : poll setting (.fresh (.invocation call)) place w =
      ((Call.start setting place call w).1, .ofCall (Call.start setting place call w).2) := by
    rw [poll_eq, pollWith, pollFresh, left.live]
    rfl
  rw [polled, polled]
  exact .ofCall left (polled setting)

theorem calling (call : Call) : Keeps setting (.calling call) := by
  rintro u place w ⟨twin, left, -, -⟩
  cases twin
  have polled (setting : Setting) : poll setting (.calling call) place w =
      ((call.resume setting w).1, .ofCall (call.resume setting w).2) := poll_eq ..
  rw [polled, polled]
  exact .ofCall left (polled setting)

theorem elements (each : ∀ s ∈ rest, Keeps setting (.fresh s)) : Keeps setting (.fresh (.sequence rest)) := by
  rintro u place w ⟨twin, left, -, tame⟩
  cases twin
  cases tame with | fresh tame
  cases tame with | sequence tame
  rw [poll_elements, poll_elements]
  refine (Follows.elements each tame left.live 0).imp fun slender => ?_
  cases slender with | fresh slender
  cases slender with | sequence slender
  exact slender

theorem sequence (first : Keeps setting t) (each : ∀ s ∈ rest, Keeps setting (.fresh s)) :
    Keeps setting (.sequence t index rest) := by
  rintro u place w ⟨twin, left, right, tame⟩
  cases twin with | sequence inner
  cases tame with | sequence tame later
  rw [poll_sequence, poll_sequence]
  refine (first _ _ _ ⟨inner, left.first, right.first, tame⟩).ofElement (fun slender => ?_) fun mid ended => ?_
  · cases slender with | sequence slender
    exact slender
  · have live := (poll_polls ended).live_of_ok left.live
    refine (Follows.elements each later live (index + 1)).imp fun slender => ?_
    cases slender with | sequence _ slender
    exact slender

variable {n : Nat} (keeps : ∀ t : Task, t.depth ≤ n → Keeps setting t)
include keeps

theorem branches {parts : List Statement} (bound : ∀ s ∈ parts, s.depth ≤ n) :
    Keeps setting (.fresh (.parallel parts)) := by
  rintro u place w ⟨twin, left, right, tame⟩
  cases twin
  have started : (Task.block (parts.map .fresh) (List.range parts.length) true).Abreast
      (.block (parts.map .fresh) (List.range parts.length) false) w :=
    ⟨.started parts, .started left.live parts true, .started left.live parts false, Milder.started.tame tame⟩
  rw [poll_parallel_steady (rfl : setting.steady.yields = false), poll_eq, pollWith, pollFresh]
  refine (pollAll_follows keeps (fun b mem => ?_) started (pending_fresh parts)).imp Milder.started.slender
  obtain ⟨s, here, rfl⟩ := List.mem_map.1 mem
  exact bound s here

theorem block (bound : ∀ b ∈ ts, b.depth ≤ n) : Keeps setting (.block ts whole before) := by
  rintro u place w ⟨twin, left, right, tame⟩
  cases twin with | block size each spare
  rw [poll_block_steady (rfl : setting.steady.yields = false) right.poised, poll_eq, pollWith]
  exact (pollAll_follows keeps bound ⟨.block size each spare, left, right, tame⟩ rfl).imp Milder.again.slender

end Keeps

end Task

theorem Task.Milder.wake (t : Task) (instant : Nat) : (t.wake instant).Milder t := by
  induction t with
  | ended | fresh | calling => exact .refl _
  | sequence current index rest ih => exact .sequence ih
  | block branches queue handedBack ih =>
    refine .block (by rw [wakeAll_eq_map, List.length_map]) fun i => ?_
    rw [getD_wakeAll, List.getD_eq_getElem?_getD]
    cases found : branches[i]? with
    | none => exact .refl _
    | some b => exact ih b (List.mem_of_getElem? found)

namespace Machine

open FlowTree.Task (Twin)

variable {setting : Setting} {cancelAt : Option Nat} {w : World} {t u : Task}

/-- How a run goes on after its root is polled. -/
def goOn (setting : Setting) (cancelAt : Option Nat) : World × Progress → World × Outcome
  | (w, .waiting task) => finish setting cancelAt w task
  | (w, .ended outcome) => (w, outcome)

end Machine

end FlowTree
