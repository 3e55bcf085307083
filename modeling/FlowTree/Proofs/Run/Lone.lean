import FlowTree.Proofs.Run.Calm
import FlowTree.Proofs.Run.Congruence

/-! Blocks with one branch. Where no block yields, such a block goes on as its branch does, and ends as it
ends: it notes a failure and hands it on. -/

set_option autoImplicit false

namespace FlowTree

namespace FailureMode

/-- How a block goes on after its only branch. -/
def goOn (mode : FailureMode) (place : Position) : World × Progress → World × Progress
  | (w, .waiting task) => (w, .waiting (.block [task] [] false))
  | (w, .ended (.ok ())) => (w, .ended (.ok ()))
  | (w, .ended (.error failure)) => (observe mode place [] 0 failure w, .ended (.error failure))

end FailureMode

namespace Task

variable {setting : Setting} {p : Call → Prop} {place : Position} {w : World} {task : Task}
  {queue : List Nat} {before : Bool}

end Task

namespace Likeness

variable {setting : Setting} {l : Likeness setting} {instant : Nat} {a b : World} {t u : Task}

/-- A task and a block of which the only branch is alike. The block is related to the task only while its
branch waits, since a block whose branches have all ended has ended itself. -/
inductive Only (l : Likeness setting) (t : Task) : Task → Prop where
  | intro {u : Task} (queue : List Nat) (tasks : l.Tasks t u) (active : t.hasEnded = false)
    (asleep : u.woken = false) : Only l t (.block [u] queue false)

theorem Tasks.active (tasks : l.Tasks t u) (active : t.hasEnded = false) : u.hasEnded = false :=
  tasks.matched.ended.symm.trans active

theorem Shows.goOn {x y : World × Progress} (turn : l.Shows instant l.Tasks x y)
    (asleep : ∀ w task, y = (w, .waiting task) → task.woken = false) (place : Position) :
    l.Shows instant (Only l) x (setting.mode.goOn place y) := by
  cases turn with
  | waiting meets tasks active => exact .waiting meets (.intro [] tasks active (asleep _ _ rfl)) active
  | ended outcome meets live =>
    cases outcome with
    | ok => exact .ended _ meets live
    | error failure => exact .fails _ (meets.observe_right _ _ _ _ _)

section

variable (steady : setting.yields = false)
include steady

end

end Likeness

end FlowTree
