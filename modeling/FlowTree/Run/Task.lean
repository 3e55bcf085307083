import FlowTree.Run.Call

/-! Statements under way. A task is what is left of a statement: one that has not started, a call in
flight, a sequence at one of its elements, or a block with the queue of its branches that are to go on. -/

set_option autoImplicit false

namespace FlowTree

namespace Statement

mutual

def depth : Statement → Nat
  | .invocation _ => 1
  | .sequence elements => depths elements + 1
  | .parallel branches => depths branches + 1
  | .noop => 1

def depths : List Statement → Nat
  | [] => 0
  | s :: rest => max (depth s) (depths rest)

end

mutual

def branchCount : Statement → Nat
  | .invocation _ => 0
  | .sequence elements => branchCounts elements
  | .parallel branches => branchCounts branches + branches.length
  | .noop => 0

def branchCounts : List Statement → Nat
  | [] => 0
  | s :: rest => branchCount s + branchCounts rest

end

end Statement

inductive Task where
  /-- A branch that has ended well. -/
  | ended
  | fresh (statement : Statement)
  | calling (call : Call)
  /-- A sequence at the element with an index, and the elements after it. -/
  | sequence (current : Task) (index : Nat) (rest : List Statement)
  /-- The queue holds the indices of branches. A block that has handed back asks to be polled again. -/
  | block (branches : List Task) (queue : List Nat) (handedBack : Bool)

inductive Progress where
  | waiting (task : Task)
  | ended (outcome : Outcome)

def insertByKey {α : Type} (key : α → Nat) (a : α) : List α → List α
  | [] => [a]
  | b :: rest => if key b ≤ key a then b :: insertByKey key a rest else a :: b :: rest

/-- Orders values by their keys; values with the same key keep their order. -/
def orderByKey {α : Type} (key : α → Nat) (values : List α) : List α :=
  values.foldl (fun sorted a => insertByKey key a sorted) []

namespace Task

/-- Induction in which a block has the hypothesis for each of its branches. -/
@[induction_eliminator]
theorem induction {motive : Task → Prop} (ended : motive .ended)
    (fresh : ∀ statement, motive (.fresh statement)) (calling : ∀ call, motive (.calling call))
    (sequence : ∀ current index rest, motive current → motive (.sequence current index rest))
    (block : ∀ branches queue handedBack, (∀ t ∈ branches, motive t) →
      motive (.block branches queue handedBack))
    (task : Task) : motive task :=
  @Task.rec motive (fun parts => ∀ t ∈ parts, motive t)
    ended fresh calling sequence block (fun _ mem => nomatch mem)
    (fun _ _ head tail t mem => by
      rcases List.mem_cons.1 mem with rfl | mem
      · exact head
      · exact tail t mem)
    task

def hasEnded : Task → Bool
  | .ended => true
  | _ => false

/-- Whether the task is to be polled again without a timer. -/
def woken : Task → Bool
  | .fresh _ => true
  | .sequence current _ _ => woken current
  | .block _ _ handedBack => handedBack
  | .ended | .calling _ => false

mutual

def depth : Task → Nat
  | .ended => 0
  | .fresh statement => statement.depth
  | .calling _ => 1
  | .sequence current _ rest => max (depth current) (Statement.depths rest) + 1
  | .block branches _ _ => depths branches + 1

def depths : List Task → Nat
  | [] => 0
  | task :: rest => max (depth task) (depths rest)

end

def least : Option Nat → Option Nat → Option Nat
  | some a, some b => some (min a b)
  | some a, none => some a
  | none, other => other

mutual

def nextInstant : Task → Option Nat
  | .ended | .fresh _ => none
  | .calling call => some call.nextInstant
  | .sequence current _ _ => nextInstant current
  | .block branches _ _ => nextInstants branches

def nextInstants : List Task → Option Nat
  | [] => none
  | task :: rest => least (nextInstant task) (nextInstants rest)

end

mutual

/-- The first of the task's timers, in the order they were set, that is due at an instant. -/
def dueAt (instant : Nat) : Task → Option Nat
  | .ended | .fresh _ => none
  | .calling call => call.dueAt instant
  | .sequence current _ _ => dueAt instant current
  | .block branches _ _ => anyDueAt instant branches

def anyDueAt (instant : Nat) : List Task → Option Nat
  | [] => none
  | task :: rest => least (dueAt instant task) (anyDueAt instant rest)

end

/-- The branches with a timer that is due, in the order of these timers. -/
def queueAt (instant : Nat) (branches : List Task) : List Nat :=
  let due := branches.zipIdx.filterMap fun (task, index) =>
    (task.dueAt instant).map fun serial => (serial, index)
  (orderByKey Prod.fst due).map Prod.snd

mutual

/-- What the timers do that are due at an instant: each puts its branch into the queue of its block, and
that block into the queue of the block around it. They fire when the queues are empty. -/
def wake (instant : Nat) : Task → Task
  | .ended => .ended
  | .fresh statement => .fresh statement
  | .calling call => .calling call
  | .sequence current index rest => .sequence (wake instant current) index rest
  | .block branches _ handedBack =>
    .block (wakeAll instant branches) (queueAt instant branches) handedBack

def wakeAll (instant : Nat) : List Task → List Task
  | [] => []
  | task :: rest => wake instant task :: wakeAll instant rest

end

def pending (branches : List Task) : Nat :=
  (branches.filter (!·.hasEnded)).length

mutual

def unstarted : Task → Nat
  | .ended => 0
  | .fresh statement => statement.invocationCount
  | .calling _ => 0
  | .sequence current _ rest => unstarted current + Statement.invocationCounts rest
  | .block branches _ _ => unstartedAll branches

def unstartedAll : List Task → Nat
  | [] => 0
  | task :: rest => unstarted task + unstartedAll rest

end

mutual

/-- The steps that the calls in flight have before them, and one more for each call. -/
def stepsLeft : Task → Nat
  | .ended | .fresh _ => 0
  | .calling call => call.rest.length + 1
  | .sequence current _ _ => stepsLeft current
  | .block branches _ _ => stepsLeftAll branches

def stepsLeftAll : List Task → Nat
  | [] => 0
  | task :: rest => stepsLeft task + stepsLeftAll rest

end

mutual

/-- The entries of the queues, and those of the blocks that have not started. -/
def queued : Task → Nat
  | .ended => 0
  | .fresh statement => statement.branchCount
  | .calling _ => 0
  | .sequence current _ rest => queued current + Statement.branchCounts rest
  | .block branches queue _ => queuedAll branches + queue.length

def queuedAll : List Task → Nat
  | [] => 0
  | task :: rest => queued task + queuedAll rest

end

end Task

end FlowTree
