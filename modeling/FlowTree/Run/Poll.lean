import FlowTree.Run.Unwind

/-! How tasks go on in a live scope. A task that is polled goes on until it waits or ends. A block polls
the branches in its queue; the first failure of a branch ends all others at once. A block that yields
hands back to what is around it when two of its branches have asked to be polled again, or when it has
polled as many branches as it has left, and asks to be polled again itself. -/

set_option autoImplicit false

namespace FlowTree

def Progress.ofCall : Call ⊕ Outcome → Progress
  | .inl call => .waiting (.calling call)
  | .inr outcome => .ended outcome

def Progress.ofBranches (branches : List Task) (queue : List Nat) (handedBack : Bool) : Progress :=
  if branches.all Task.hasEnded then .ended (.ok ())
  else .waiting (.block branches queue handedBack)

namespace Task

/-- What comes of the branches in a queue. -/
inductive Next where
  | pending (branches : List Task) (queue : List Nat) (handedBack : Bool)
  /-- One of the branches has ended. -/
  | ready (branches : List Task) (queue : List Nat) (outcome : Outcome)

/-- The queue of a block after one of its branches has been polled and waits. -/
def requeue (task : Task) (index : Nat) (queue : List Nat) : List Nat :=
  if task.woken then queue ++ [index] else queue

/-- What is left of a queue after its entries for branches that have ended in the meantime. -/
def dropEnded (branches : List Task) (queue : List Nat) : List Nat :=
  queue.dropWhile fun index => (branches.getD index .ended).hasEnded

section

variable (setting : Setting) (child : Task → Position → World → World × Progress) (place : Position)

/-- Polls branches up to the first that ends, at most as many as are left. -/
def pollNext : (left : Nat) → (yielded : Bool) → List Task → List Nat → World → World × Next
  | 0, _, branches, queue, w => (w, .pending branches queue (setting.yields || !queue.isEmpty))
  | left + 1, yielded, branches, queue, w =>
    match dropEnded branches queue with
    | [] => (w, .pending branches [] false)
    | index :: queue =>
      match child (branches.getD index .ended) (place ++ [index]) w with
      | (w, .ended outcome) => (w, .ready (branches.set index .ended) queue outcome)
      | (w, .waiting task) =>
        let branches := branches.set index task
        let queue := requeue task index queue
        if yielded && task.woken then (w, .pending branches queue true)
        else pollNext left (yielded || task.woken) branches queue w

/-- Polls the branches of a block of which some number is left. -/
def pollAll : (left : Nat) → List Task → List Nat → World → World × Progress
  | 0, _, _, w => (w, .ended (.ok ()))
  | left + 1, branches, queue, w =>
    match pollNext setting child place (left + 1) false branches queue w with
    | (w, .pending branches queue handedBack) => (w, .ofBranches branches queue handedBack)
    | (w, .ready branches queue (.ok ())) => pollAll left branches queue w
    | (w, .ready branches queue (.error failure)) =>
      let w := observe setting.mode place [] (pending branches) failure w
      let (w, outcome) := collapse setting branches queue place [failure] w
      (w, .ended outcome)

/-- Polls elements, of which the first has the given index, up to the first that waits or fails. -/
def pollElements : List Statement → (index : Nat) → World → World × Progress
  | [], _, w => (w, .ended (.ok ()))
  | s :: rest, index, w =>
    match child (.fresh s) (place ++ [index]) w with
    | (w, .waiting task) => (w, .waiting (.sequence task index rest))
    | (w, .ended (.ok ())) => pollElements rest (index + 1) w
    | (w, .ended (.error failure)) => (w, .ended (.error failure))

def pollFresh (statement : Statement) (w : World) : World × Progress :=
  match statement with
  | .noop => (w, .ended (.ok ()))
  | .invocation call =>
    if w.cancelled then (w.skip place call.name, .ended (.error .cancelled))
    else
      let (w, state) := Call.start setting place call w
      (w, .ofCall state)
  | .sequence elements => pollElements child place elements 0 w
  | .parallel branches =>
    pollAll setting child place branches.length (branches.map .fresh) (List.range branches.length) w

def pollWith (task : Task) (w : World) : World × Progress :=
  match task with
  | .ended => (w, .ended (.ok ()))
  | .fresh statement => pollFresh setting child place statement w
  | .calling call =>
    let (w, state) := call.resume setting w
    (w, .ofCall state)
  | .sequence current index rest =>
    match child current (place ++ [index]) w with
    | (w, .waiting task) => (w, .waiting (.sequence task index rest))
    | (w, .ended (.ok ())) => pollElements child place rest (index + 1) w
    | (w, .ended (.error failure)) => (w, .ended (.error failure))
  | .block branches queue _ => pollAll setting child place (pending branches) branches queue w

end

/-- Polls a task that is at most so deep. -/
def pollAt (setting : Setting) : (depth : Nat) → Task → Position → World → World × Progress
  | 0, _, _, w => (w, .ended (.ok ()))
  | depth + 1, task, place, w => pollWith setting (pollAt setting depth) place task w

/-- Lets a task go on until it waits or ends. -/
def poll (setting : Setting) (task : Task) (place : Position) (w : World) : World × Progress :=
  pollAt setting task.depth task place w

end Task

end FlowTree
