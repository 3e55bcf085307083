import FlowTree.Run.Polls

/-! Sequences element by element: how one goes on after an element is polled, and that a sequence with
more elements at its end goes on as before until it comes to these. Statements that do nothing, such as
empty blocks, can be elements and branches too. -/

set_option autoImplicit false

namespace FlowTree

variable {setting : Setting} {mode : FailureMode} {place : Position} {w : World}

/-- Statements that do nothing and end well, also in a cancelled scope. -/
inductive Statement.Idle : Statement → Prop where
  | noop : Idle .noop
  | sequence : Idle (.sequence [])
  | parallel : Idle (.parallel [])

namespace Statement.Idle

variable {s : Statement}

theorem poll (idle : s.Idle) : (Task.fresh s).poll setting place w = (w, .ended (.ok ())) := by
  cases idle <;> rfl

theorem skip (idle : s.Idle) : s.skip mode place w = (w, .ok ()) := by
  cases idle <;> rfl

end Statement.Idle

def Task.prolong (more : List Statement) : Task → Task
  | .sequence current index rest => .sequence current index (rest ++ more)
  | task => task

namespace Progress

/-- How a sequence goes on after one of its elements is polled, where the elements after that are left. -/
def ofElement (setting : Setting) (rest : List Statement) (place : Position) (index : Nat) :
    World × Progress → World × Progress
  | (w, .waiting task) => (w, .waiting (.sequence task index rest))
  | (w, .ended (.ok ())) => Task.pollElements (Task.poll setting) place rest (index + 1) w
  | (w, .ended (.error failure)) => (w, .ended (.error failure))

/-- How a sequence goes on after it is polled without some elements at its end, of which the first has the
given index. -/
def prolong (setting : Setting) (more : List Statement) (place : Position) (index : Nat) :
    World × Progress → World × Progress
  | (w, .waiting task) => (w, .waiting (task.prolong more))
  | (w, .ended (.ok ())) => Task.pollElements (Task.poll setting) place more index w
  | (w, .ended (.error failure)) => (w, .ended (.error failure))

end Progress

/-- How a sequence whose scope is cancelled ends after some of its elements have ended. -/
def Statement.skipAfter (mode : FailureMode) (rest : List Statement) (place : Position)
    (index : Nat) : World × Outcome → World × Outcome
  | (w, .ok ()) => skipSequence mode rest place index w
  | (w, .error failure) => (w, .error failure)

namespace Statement

variable {s : Statement} {rest first more : List Statement} {index : Nat}

theorem skipSequence_cons :
    skipSequence mode (s :: rest) place index w =
      skipAfter mode rest place (index + 1) (s.skip mode (place ++ [index]) w) := by
  rw [skipSequence]
  rcases s.skip mode (place ++ [index]) w with ⟨w', failure | _⟩ <;> rfl

theorem skipSequence_append :
    skipSequence mode (first ++ more) place index w =
      skipAfter mode more place (index + first.length)
        (skipSequence mode first place index w) := by
  induction first generalizing index w with
  | nil => rfl
  | cons s first ih =>
    rw [List.cons_append, skipSequence_cons, skipSequence_cons]
    rcases s.skip mode (place ++ [index]) w with ⟨w', failure | _⟩
    · rfl
    · simp only [skipAfter, ih, List.length_cons, Nat.add_assoc, Nat.add_comm 1]

end Statement

namespace Task

variable {s : Statement} {current : Task} {rest more first : List Statement} {index : Nat}

theorem pollElements_cons :
    pollElements (poll setting) place (s :: rest) index w =
      Progress.ofElement setting rest place index ((fresh s).poll setting (place ++ [index]) w) := by
  rw [pollElements]
  rcases (fresh s).poll setting (place ++ [index]) w with ⟨w', task | failure | _⟩ <;> rfl

theorem pollElements_append :
    pollElements (poll setting) place (first ++ more) index w =
      Progress.prolong setting more place (index + first.length)
        (pollElements (poll setting) place first index w) := by
  induction first generalizing index w with
  | nil => rfl
  | cons s first ih =>
    rw [List.cons_append, pollElements_cons, pollElements_cons]
    rcases (fresh s).poll setting (place ++ [index]) w with ⟨w', task | failure | _⟩
    · rfl
    · rfl
    · simp only [Progress.ofElement, ih, List.length_cons, Nat.add_assoc, Nat.add_comm 1]

theorem poll_elements (elements : List Statement) :
    poll setting (.fresh (.sequence elements)) place w =
      pollElements (poll setting) place elements 0 w := by
  rw [poll_eq, pollWith, pollFresh]

theorem poll_sequence :
    poll setting (.sequence current index rest) place w =
      Progress.ofElement setting rest place index (current.poll setting (place ++ [index]) w) := by
  rw [poll_eq, pollWith]
  rcases current.poll setting (place ++ [index]) w with ⟨w', task | failure | _⟩ <;> rfl

theorem unwind_sequence :
    unwind setting (.sequence current index rest) place w =
      Statement.skipAfter setting.mode rest place (index + 1)
        (current.unwind setting (place ++ [index]) w) := by
  rw [unwind]
  rcases current.unwind setting (place ++ [index]) w with ⟨w', failure | _⟩ <;> rfl

theorem poll_prolong :
    poll setting (.sequence current index (rest ++ more)) place w =
      Progress.prolong setting more place (index + 1 + rest.length)
        (poll setting (.sequence current index rest) place w) := by
  rw [poll_sequence, poll_sequence]
  rcases current.poll setting (place ++ [index]) w with ⟨w', task | failure | _⟩
  · rfl
  · rfl
  · exact pollElements_append

theorem unwind_prolong :
    unwind setting (.sequence current index (rest ++ more)) place w =
      Statement.skipAfter setting.mode more place (index + 1 + rest.length)
        (unwind setting (.sequence current index rest) place w) := by
  rw [unwind_sequence, unwind_sequence]
  rcases current.unwind setting (place ++ [index]) w with ⟨w', failure | _⟩
  · rfl
  · exact Statement.skipSequence_append

end Task

end FlowTree
