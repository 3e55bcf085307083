import FlowTree.Work

/-! What a script comes to: how long it waits, the answer it ends with, and whether it cancels the run
that it is called from. A script that goes on does the first part of this and leaves the rest. -/

set_option autoImplicit false

namespace FlowTree.Script

def delay : Script → Nat
  | [] => 0
  | .delay ms :: rest => ms + delay rest
  | .cancel :: rest => delay rest
  | _ :: _ => 0

def answer (echo : String) : Script → Answer
  | [] => .ok ""
  | .delay _ :: rest => answer echo rest
  | .cancel :: rest => answer echo rest
  | .give output :: _ => .ok output
  | .echo :: _ => .ok echo
  | .fail message :: _ => .error (.failed message)
  | .timeout after :: _ => .error (.timeout after)
  | .notRegistered name :: _ => .error (.notRegistered name)

def cancels : Script → Bool
  | [] => false
  | .delay _ :: rest => cancels rest
  | .cancel :: _ => true
  | _ :: _ => false

/-- Where a script stands that has gone on, as far as it has come. -/
inductive Stands (echo : String) (script : Script) : Standing → Prop where
  | answered (idle : script.delay = 0) : Stands echo script (.answered (script.answer echo))
  | asleep {ms : Nat} {rest : Script} (positive : 0 < ms) (delay : script.delay = ms + rest.delay)
    (answer : script.answer echo = rest.answer echo)
    (quiet : script.cancels = false → rest.cancels = false) :
    Stands echo script (.asleep ms rest)

theorem goOn_stands (echo : String) (script : Script) :
    Stands echo script (script.goOn echo).2 := by
  induction script with
  | nil => exact .answered rfl
  | cons step rest ih =>
    cases step with
    | delay ms =>
      rw [goOn]
      split
      · next zero =>
        have same : delay (.delay ms :: rest) = delay rest := by rw [delay, zero, Nat.zero_add]
        generalize (goOn echo rest).2 = standing at ih
        cases ih with
        | answered idle => exact .answered (same.trans idle)
        | asleep positive delay answer quiet =>
          exact .asleep positive (same.trans delay) answer quiet
      · next positive => exact .asleep (Nat.pos_of_ne_zero positive) rfl rfl id
    | cancel =>
      rw [goOn]
      simp only
      generalize (goOn echo rest).2 = standing at ih
      cases ih with
      | answered idle => exact .answered idle
      | asleep positive delay answer quiet => exact .asleep positive delay answer nofun
    | give | echo | fail | timeout | notRegistered => exact .answered rfl

theorem cancels_of_goOn {echo : String} {script : Script}
    (cancels : (script.goOn echo).1 = true) : script.cancels = true := by
  induction script with
  | nil => cases cancels
  | cons step rest ih =>
    cases step with
    | delay ms =>
      rw [goOn] at cancels
      split at cancels
      · exact ih cancels
      · cases cancels
    | cancel => rfl
    | give | echo | fail | timeout | notRegistered => cases cancels

end FlowTree.Script
