import FlowTree.Run.Measure

/-! A call that no workflow makes: nothing else happens until it ends. -/

set_option autoImplicit false

namespace FlowTree.Call

def settle (setting : Setting) (w : World) (call : Call) : World × Answer :=
  match replied : call.poll setting { w with clock := call.nextInstant } with
  | (w, .answered answer) => (w, answer)
  | (w, .expired) => (w, .error (.timeout call.timeout))
  | (w, .asleep next) =>
    have : next.rest.length < call.rest.length := (poll_asleep replied).2 (Nat.le_refl _)
    settle setting w next
termination_by call.rest.length

/-- A call of a script on a host that grants it some time. Gives the instant at which it ends, and
its answer. -/
def alone (name : String) (inputs : List String) (timeout : Duration) (script : Script)
    (clock : Nat) : Nat × Answer :=
  let setting : Setting := { host := ⟨[], true⟩, timeout }
  let call : Call := {
    place := []
    name
    result := none
    timeout
    echo := echoText name inputs
    wake := ⟨0, 0⟩
    rest := []
    expiry := none }
  match call.advance setting { clock, store := NameMap.empty } script with
  | (w, .answered answer) => (w.clock, answer)
  | (w, .expired) => (w.clock, .error (.timeout timeout))
  | (w, .asleep call) =>
    let (w, answer) := call.settle setting w
    (w.clock, answer)

end FlowTree.Call
