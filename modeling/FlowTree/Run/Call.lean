import FlowTree.Run.World

/-! A call in flight: how it starts, how it goes on when one of its timers fires, and how it ends.

A call that has its answer ends by it: with an error in any scope, with an output only in a scope
that is not cancelled. Without an answer its timeout comes next, and then the cancellation of its
scope. -/

set_option autoImplicit false

namespace FlowTree

/-- A timer, with the number of timers that were set before it. -/
structure Timer where
  due : Nat
  serial : Nat
  deriving DecidableEq

structure Call where
  place : Position
  name : String
  result : Option String
  timeout : Duration
  /-- What an echo gives. -/
  echo : String
  /-- The end of the sleep the script is in. -/
  wake : Timer
  /-- The steps after the sleep. -/
  rest : Script
  /-- The end of the time that the host grants the call. -/
  expiry : Option Timer
  deriving DecidableEq

namespace Call

def nextInstant (call : Call) : Nat :=
  match call.expiry with
  | some expiry => min call.wake.due expiry.due
  | none => call.wake.due

/-- The first of the call's timers, in the order they were set, that is due at an instant. -/
def dueAt (call : Call) (instant : Nat) : Option Nat :=
  let wake := if call.wake.due ≤ instant then [call.wake.serial] else []
  let expiry := match call.expiry with
    | some expiry => if expiry.due ≤ instant then [expiry.serial] else []
    | none => []
  (wake ++ expiry).min?

inductive Reply where
  | answered (answer : Answer)
  /-- Its time is over. -/
  | expired
  /-- It waits. -/
  | asleep (call : Call)

/-- A call whose script has just fallen asleep waits, unless its time is over. -/
def await (w : World) (call : Call) : Reply :=
  match call.expiry with
  | some expiry => if expiry.due ≤ w.clock then .expired else .asleep call
  | none => .asleep call

/-- Lets the script go on from some steps. The call's first sleep sets the timer of its timeout,
right after the timer of the sleep. -/
def advance (setting : Setting) (w : World) (call : Call) (steps : Script) : World × Reply :=
  let (cancels, standing) := steps.goOn call.echo
  -- A script that cancels the token and then ends has still ended by itself.
  let w := { w with cancelled := w.cancelled || cancels }
  match standing with
  | .answered answer => (w, .answered answer)
  | .asleep ms rest =>
    let wake : Timer := ⟨w.clock + ms, w.timers⟩
    let w := { w with timers := w.timers + 1 }
    match call.expiry, setting.host.enforcesTimeouts with
    | none, true =>
      -- A timeout of zero is over at once, but only a script that falls asleep meets it.
      let expiry : Timer := ⟨w.clock + call.timeout.millisUp, w.timers⟩
      let w := { w with timers := w.timers + 1 }
      (w, await w { call with wake, rest, expiry := some expiry })
    | _, _ => (w, await w { call with wake, rest })

def poll (setting : Setting) (w : World) (call : Call) : World × Reply :=
  if call.wake.due ≤ w.clock then call.advance setting w call.rest
  else (w, await w call)

def complete (w : World) (call : Call) (output : String) : World :=
  let w := w.write call.result output
  let w := w.log ⟨.info, "invocation_completed", [("invocation", call.name),
    ("result", Text.quotedOption call.result), ("output", output)]⟩
  let w := w.notify (.invocationCompleted · call.name output)
  w.emit (.completed call.place call.name call.result output)

def reportFailure (w : World) (call : Call) (failure : Failure) : World :=
  let w :=
    if failure.isCancelled then
      w.log ⟨.warn, "invocation cancelled", [("invocation", call.name)]⟩
    else
      w.log ⟨.error, "invocation_failed",
        [("invocation", call.name), ("error", failure.message)]⟩
  w.notify (.invocationFailed · call.name failure.message)

def fail (w : World) (call : Call) (error : CallError) : World × Failure :=
  let failure := .invocation call.name error
  ((call.reportFailure w failure).emit (.failed call.place call.name error), failure)

def drop (w : World) (call : Call) (abandoned : Bool) : World × Failure :=
  ((call.reportFailure w .cancelled).emit (.cancelled call.place call.name abandoned), .cancelled)

def dropReply (w : World) (call : Call) : Reply → World × Failure
  | .answered (.error error) => call.fail w error
  | .answered (.ok _) => call.drop w false
  | .expired => call.fail w (.timeout call.timeout)
  | .asleep _ => call.drop w true

def unwind (setting : Setting) (w : World) (call : Call) : World × Failure :=
  let (w, reply) := call.poll setting w
  call.dropReply w reply

/-- What a reply makes of a call in a scope that was live before it. Only the call itself can have
cancelled the caller's token meanwhile. -/
def takeReply (w : World) (call : Call) (reply : Reply) : World × (Call ⊕ Outcome) :=
  if w.cancelled then
    let (w, failure) := call.dropReply w reply
    (w, .inr (.error failure))
  else
    match reply with
    | .answered (.ok output) => (call.complete w output, .inr (.ok ()))
    | .answered (.error error) =>
      let (w, failure) := call.fail w error
      (w, .inr (.error failure))
    | .expired =>
      let (w, failure) := call.fail w (.timeout call.timeout)
      (w, .inr (.error failure))
    | .asleep call => (w, .inl call)

def resume (setting : Setting) (w : World) (call : Call) : World × (Call ⊕ Outcome) :=
  let (w, reply) := call.poll setting w
  call.takeReply w reply

def fresh (setting : Setting) (place : Position) (invocation : Invocation) (w : World) : Call where
  place
  name := invocation.name
  result := invocation.result
  timeout := invocation.timeout.getD setting.timeout
  echo := echoText invocation.name (w.inputs invocation)
  wake := ⟨0, 0⟩
  rest := []
  expiry := none

def sent (setting : Setting) (place : Position) (invocation : Invocation) (w : World) : World :=
  let inputs := w.inputs invocation
  let timeout := invocation.timeout.getD setting.timeout
  let w := w.log ⟨.info, "invocation_started", [("invocation", invocation.name),
    ("inputs", Text.quotedList inputs), ("timeout", timeout.text)]⟩
  let w := w.notify (.invocationStarted · invocation.name inputs)
  w.emit (.started place invocation.name inputs timeout)

/-- Sends out a call. A name that the host does not know is answered at once. -/
def start (setting : Setting) (place : Position) (invocation : Invocation) (w : World) :
    World × (Call ⊕ Outcome) :=
  let call := fresh setting place invocation w
  match setting.host.find? invocation.name with
  | none =>
    let w := sent setting place invocation w
    call.takeReply w (.answered (.error (.notRegistered invocation.name)))
  | some work =>
    let steps := work.script (w.called.count invocation.name) (w.inputs invocation)
    let w := { sent setting place invocation w with called := invocation.name :: w.called }
    let (w, reply) := call.advance setting w steps
    call.takeReply w reply

end Call

end FlowTree
