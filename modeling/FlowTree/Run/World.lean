import FlowTree.Event
import FlowTree.Log
import FlowTree.Run.Trace
import FlowTree.Statement
import FlowTree.Store
import FlowTree.Work

/-! What all statements of a run share: the clock, the store, the caller's token, how often each unit
has been called, what has happened so far, and what the log and the observer have been told of it. -/

set_option autoImplicit false

namespace FlowTree

def defaultTimeout : Duration := Duration.ofMillis 10000

structure Setting where
  host : Host
  mode : FailureMode := .firstObserved
  /-- The timeout of calls that do not set their own. -/
  timeout : Duration := defaultTimeout
  /-- Whether a block of which all branches wait, or of which two ask to be polled again, lets others go
  on before it does. If not, a block goes on until its queue is empty. -/
  yields : Bool := true

structure Scene where
  /-- Milliseconds since the start of the run. -/
  clock : Nat := 0
  store : Store
  /-- The names of the units called on this host, also by earlier runs. -/
  called : List String := []
  /-- The number of timers that have been set. -/
  timers : Nat := 0
  /-- Whether the caller's token is cancelled. -/
  cancelled : Bool := false

/-- Something that happens, and what can be seen of the run when it happens. -/
structure Moment extends Scene where
  happening : Happening

def Trace.ofMoments (moments : List Moment) : Trace := moments.map (·.happening)

/-- The lists are kept newest first. The observer is told of events under the execution id of the
run, which nothing else depends on. -/
structure World extends Scene where
  history : List Moment := []
  entries : List LogEntry := []
  notices : List (String → Event) := []

namespace World

def emit (w : World) (happening : Happening) : World :=
  { w with history := ⟨w.toScene, happening⟩ :: w.history }

def log (w : World) (entry : LogEntry) : World :=
  { w with entries := entry :: w.entries }

def notify (w : World) (notice : String → Event) : World :=
  { w with notices := notice :: w.notices }

def moments (w : World) : List Moment := w.history.reverse

def inputs (w : World) (call : Invocation) : List String :=
  w.store.resolve call.arguments

def write (w : World) (result : Option String) (output : String) : World :=
  match result with
  | some name => { w with store := w.store.insert name output }
  | none => w

/-- Passes over a call whose scope is cancelled. Only the log is told of it. -/
def skip (w : World) (place : Position) (name : String) : World :=
  (w.log ⟨.debug, "skipping invocation in cancelled scope", [("invocation", name)]⟩).emit
    (.skipped place name)

end World

end FlowTree
