import FlowTree.Event

/-! A channel of events between a run and an observer. It holds any number of events, so the run
never waits for the observer. -/

set_option autoImplicit false

namespace FlowTree.Event

structure Channel where
  /-- The events that have not been received, oldest first. -/
  waiting : List Event := []
  /-- Whether anybody may still receive. -/
  receiving : Bool := true

namespace Channel

def send (channel : Channel) (event : Event) : Channel :=
  if channel.receiving then { channel with waiting := channel.waiting ++ [event] } else channel

def receive (channel : Channel) : Channel × Option Event :=
  match channel.waiting with
  | [] => (channel, none)
  | event :: rest => ({ channel with waiting := rest }, some event)

def close : Channel where
  receiving := false

theorem receive_close : close.receive = (close, none) := rfl

theorem receive_send {channel : Channel} (event first : Event) (rest : List Event)
    (waiting : channel.waiting = first :: rest) (receiving : channel.receiving = true) :
    (channel.send event).receive =
      ({ waiting := rest ++ [event], receiving := true }, some first) := by
  simp [send, receive, waiting, receiving]

end Channel

end FlowTree.Event
