import Codefest.Sio.Message

/-!
# The namespace socket (`sio_socket.cpp`)

A socket keeps the listeners bound to event names, a flag that says whether the
server has accepted the namespace, and a queue for what was emitted before it
did. Packets leave through the client's `send`; `sent` is what was handed to it
so far, oldest first.

An event is looked up when it arrives. `on_socketio_event` asks the binding map
for the name it was delivered under and calls what it finds; when it finds
nothing the event is gone, because nothing here keeps it.

A `disconnect` packet from the server and the twenty-second connection timeout,
which take the socket out of its client, are not here. `Sio.Lifetime` is about
them, and `Main.Process` has them in the program.
-/

namespace Codefest.Sio

/-- What `client_impl::send` is handed. -/
inductive Packet where
  | connect
  | disconnect
  | event (message : Message)
  | ack (msgId : Nat) (message : Message)

/-- `socket::impl`, over the type of what may be bound. -/
structure Socket (L : Type) where
  connected : Bool := false
  eventBinding : List (String × L) := []
  packetQueue : List Packet := []
  sent : List Packet := []

namespace Socket

variable {L : Type}

/-- `on`: `m_event_binding[event_name] = func`. The pair in front is the one
that a lookup finds, so an older one is as good as overwritten. -/
def on (k : Socket L) (eventName : String) (func : L) : Socket L :=
  { k with eventBinding := (eventName, func) :: k.eventBinding }

def getBindListener (k : Socket L) (event : String) : Option L :=
  k.eventBinding.lookup event

/-- `send_packet`: queued until the namespace is connected; afterwards whatever
is still queued goes first. -/
def sendPacket (k : Socket L) (p : Packet) : Socket L :=
  if k.connected then
    { k with sent := k.sent ++ k.packetQueue ++ [p], packetQueue := [] }
  else { k with packetQueue := k.packetQueue ++ [p] }

/-- `emit`, with no acknowledgement asked for. -/
def emit (k : Socket L) (name : String) (msgs : List Message) : Socket L :=
  k.sendPacket (.event (toArrayMessage name msgs))

/-- `ack`: the answer to an event that asked for one. -/
def ack (k : Socket L) (msgId : Nat) (msgs : List Message) : Socket L :=
  k.sendPacket (.ack msgId (toAckMessage msgs))

/-- `send_connect`, which does not wait in the queue. -/
def sendConnect (k : Socket L) : Socket L :=
  { k with sent := k.sent ++ [.connect] }

/-- The constructor: a socket made on an open connection asks for its
namespace at once. -/
def create (opened : Bool) : Socket L :=
  if opened then sendConnect {} else {}

def onOpen (k : Socket L) : Socket L := k.sendConnect

/-- `on_connected`: the first time, the queue is flushed. -/
def onConnected (k : Socket L) : Socket L :=
  if k.connected then k
  else { k with
    connected := true, sent := k.sent ++ k.packetQueue, packetQueue := [] }

/-- `on_disconnect`: what was still queued is dropped. -/
def onDisconnect (k : Socket L) : Socket L :=
  if k.connected then { k with connected := false, packetQueue := [] } else k

def close (k : Socket L) : Socket L :=
  if k.connected then k.sendPacket .disconnect else k

/-! Only `on` touches the bindings. -/

@[simp] theorem getBindListener_on (k : Socket L) (name : String) (func : L)
    (event : String) : (k.on name func).getBindListener event =
      if event = name then some func else k.getBindListener event := by
  simp only [getBindListener, on, List.lookup_cons]
  by_cases h : event = name
  · simp [h]
  · simp [h, beq_eq_false_iff_ne.mpr h]

@[simp] theorem eventBinding_sendPacket (k : Socket L) (p : Packet) :
    (k.sendPacket p).eventBinding = k.eventBinding := by
  unfold sendPacket
  split <;> rfl

@[simp] theorem eventBinding_emit (k : Socket L) (name : String)
    (msgs : List Message) : (k.emit name msgs).eventBinding = k.eventBinding :=
  eventBinding_sendPacket k _

@[simp] theorem eventBinding_ack (k : Socket L) (msgId : Nat)
    (msgs : List Message) : (k.ack msgId msgs).eventBinding = k.eventBinding :=
  eventBinding_sendPacket k _

@[simp] theorem eventBinding_onOpen (k : Socket L) :
    k.onOpen.eventBinding = k.eventBinding := rfl

@[simp] theorem eventBinding_onConnected (k : Socket L) :
    k.onConnected.eventBinding = k.eventBinding := by
  unfold onConnected
  split <;> rfl

@[simp] theorem eventBinding_onDisconnect (k : Socket L) :
    k.onDisconnect.eventBinding = k.eventBinding := by
  unfold onDisconnect
  split <;> rfl

@[simp] theorem eventBinding_close (k : Socket L) :
    k.close.eventBinding = k.eventBinding := by
  unfold close
  split
  · exact eventBinding_sendPacket k _
  · rfl

@[simp] theorem eventBinding_create (opened : Bool) :
    (create opened : Socket L).eventBinding = [] := by
  cases opened <;> rfl

end Socket

/-- `event`: the name, the arguments that were not null, and the id to
acknowledge when there is one. -/
structure Event where
  name : String
  messages : List Message
  ackId : Option Nat

/-- `event::get_message`: the first argument, or the null pointer. -/
def Event.getMessage (ev : Event) : Ptr := ev.messages.head?

/-- The event branch of `on_message_packet`. A payload that is not an array
with a string in front is ignored, and each pointer on the way to that string
is followed without a test. -/
def unpackEvent (msg : Ptr) (packId : Int) : Except Fault (Option Event) := do
  let ptr ← deref msg
  if ptr.getFlag = .array then
    match ptr.getVector with
    | [] => return none
    | first :: rest =>
        let namePtr ← deref first
        if namePtr.getFlag = .string then
          return some
            { name := namePtr.getString
              messages := pushAll rest
              ackId := if 0 ≤ packId then some packId.toNat else none }
        else return none
  else return none

/-- What a well-formed event packet unpacks to. A null among the arguments
drops out, so the listener is handed the first that is not null. -/
theorem unpackEvent_array (name : String) (args : List Ptr) (packId : Int) :
    unpackEvent (some (.array (some (.string name) :: args))) packId =
      .ok (some
        { name := name
          messages := args.filterMap id
          ackId := if 0 ≤ packId then some packId.toNat else none }) := by
  rw [← pushAll_eq]
  rfl

end Codefest.Sio
