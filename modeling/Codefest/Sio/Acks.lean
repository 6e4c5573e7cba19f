import Codefest.Sio.Receiver

/-!
# Callbacks for answers (`sio_socket.cpp`)

`emit` takes a callback when an answer is wanted. The event then goes out under
a number from one counter for all sockets, its socket keeps the callback under
that number, and an answer with the number takes the callback out and calls it.
The counter and the keys of the map are unsigned, the number of a packet is an
`int`: from half way on the numbers are negative, and `accept` leaves a negative
number out of the line.

The counter is raised outside of the mutex, so the events are taken to be
emitted by one thread. What the peer says arrives as payloads, in between what
the program does. A socket that the server closes is gone from the client with
the callbacks it kept, and the next one in its namespace begins with none.
-/

namespace Codefest.Sio

open Text

/-- The number of a packet as a key of `m_acks`. -/
def ackKey (packId : Int) : UInt32 := (Int32.ofInt packId).toUInt32

/-- `s_global_event_id`, and the `m_acks` of the sockets that the client has. -/
structure Acks (α : Type) where
  receiver : Receiver := {}
  eventId : UInt32 := 1
  acks : List ((Bytes × UInt32) × α) := []

/-- What can be seen of it: an event handed to the socket, a callback called,
and the notices that nothing is done about here. -/
inductive Mark (α : Type)
  | emitted (p : RawPacket) (ack : Option α)
  | called (nsp : Bytes) (msgId : Int) (message : List Ptr) (ack : α)
  | heard (n : Notice)

namespace Acks

variable {α : Type}

/-- The name that `client_impl::socket` looks a namespace up by. -/
def fullName : Bytes → Bytes
  | [] => [47]
  | 47 :: rest => 47 :: rest
  | nsp => 47 :: nsp

/-- `client_impl::socket`. -/
def socket (k : Acks α) (nsp : Bytes) : Acks α :=
  if k.receiver.sockets.contains (fullName nsp) then k
  else { k with receiver.sockets := fullName nsp :: k.receiver.sockets }

/-- `m_acks[pack_id] = ack`. -/
def keep (k : Acks α) (slot : Bytes × UInt32) (ack : α) : Acks α :=
  { k with acks := (slot, ack) :: k.acks.filter (·.1 ≠ slot) }

/-- `emit`. A socket that is no longer the client's does nothing. -/
def emit (k : Acks α) (nsp : Bytes) (name : String) (msgs : List Message)
    (ack : Option α) : Acks α × List (Mark α) :=
  let event := Packet.raw nsp (.event (toArrayMessage name msgs))
  if k.receiver.sockets.contains nsp then
    match ack with
    | some f =>
        let packId := k.eventId.toInt32.toInt
        ({ k with eventId := k.eventId + 1 }.keep (nsp, ackKey packId) f,
          [.emitted { event with packId := packId } ack])
    | none => (k, [.emitted event ack])
  else (k, [])

/-- `on_socketio_ack`. -/
def onSocketioAck (k : Acks α) (nsp : Bytes) (msgId : Int)
    (message : List Ptr) : Acks α × List (Mark α) :=
  match k.acks.lookup (nsp, ackKey msgId) with
  | some ack =>
      ({ k with acks := k.acks.filter (·.1 ≠ (nsp, ackKey msgId)) },
        [.called nsp msgId message ack])
  | none => (k, [.heard (.answer nsp msgId message)])

def onNotice (k : Acks α) : Notice → Acks α × List (Mark α)
  | .answer nsp msgId message => k.onSocketioAck nsp msgId message
  | .closed nsp =>
      ({ k with acks := k.acks.filter (·.1.1 ≠ nsp) }, [.heard (.closed nsp)])
  | n => (k, [.heard n])

def onNotices : Acks α → List Notice → Acks α × List (Mark α)
  | k, [] => (k, [])
  | k, n :: notices =>
      let (k, marks) := k.onNotice n
      let (k, more) := k.onNotices notices
      (k, marks ++ more)

end Acks

/-- A step of either: the program asks for a socket or emits, a payload comes,
or a new connection begins. -/
inductive Turn (α : Type)
  | socket (nsp : Bytes)
  | emit (nsp : Bytes) (name : String) (msgs : List Message) (ack : Option α)
  | message (payload : Bytes)
  | resetStates

section

variable {α : Type} (J : JsonText) (getInt : Option Json → Int)

def Turn.take (k : Acks α) :
    Turn α → Except Failure (Acks α × List (Mark α))
  | socket nsp => .ok (k.socket nsp, [])
  | emit nsp name msgs ack => .ok (k.emit nsp name msgs ack)
  | message payload =>
      (onMessage J getInt k.receiver payload).map fun r =>
        { k with receiver := r.1 }.onNotices r.2
  | resetStates =>
      .ok ({ k with receiver.partialPacket := none }, [])

def takeAll : Acks α → List (Turn α) →
    Except Failure (Acks α × List (Mark α))
  | k, [] => .ok (k, [])
  | k, turn :: turns =>
      (turn.take J getInt k).bind fun one =>
        (takeAll one.1 turns).map fun rest => (rest.1, one.2 ++ rest.2)

end

end Codefest.Sio
