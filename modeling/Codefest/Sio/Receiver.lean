import Codefest.Sio.Wire

/-!
# What a payload ends in (`sio_client_impl.cpp`, `sio_socket.cpp`)

`on_message` puts a payload into the manager, and `on_decode` looks at the
packet that comes out: the frame says whether it is the server's greeting, a
ping, the end, or a message for the socket of a namespace, and the type says
what the socket makes of it. A notice is what is left of that for the program
to see, or for the peer.

Greeting and events follow pointers that the decoder may have left null, and
the manager may throw. Both end the program. What belongs to the clock is left
out: the client never starts the timer that a missing pong would be noticed by.
-/

namespace Codefest.Sio

open Text

inductive Failure
  | thrown (t : Thrown)
  | fault (f : Fault)
  deriving DecidableEq, Repr

/-- `m_sid`, `m_ping_interval` and `m_ping_timeout`. -/
structure Handshake where
  sid : String
  pingInterval : UInt32
  pingTimeout : UInt32
  deriving DecidableEq, Repr

/-- A number of the greeting, or the default. -/
def handshakeNumber (values : Fields) (key : String) (default : UInt32) :
    Except Fault UInt32 :=
  match values.lookup key with
  | none => .ok default
  | some p => do
      let m ← deref p
      return if m.getFlag = .integer then m.getInt.toUInt64.toUInt32
        else default

/-- `on_handshake`: the state, or that it has failed. -/
def onHandshake (message : Ptr) : Except Fault (Option Handshake) :=
  match message with
  | some (.object values) =>
      match values.lookup "sid" with
      | none => .ok none
      | some p => do
          let sid ← deref p
          let pingInterval ← handshakeNumber values "pingInterval" 25000
          let pingTimeout ← handshakeNumber values "pingTimeout" 60000
          return some ⟨sid.getString, pingInterval, pingTimeout⟩
  | _ => .ok none

inductive Notice
  | greeted (h : Handshake)
  | handshakeError
  | endByServer
  | pong
  | connected (nsp : Bytes)
  | closed (nsp : Bytes)
  | event (nsp : Bytes) (ev : Event)
  | answer (nsp : Bytes) (msgId : Int) (message : List Ptr)
  | error (nsp : Bytes) (message : Ptr)

/-- The namespace that a notice is about. -/
def Notice.nsp? : Notice → Option Bytes
  | connected nsp | closed nsp | event nsp _ | answer nsp _ _ | error nsp _ =>
      some nsp
  | _ => none

/-- The message of an answer: an array's elements, or the one that there is. -/
def unpackAnswer (message : Ptr) : Except Fault (List Ptr) := do
  let m ← deref message
  return if m.getFlag = .array then m.getVector else [some m]

/-- `on_message_packet`, of the socket that the packet is for. -/
def onMessagePacket (p : RawPacket) : Except Fault (List Notice) :=
  match p.type with
  | some .connect => .ok [.connected p.nsp]
  | some .disconnect => .ok [.closed p.nsp]
  | some .event | some .binaryEvent =>
      (unpackEvent p.message p.packId).map fun ev =>
        ev.toList.map (.event p.nsp)
  | some .ack | some .binaryAck =>
      (unpackAnswer p.message).map fun message =>
        [.answer p.nsp p.packId message]
  | some .error => .ok [.error p.nsp p.message]
  | none => .ok []

/-- `on_decode`, with the namespaces that there is a socket for. -/
def onDecode (sockets : List Bytes) (p : RawPacket) :
    Except Fault (List Notice) :=
  match p.frame with
  | .message => if p.nsp ∈ sockets then onMessagePacket p else .ok []
  | .open =>
      (onHandshake p.message).map fun
        | some h => [.greeted h]
        | none => [.handshakeError]
  | .close => .ok [.endByServer]
  | .ping => .ok [.pong]
  | _ => .ok []

/-! ## The receiver -/

/-- The manager's packet and the namespaces in `m_sockets`. -/
structure Receiver where
  partialPacket : Option RawPacket := none
  sockets : List Bytes := []

/-- `on_close` takes its socket out of the client. -/
def remaining (sockets : List Bytes) (notices : List Notice) : List Bytes :=
  sockets.filter fun nsp => !notices.any fun
    | .closed closed => closed == nsp
    | _ => false

section

variable (J : JsonText) (getInt : Option Json → Int)

/-- `on_message`. -/
def onMessage (r : Receiver) (payload : Bytes) :
    Except Failure (Receiver × List Notice) := do
  let (partialPacket, out) ←
    (putPayload J getInt r.partialPacket payload).mapError .thrown
  match out with
  | none => return ({ r with partialPacket := partialPacket }, [])
  | some p =>
      let notices ← (onDecode r.sockets p).mapError .fault
      return (⟨partialPacket, remaining r.sockets notices⟩, notices)

/-- Messages, one after the other. -/
def onMessages : Receiver → List Bytes →
    Except Failure (Receiver × List Notice)
  | r, [] => .ok (r, [])
  | r, payload :: payloads => do
      let (r, notices) ← onMessage J getInt r payload
      let (r, more) ← onMessages r payloads
      return (r, notices ++ more)

end

/-- Packets handed to the client without a wire in between. -/
def onPackets : List Bytes → List RawPacket →
    Except Fault (List Bytes × List Notice)
  | sockets, [] => .ok (sockets, [])
  | sockets, p :: ps => do
      let notices ← onDecode sockets p
      let (sockets, more) ← onPackets (remaining sockets notices) ps
      return (sockets, notices ++ more)

end Codefest.Sio
