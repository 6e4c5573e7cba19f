import Codefest.Lib.Text
import Codefest.Sio.Encoder
import Codefest.Sio.Socket

/-!
# Packets on the wire (`sio_packet.cpp`)

A packet is a line of text and the binary buffers that follow it. The line is a
digit for the frame, a digit for the type, the number of buffers with a `-`
when there are any, the namespace unless it is the root, the id of an event
that wants an answer or of the answer itself, and a JSON text. `accept` writes
the line and `parse` takes it apart by searching for the bytes that may end or
begin each part.

`packet_manager` sits between packets and payloads. It keeps the packet whose
buffers have not all come, and hands every other one on. A payload that starts
with the byte 4 is a buffer, one that starts with the character 4 is a line of
a message, and everything else is a line of another frame.

The JSON library is a parameter: a text for each value, and a value for each
text, of which only what a theorem needs is assumed. The numbers go through
`stoi` and `stoul`, which throw, and nobody catches. The bit that marks the
type of an outgoing packet as undetermined is left out: `accept` clears it
before it looks at the type.
-/

namespace Codefest.Sio

open Text

inductive FrameType
  | open | close | ping | pong | message | upgrade | noop
  | unknown (code : Int)
  deriving DecidableEq, Repr

/-- The cast to `frame_type`, which takes any number. -/
def FrameType.ofCode : Int → FrameType
  | 0 => .open
  | 1 => .close
  | 2 => .ping
  | 3 => .pong
  | 4 => .message
  | 5 => .upgrade
  | 6 => .noop
  | n => .unknown n

inductive PacketType
  | connect | disconnect | event | ack | error | binaryEvent | binaryAck
  deriving DecidableEq, Repr

namespace PacketType

/-- From `type_min` to `type_max`; nothing outside of them. -/
def ofCode : Int → Option PacketType
  | 0 => some .connect
  | 1 => some .disconnect
  | 2 => some .event
  | 3 => some .ack
  | 4 => some .error
  | 5 => some .binaryEvent
  | 6 => some .binaryAck
  | _ => none

def code : PacketType → Nat
  | connect => 0
  | disconnect => 1
  | event => 2
  | ack => 3
  | error => 4
  | binaryEvent => 5
  | binaryAck => 6

def isBinary : PacketType → Bool
  | binaryEvent | binaryAck => true
  | _ => false

/-- The type that goes out, there being buffers or not. -/
def sent (hasBinary : Bool) : PacketType → PacketType
  | event => if hasBinary then binaryEvent else event
  | ack => if hasBinary then binaryAck else ack
  | type => type

end PacketType

/-- `packet`, with all of its fields. -/
structure RawPacket where
  frame : FrameType
  type : Option PacketType := none
  nsp : Bytes := []
  packId : Int := -1
  message : Ptr := none
  pendingBuffers : Nat := 0
  buffers : List Bytes := []

/-- The packet that each of the client's packets is built as, in a namespace. -/
def Packet.raw (nsp : Bytes) : Packet → RawPacket
  | connect => { frame := .message, type := some .connect, nsp := nsp }
  | disconnect => { frame := .message, type := some .disconnect, nsp := nsp }
  | event message =>
      { frame := .message, type := some .event, nsp := nsp
        message := some message }
  | ack msgId message =>
      { frame := .message, type := some .ack, nsp := nsp, packId := msgId
        message := some message }

/-- The JSON library: `Writer` and `Document::Parse`. -/
structure JsonText where
  write : Json → Bytes
  parse : Bytes → Json

/-! ## Writing a packet -/

def bufferBytes (b : ByteArray) : Bytes := b.data.toList

def bytesBuffer (bytes : Bytes) : ByteArray := ⟨bytes.toArray⟩

def countText (buffers : Nat) : Bytes :=
  if buffers = 0 then [] else decimal buffers ++ [45]

/-- The namespace, and the comma when something follows it. -/
def nspText (nsp : Bytes) (more : Bool) : Bytes :=
  if nsp = [] ∨ nsp = [47] then [] else nsp ++ if more then [44] else []

def idText (packId : Int) : Bytes :=
  if 0 ≤ packId then decimal packId.toNat else []

/-- The line of a message, its JSON text given. -/
def messageLine (p : RawPacket) (json : Option Bytes) (buffers : Nat) : Bytes :=
  52 :: decimal ((p.type.getD .connect).sent (buffers ≠ 0)).code ++
    countText buffers ++ nspText p.nsp (json.isSome || 0 ≤ p.packId) ++
    idText p.packId ++ json.getD []

def frameCode : FrameType → UInt8
  | .open => 48
  | .close => 49
  | .ping => 50
  | .pong => 51
  | .message => 52
  | .upgrade => 53
  | .noop => 54
  | .unknown code => UInt8.ofInt (code + 48)

/-- `accept`: the line, and the buffers to follow. -/
def RawPacket.accept (J : JsonText) (p : RawPacket) :
    Except Fault (Bytes × List ByteArray) :=
  if p.frame = .message then
    match p.message with
    | none => .ok (messageLine p none 0, [])
    | some m => do
        let (v, buffers) ← acceptMessage m []
        return (messageLine p (some (J.write v)) buffers.length, buffers)
  else .ok ([frameCode p.frame], [])

/-- `encode`: what the callback is called with, in order. -/
def RawPacket.encode (J : JsonText) (p : RawPacket) :
    Except Fault (List Bytes) := do
  let (line, buffers) ← p.accept J
  return line :: buffers.map bufferBytes

/-! ## Reading a packet -/

inductive Thrown
  | invalidArgument | outOfRange
  deriving DecidableEq, Repr

def stoi (s : Bytes) : Except Thrown Int :=
  match scanInt s with
  | none => .error .invalidArgument
  | some n =>
      if -2147483648 ≤ n ∧ n ≤ 2147483647 then .ok n else .error .outOfRange

/-- `stoul`, an `unsigned long` having 32 bits. The digits of a negative number
have to fit as well; the number is taken modulo `2 ^ 32` then. -/
def stoul (s : Bytes) : Except Thrown Nat :=
  match scanInt s with
  | none => .error .invalidArgument
  | some n =>
      if n.natAbs < 4294967296 then .ok (n % 4294967296).toNat
      else .error .outOfRange

/-- A character less `'0'`; characters are signed. -/
def digitCode (s : Bytes) (pos : Nat) : Int := (s.getD pos 0).toInt8.toInt - 48

section

variable (J : JsonText) (getInt : Option Json → Int)

/-- The id stands before the JSON text, if there is something. -/
def parseId (p : RawPacket) (payload : Bytes) (pos jsonPos : Nat) :
    Except Thrown Int :=
  if pos < jsonPos then stoi (stretch payload pos (some jsonPos))
  else .ok p.packId

/-- The end of `parse`: the id and the JSON text, which has to wait for the
buffers of a binary packet. -/
def parseMessage (p : RawPacket) (payload : Bytes) (pos jsonPos : Nat) :
    Except Thrown (RawPacket × Bool) :=
  (parseId p payload pos jsonPos).map fun packId =>
    if p.frame = .message ∧ p.type.any PacketType.isBinary then
      ({ p with
        packId := packId
        buffers := p.buffers ++ [payload.drop jsonPos] }, true)
    else
      ({ p with
        packId := packId
        message := fromJson getInt [] (J.parse (payload.drop jsonPos)) }, false)

/-- The middle of `parse`: the namespace. The comma that ends it is searched
for from the start of the payload. -/
def parseNsp (p : RawPacket) (payload : Bytes) (pos : Nat) :
    Except Thrown (RawPacket × Bool) :=
  match findFrom (· ∈ ([123, 91, 34, 47] : Bytes)) payload pos with
  | none => .ok ({ p with nsp := [47] }, false)
  | some nspJsonPos =>
      if payload[nspJsonPos]? = some 47 then
        match findFrom (· == 44) payload 0 with
        | none => .ok ({ p with nsp := payload.drop nspJsonPos }, false)
        | some commaPos =>
            let p := { p with
              nsp := stretch payload nspJsonPos (some commaPos) }
            match findFrom (· ∈ ([34, 91, 123] : Bytes)) payload
                (commaPos + 1) with
            | none => .ok (p, false)
            | some jsonPos =>
                parseMessage J getInt p payload (commaPos + 1) jsonPos
      else parseMessage J getInt { p with nsp := [47] } payload pos nspJsonPos

/-- `parse`, of a fresh packet: the packet, and whether its buffers are still
to come. An empty payload shows its terminator; where there is no `-`, the
position after it is 0. -/
def parse (payload : Bytes) : Except Thrown (RawPacket × Bool) :=
  let frame := FrameType.ofCode (digitCode payload 0)
  if frame = .message then
    match PacketType.ofCode (digitCode payload 1) with
    | none => .ok ({ frame := frame }, false)
    | some type =>
        if type.isBinary then do
          let scorePos := findFrom (· == 45) payload 0
          let pending ← stoul (stretch payload 2 scorePos)
          parseNsp J getInt
            { frame := frame, type := some type, pendingBuffers := pending }
            payload ((scorePos.map (· + 1)).getD 0)
        else
          parseNsp J getInt { frame := frame, type := some type } payload 2
  else parseNsp J getInt { frame := frame } payload 1

/-- `parse_buffer`: the packet, and whether more buffers are to come. The first
buffer kept is the JSON text. -/
def parseBuffer (p : RawPacket) (payload : Bytes) : RawPacket × Bool :=
  if 0 < p.pendingBuffers then
    let p := { p with
      buffers := p.buffers ++ [payload]
      pendingBuffers := p.pendingBuffers - 1 }
    if p.pendingBuffers = 0 then
      ({ p with
        message := fromJson getInt (p.buffers.tail.map bytesBuffer)
          (J.parse (p.buffers.headD []))
        buffers := [] }, false)
    else (p, true)
  else (p, false)

def isBinaryMessage (payload : Bytes) : Bool := payload.head? == some 4

def isTextMessage (payload : Bytes) : Bool := payload.head? == some 52

/-- `put_payload`, with `m_partial_packet` as the state: what it becomes, and
the packet that the decode callback is called with. -/
def putPayload (partialPacket : Option RawPacket) (payload : Bytes) :
    Except Thrown (Option RawPacket × Option RawPacket) :=
  if isTextMessage payload then do
    let (p, more) ← parse J getInt payload
    return if more then (some p, none) else (partialPacket, some p)
  else if isBinaryMessage payload then
    match partialPacket with
    | some p =>
        let (p, more) := parseBuffer J getInt p payload
        .ok (if more then (some p, none) else (none, some p))
    | none => .ok (none, none)
  else do
    let (p, _) ← parse J getInt payload
    return (partialPacket, some p)

/-- Payloads put one after the other, and the packets that came out. -/
def putPayloads : Option RawPacket → List Bytes →
    Except Thrown (Option RawPacket × List RawPacket)
  | partialPacket, [] => .ok (partialPacket, [])
  | partialPacket, payload :: payloads => do
      let (partialPacket, out) ← putPayload J getInt partialPacket payload
      let (partialPacket, outs) ← putPayloads partialPacket payloads
      return (partialPacket, out.toList ++ outs)

end

end Codefest.Sio
