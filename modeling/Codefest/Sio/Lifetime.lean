import Codefest.Lib.Transition
import Codefest.Sio.Socket

/-!
# How a socket ends (`sio_socket.cpp`)

A socket that has asked for its namespace waits twenty seconds for the answer,
and one that has been told to close waits three for the server to agree. Both
waits are on one timer, and when either runs out the socket lets go of its
client, which is the end of it: every method begins by looking whether the
client is still there.

The timer calls the handler of each wait once, when the time is up or when the
wait is cancelled, which setting the timer again and destroying it do as well.
The handler hears which of the two it was, but closing does not listen: it is
bound without the argument. A handler that is due runs at some point after, in
whatever order, and the socket object is taken to be there still.
-/

namespace Codefest.Sio

/-- The handlers that are put on the timer, `timeout_connection` and
`on_close`. -/
inductive Wait
  | connect | close
  deriving DecidableEq, Repr

/-- The queue goes with the connection to the client. -/
def Socket.onClose {L : Type} (k : Socket L) : Socket L :=
  { k with connected := false, packetQueue := [] }

/-- A socket, whether it has a client, the waits on its timer if it has one,
the handlers that are due with whether their wait was cancelled, and how often
`on_socket_closed` has been called. -/
structure Lifetime (L : Type) where
  socket : Socket L
  client : Bool := true
  timer : Option (List Wait) := none
  due : List (Wait × Bool) := []
  closings : Nat := 0

namespace Lifetime

variable {L : Type}

/-- The timer is gone, its waits cancelled. -/
def cancel (s : Lifetime L) : Lifetime L :=
  { s with timer := none, due := s.due ++ (s.timer.getD []).map (·, true) }

/-- The timer set for one wait; whatever waited on it before is cancelled. -/
def arm (s : Lifetime L) (w : Wait) : Lifetime L :=
  { s.cancel with timer := some [w] }

def sendConnect (s : Lifetime L) : Lifetime L :=
  if s.client then { s with socket := s.socket.sendConnect }.arm .connect
  else s

/-- The constructor. -/
def create (opened : Bool) : Lifetime L :=
  let s : Lifetime L := { socket := {} }
  if opened then s.sendConnect else s

def close (s : Lifetime L) : Lifetime L :=
  if s.client ∧ s.socket.connected then
    { s with socket := s.socket.close }.arm .close
  else s

/-- `on_connected`, which is only called by `on_message_packet`. -/
def onConnected (s : Lifetime L) : Lifetime L :=
  if s.client then { s.cancel with socket := s.socket.onConnected } else s

def onClose (s : Lifetime L) : Lifetime L :=
  if s.client then
    { s.cancel with
      client := false
      socket := s.socket.onClose
      closings := s.closings + 1 }
  else s

def onDisconnect (s : Lifetime L) : Lifetime L :=
  if s.client then { s with socket := s.socket.onDisconnect } else s

def sendPacket (s : Lifetime L) (p : Packet) : Lifetime L :=
  if s.client then { s with socket := s.socket.sendPacket p } else s

def timeoutConnection (s : Lifetime L) (cancelled : Bool) : Lifetime L :=
  if s.client ∧ cancelled = false then s.cancel.onClose else s

def handle (s : Lifetime L) (cancelled : Bool) : Wait → Lifetime L
  | .connect => s.timeoutConnection cancelled
  | .close => s.onClose

end Lifetime

/-- What happens to a socket: calls of the client and of the program, packets
of the server, and the timer. -/
inductive LifeAct
  | onOpen | onConnected | onDisconnect | onClose | close
  | sendPacket (p : Packet)
  | expire
  | handler (w : Wait) (cancelled : Bool)

/-- One of these. The time is up only for a timer that is set, and a handler
runs only when it is due. -/
def LifeAct.step {L : Type} (s : Lifetime L) : LifeAct → Option (Lifetime L)
  | onOpen => some s.sendConnect
  | onConnected => some s.onConnected
  | onDisconnect => some s.onDisconnect
  | onClose => some s.onClose
  | close => some s.close
  | sendPacket p => some (s.sendPacket p)
  | expire =>
      match s.timer with
      | none => none
      | some waits =>
          some { s with timer := some [], due := s.due ++ waits.map (·, false) }
  | handler w cancelled =>
      if s.due.contains (w, cancelled) then
        some ({ s with due := s.due.erase (w, cancelled) }.handle cancelled w)
      else none

open Transition in
/-- A socket made while the client is connected, or while it is not. -/
def lifetime (L : Type) (opened : Bool) : System (Lifetime L) LifeAct where
  init := .create opened
  step := LifeAct.step

end Codefest.Sio
