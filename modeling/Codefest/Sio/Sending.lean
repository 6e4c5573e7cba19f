import Codefest.Lib.Threads
import Codefest.Sio.Socket

/-!
# The queue and its threads (`sio_socket.cpp`)

Any thread may call `send_packet`, and the network thread may be in
`on_connected` or `on_disconnect` meanwhile. `m_packet_mutex` protects one
access to the queue at a time and nothing more: the flag is read and written
without it, and between taking a packet off the queue and handing it to the
client the mutex is free.

A step here is one such access. Which thread makes which call is left open, so
there are more runs here than the program has. The last two fields of `Traffic`
are for the theorems to speak of, and no step depends on them.
-/

namespace Codefest.Sio

inductive Call
  | sendPacket (p : Packet)
  | onConnected
  | onDisconnect

structure Traffic where
  connected : Bool := false
  packetQueue : List Packet := []
  sent : List Packet := []
  /-- The calls so far, in the order in which they began. -/
  calls : List Call := []
  /-- What `on_disconnect` threw away. -/
  dropped : List Packet := []

/-- Where a thread is: in `send_packet` until `last`, with the packet that it
was called with; the loop is also that of `on_connected`, which has none. -/
inductive SendPc
  | idle
  | test (p : Packet)
  | push (p : Packet)
  | drain (p : Option Packet)
  | send (front : Packet) (p : Option Packet)
  | last (p : Packet)
  | testConnected | setConnected
  | testDisconnected | setDisconnected | clear

def Call.start : Call → SendPc
  | sendPacket p => .test p
  | onConnected => .testConnected
  | onDisconnect => .testDisconnected

/-- A thread's next access, and where it is after it. -/
def access (k : Traffic) : SendPc → Option (Traffic × SendPc)
  | .idle => none
  | .test p => some (k, if k.connected then .drain (some p) else .push p)
  | .push p => some ({ k with packetQueue := k.packetQueue ++ [p] }, .idle)
  | .drain p =>
      match k.packetQueue with
      | [] => some (k, (p.map .last).getD .idle)
      | front :: rest => some ({ k with packetQueue := rest }, .send front p)
  | .send front p => some ({ k with sent := k.sent ++ [front] }, .drain p)
  | .last p => some ({ k with sent := k.sent ++ [p] }, .idle)
  | .testConnected => some (k, if k.connected then .idle else .setConnected)
  | .setConnected => some ({ k with connected := true }, .drain none)
  | .testDisconnected =>
      some (k, if k.connected then .setDisconnected else .idle)
  | .setDisconnected => some ({ k with connected := false }, .clear)
  | .clear =>
      some ({ k with packetQueue := [], dropped := k.dropped ++ k.packetQueue },
        .idle)

inductive SendAct
  | call (c : Call)
  | access

/-- A call is made by a thread that is in none. -/
def sending : Threads.Code Traffic SendPc SendAct
  | k, l, .access => access k l
  | k, l, .call c =>
      match l with
      | .idle => some ({ k with calls := k.calls ++ [c] }, c.start)
      | _ => none

/-- One constructor for each way that an access goes. -/
inductive Accessed : Traffic → SendPc → Traffic → SendPc → Prop
  | on {k} {p : Packet} (hon : k.connected = true) :
      Accessed k (.test p) k (.drain (some p))
  | off {k} {p : Packet} (hoff : k.connected = false) :
      Accessed k (.test p) k (.push p)
  | pushed {k} {p : Packet} :
      Accessed k (.push p) { k with packetQueue := k.packetQueue ++ [p] } .idle
  | drained {k} {p : Option Packet} (hempty : k.packetQueue = []) :
      Accessed k (.drain p) k ((p.map .last).getD .idle)
  | popped {k} {p : Option Packet} {front : Packet} {rest : List Packet}
      (hqueue : k.packetQueue = front :: rest) :
      Accessed k (.drain p) { k with packetQueue := rest } (.send front p)
  | sentFront {k} {front : Packet} {p : Option Packet} :
      Accessed k (.send front p) { k with sent := k.sent ++ [front] } (.drain p)
  | sentLast {k} {p : Packet} :
      Accessed k (.last p) { k with sent := k.sent ++ [p] } .idle
  | wasConnected {k} (hon : k.connected = true) :
      Accessed k .testConnected k .idle
  | wasNotConnected {k} (hoff : k.connected = false) :
      Accessed k .testConnected k .setConnected
  | connected {k} :
      Accessed k .setConnected { k with connected := true } (.drain none)
  | wasNotDisconnected {k} (hon : k.connected = true) :
      Accessed k .testDisconnected k .setDisconnected
  | wasDisconnected {k} (hoff : k.connected = false) :
      Accessed k .testDisconnected k .idle
  | disconnected {k} :
      Accessed k .setDisconnected { k with connected := false } .clear
  | cleared {k} :
      Accessed k .clear
        { k with
          packetQueue := [], dropped := k.dropped ++ k.packetQueue } .idle

theorem accessed {k k' : Traffic} {l l' : SendPc}
    (h : access k l = some (k', l')) : Accessed k l k' l' := by
  cases l with
  | idle => cases h
  | test p =>
      cases hconn : k.connected with
      | false =>
          simp only [access, hconn] at h
          obtain ⟨rfl, rfl⟩ := h
          exact .off hconn
      | true =>
          simp only [access, hconn] at h
          obtain ⟨rfl, rfl⟩ := h
          exact .on hconn
  | push p =>
      obtain ⟨rfl, rfl⟩ := h
      exact .pushed
  | drain p =>
      simp only [access] at h
      split at h
      · next hempty =>
          obtain ⟨rfl, rfl⟩ := h
          exact .drained hempty
      · next front rest hqueue =>
          obtain ⟨rfl, rfl⟩ := h
          exact .popped hqueue
  | send front p =>
      obtain ⟨rfl, rfl⟩ := h
      exact .sentFront
  | last p =>
      obtain ⟨rfl, rfl⟩ := h
      exact .sentLast
  | testConnected =>
      cases hconn : k.connected with
      | false =>
          simp only [access, hconn] at h
          obtain ⟨rfl, rfl⟩ := h
          exact .wasNotConnected hconn
      | true =>
          simp only [access, hconn] at h
          obtain ⟨rfl, rfl⟩ := h
          exact .wasConnected hconn
  | setConnected =>
      obtain ⟨rfl, rfl⟩ := h
      exact .connected
  | testDisconnected =>
      cases hconn : k.connected with
      | false =>
          simp only [access, hconn] at h
          obtain ⟨rfl, rfl⟩ := h
          exact .wasDisconnected hconn
      | true =>
          simp only [access, hconn] at h
          obtain ⟨rfl, rfl⟩ := h
          exact .wasNotDisconnected hconn
  | setDisconnected =>
      obtain ⟨rfl, rfl⟩ := h
      exact .disconnected
  | clear =>
      obtain ⟨rfl, rfl⟩ := h
      exact .cleared

theorem sending_cases {k k' : Traffic} {l l' : SendPc} {a : SendAct}
    (h : sending k l a = some (k', l')) :
    (∃ c, l = .idle ∧ k' = { k with calls := k.calls ++ [c] } ∧
      l' = c.start) ∨ Accessed k l k' l' := by
  cases a with
  | call c =>
      cases l with
      | idle =>
          obtain ⟨rfl, rfl⟩ := h
          exact .inl ⟨c, rfl, rfl, rfl⟩
      | _ => cases h
  | access => exact .inr (accessed h)

end Codefest.Sio
