import Codefest.Main.System
import Codefest.Sio.Lifetime
import Codefest.Sio.Receiver

/-!
# The process (`main.cpp` over `sio_client_impl` and `sio_socket`)

`program` leaves the root socket where it is and lets the server send connects
and events. The process is the program with the rest of what its network thread
runs. Any packet may come, greetings, answers and pings among them, and a
payload may be one that the manager throws at. The root socket has its timer,
and `m_con`, which only a connection that opens while the client is not closing
is put into, decides whether `close_impl` finds something to close.

The server's disconnect packet and the two waits on the timer take the socket
out of the client. Main has its own pointer to it, `current_socket`, which then
points to a socket without a client: what is emitted on it is gone. The client
makes itself another one when the connection next opens, and on that nothing is
bound. The socket object is taken to be there as long as a handler is due that
was bound to it.

A call of the socket is one step here as it is in `program`.
-/

namespace Codefest

open Sio Text Transition

/-- The program; whether `m_con` refers to a connection, and whether that one
was told to close; the root socket's timer and the handlers that are due; and
main's socket, once it has let go of the client. -/
structure Process where
  program : State := {}
  con : Bool := false
  asked : Bool := false
  timer : Option (List Wait) := none
  due : List (Wait × Bool) := []
  lost : Option (Socket Listener) := none

/-- Main has `current_socket`. -/
def MainPc.fetched : MainPc → Bool
  | lock | test | wait | asleep _ | unlock | socket => false
  | _ => true

namespace Act

/-- The step goes through `current_socket`. -/
def onCurrent : Act → Bool
  | .main .joinRoom1 | .main .joinRoom2 | .main .drive => true
  | .main .bindJoinGame | .main .bindTicktackPlayer => true
  | .net .tickEmit => true
  | _ => false

/-- The steps of the program that are packets, which come as packets here. -/
def isPacket : Act → Bool
  | .net .connectPacket | .net (.eventPacket _ _) => true
  | _ => false

/-- Main's wait for the network thread is over. -/
def finishes : Act → Bool
  | .main .finish => true
  | _ => false

/-- What a step does to the timer of the root socket. Sending does nothing to
it. -/
def onTimer (s : State) (k : Lifetime Listener) : Act → Lifetime Listener
  | .net .open =>
      if s.client.conState = .closing then k.close else k.sendConnect
  | .net .fail =>
      if s.client.conState = .closing then k.close else k.onDisconnect
  | .net (.close _) => k.onDisconnect
  | .net .connectPacket => k.onConnected
  | .main .syncClose => k.close
  | _ => k

end Act

namespace Process

/-- The root socket with its timer. -/
def life (s : Process) : Option (Lifetime Listener) :=
  s.program.client.socket.map fun k =>
    { socket := k, timer := s.timer, due := s.due }

/-- The same after a step of the program, which may also make a socket. -/
def lifeAfter (s : Process) (a : Act) : Option (Lifetime Listener) :=
  match s.life with
  | some k => some (a.onTimer s.program k)
  | none =>
      let client := (a.effect s.program).client
      client.socket.map fun _ =>
        Lifetime.create (client.conState = .opened)

/-- `close_impl`. -/
def closeImpl (s : Process) : Process := { s with asked := s.con }

/-- What a step does to `m_con`. -/
def connects (s : Process) : Act → Process
  | .net .open =>
      if s.program.client.conState = .closing then s.closeImpl
      else { s with con := true, asked := false }
  | .net .fail =>
      if s.program.client.conState = .closing then s.closeImpl
      else { s with con := false, asked := false }
  | .net (.close _) => { s with con := false, asked := false }
  | .main .syncClose => s.closeImpl
  | _ => s

/-- The program with main's own socket in it. -/
def current (s : Process) : State :=
  match s.lost with
  | none => s.program
  | some k => { s.program with
      client := { s.program.client with socket := some k } }

/-- A step of the program. On a socket that has let go of the client an `emit`
does nothing, and what is bound to it nobody looks up. -/
def act (s : Process) (a : Act) : Process :=
  if s.lost.isSome ∧ a.onCurrent then
    { s with program := { a.effect s.current with
        client := s.program.client } }
  else
    let k := s.lifeAfter a
    { s.connects a with
      program := a.effect s.program
      timer := k.bind (·.timer)
      due := (k.map (·.due)).getD [] }

/-- `on_close` of the root socket, after which the client has none and the
handlers that are due find no client. -/
def lose (s : Process) : Process :=
  { s with
    program := { s.program with
      client := { s.program.client with socket := none } }
    timer := none
    due := []
    lost :=
      if s.lost.isNone ∧ s.program.main.fetched then
        s.program.client.socket.map Socket.onClose
      else s.lost }

/-- A null pointer, or an exception that nobody catches. -/
def crash (s : Process) : Process :=
  { s with program := { s.program with status := .crashed } }

def namespaces (s : Process) : List Bytes :=
  if s.program.client.socket.isSome then [[47]] else []

/-- What becomes of a packet. The end by the server has a close code that the
transport refuses; the pong is sent over `m_con`, and throws without it. The
program waits for no answer and listens to no error. -/
def notice (s : Process) (p : RawPacket) : Notice → Process
  | .connected _ => s.act (.net .connectPacket)
  | .closed _ => s.lose
  | .event _ _ => s.act (.net (.eventPacket p.message p.packId))
  | .handshakeError => s.closeImpl
  | .pong => if s.con then s else s.crash
  | .greeted _ | .endByServer | .answer _ _ _ | .error _ _ => s

/-- `on_decode`. -/
def decode (s : Process) (p : RawPacket) : Process :=
  match onDecode s.namespaces p with
  | .error _ => s.crash
  | .ok notices => notices.foldl (fun s n => s.notice p n) s

end Process

/-- A step of the program, a packet or a payload that the manager throws at,
the time of a wait, or a handler that is due. -/
inductive ProcessAct
  | act (a : Act)
  | packet (p : RawPacket)
  | malformed
  | expire
  | handler (w : Wait) (cancelled : Bool)

namespace ProcessAct

/-- The network thread only ends when nothing is left on the timer. -/
def enabled (s : Process) : ProcessAct → Bool
  | act a =>
      !a.isPacket ∧ a.enabled (if a.onCurrent then s.current else s.program) ∧
        (a.finishes → s.timer.getD [] = [] ∧ s.due = [])
  | packet _ | malformed =>
      s.program.net = .idle ∧ s.program.client.transport = .up
  | expire => s.timer.isSome
  | handler w cancelled =>
      s.program.net = .idle ∧ s.due.contains (w, cancelled)

def effect (s : Process) : ProcessAct → Process
  | act a => s.act a
  | packet p => s.decode p
  | malformed => s.crash
  | expire =>
      { s with
        timer := some []
        due := s.due ++ (s.timer.getD []).map (·, false) }
  | handler w cancelled =>
      let s := { s with due := s.due.erase (w, cancelled) }
      match w, cancelled with
      | .connect, true => s
      | _, _ => s.lose

end ProcessAct

def process : System Process ProcessAct where
  init := {}
  step s a :=
    if s.program.status = .running ∧ a.enabled s then some (a.effect s)
    else none

theorem process_step_eq_some {s t : Process} {a : ProcessAct} :
    process.step s a = some t ↔
      (s.program.status = .running ∧ a.enabled s = true) ∧ a.effect s = t := by
  simp only [process, Option.ite_none_right_eq_some, Option.some.injEq]

end Codefest
