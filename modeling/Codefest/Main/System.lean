import Codefest.Lib.Transition
import Codefest.Main.Keys
import Codefest.Main.Listeners
import Codefest.Sio.Client

/-!
# The two threads (`main.cpp` over `sio_client`)

The program is two threads. Main goes once through the connection barrier, the
two requests to join and the two registrations, and then turns keys into
messages until `q`. The network thread runs the client's callbacks one at a
time and in them the program's listeners. They share the mutex `_lock`, the
flag `connect_finish`, the socket and what it has bound.

A step is what one thread does between two points where the other may come in:
taking or releasing the mutex, falling asleep, one `emit`, one access to shared
data. What the outside decides, which key comes and what the network does, is
in the label. The log is not part of the program: it lists the openings and
ends of the connection, the emissions and the deliveries in the order they
happened, for properties to speak about.

`current_socket` is the client's one socket from the moment main has fetched
it, and nothing dereferences it earlier, so it is not a variable here. A step
that needs the socket is not available without one.

The server's disconnect packet, the twenty seconds of the connection timeout,
greetings, answers and pings are no steps here. `Main.Process` has them, and
`Proofs.Simulation` says where the two agree.
-/

namespace Codefest

open Sio Transition Listening

inductive Thread
  | main | net
  deriving DecidableEq, Repr

inductive Listener
  | joinGame | ticktackPlayer
  deriving DecidableEq, Repr

/-- The next thing main does. Asleep, it has or has not been notified. -/
inductive MainPc
  | lock | test | wait | asleep (notified : Bool) | unlock
  | socket | joinRoom1 | joinRoom2 | bindJoinGame | bindTicktackPlayer
  | getch | drive (direction : String) | syncClose | join
  deriving DecidableEq, Repr

namespace MainPc

/-- What `notify_all` does to main. -/
def notified : MainPc → MainPc
  | asleep _ => asleep true
  | pc => pc

def direction? : MainPc → Option String
  | drive direction => some direction
  | _ => none

end MainPc

/-- The next thing the network thread does: nothing, or a point inside
`on_connected` or one of the two listeners, or the acknowledgement after
them. -/
inductive NetPc
  | idle
  | openLock | openNotify | openSet | openUnlock
  | joinLock | joinBody | joinUnlock
  | tickLock | tickMap | tickCount | tickEmit | tickReset | tickUnlock
  | ack
  deriving DecidableEq, Repr

/-- Running, past `exit` or the end of main, or stopped by a null pointer. -/
inductive Status
  | running | exited | crashed
  deriving DecidableEq, Repr

inductive Obs
  | opened
  | closed
  | emitted (e : Emission)
  | dispatched (name : String) (listener : Option Listener)

/-- The program from `h.connect` on. The event is the one that the network
thread is at, and `count` is the static counter. -/
structure State where
  status : Status := .running
  main : MainPc := .lock
  net : NetPc := .idle
  event : Event := ⟨"", [], none⟩
  lock : Option Thread := none
  connectFinish : Bool := false
  client : Client Listener := {}
  game : Game := {}
  count : Int := 0
  log : List Obs := []

namespace State

/-- `current_socket->emit(...)`. -/
def emit (s : State) (e : Emission) : State :=
  { s with
    client := s.client.onSocket (·.emit e.name e.messages)
    log := s.log ++ [.emitted e] }

/-- Go on to the program's listener that a callback of the client ended in.
`on_close` and `on_fail` call `exit`. -/
def callback (s : State) (r : Client Listener × Callback) : State :=
  match r.2 with
  | .quiet => { s with client := r.1 }
  | .openListener =>
      { s with client := r.1, net := .openLock, log := s.log ++ [.opened] }
  | .closeListener | .failListener =>
      { s with client := r.1, status := .exited }

/-- `on_message_packet` with an event: the listener is looked up now, or
never. -/
def deliver (s : State) (msg : Ptr) (packId : Int) : State :=
  match unpackEvent msg packId with
  | .error _ => { s with status := .crashed }
  | .ok none => s
  | .ok (some ev) =>
      { s with
        event := ev
        net := match s.client.listener ev.name with
          | some .joinGame => .joinLock
          | some .ticktackPlayer => .tickLock
          | none => .ack
        log := s.log ++ [.dispatched ev.name (s.client.listener ev.name)] }

end State

/-! ## What main does -/

inductive MainAct
  | lock | test | wait | wake | spuriousWake | unlock
  | socket | joinRoom1 | joinRoom2 | bindJoinGame | bindTicktackPlayer
  | getch (r : Int) | drive | syncClose | finish
  deriving DecidableEq, Repr

namespace MainAct

/-- Main is there and nothing holds it up. -/
def enabled (s : State) : MainAct → Bool
  | lock => s.main = .lock ∧ s.lock = none
  | test => s.main = .test
  | wait => s.main = .wait
  | wake => s.main = .asleep true ∧ s.lock = none
  | spuriousWake => s.main = .asleep false ∧ s.lock = none
  | unlock => s.main = .unlock
  | socket => s.main = .socket
  | joinRoom1 => s.main = .joinRoom1 ∧ s.client.socket.isSome
  | joinRoom2 => s.main = .joinRoom2 ∧ s.client.socket.isSome
  | bindJoinGame => s.main = .bindJoinGame ∧ s.client.socket.isSome
  | bindTicktackPlayer =>
      s.main = .bindTicktackPlayer ∧ s.client.socket.isSome
  | getch _ => s.main = .getch
  | drive => s.main.direction?.isSome ∧ s.client.socket.isSome
  | syncClose => s.main = .syncClose
  | finish =>
      s.main = .join ∧ s.client.transport = .down ∧
        s.client.reconnTimer = false

/-- Falling asleep gives the mutex up and waking up takes it again. -/
def effect (s : State) : MainAct → State
  | lock => { s with main := .test, lock := some .main }
  | test => { s with main := if s.connectFinish then .unlock else .wait }
  | wait => { s with main := .asleep false, lock := none }
  | wake | spuriousWake => { s with main := .unlock, lock := some .main }
  | unlock => { s with main := .socket, lock := none }
  | socket => { s with main := .joinRoom1, client := s.client.getSocket }
  | joinRoom1 =>
      { s.emit (Codefest.joinRoom gameId playerId1) with main := .joinRoom2 }
  | joinRoom2 =>
      { s.emit (Codefest.joinRoom gameId playerId2) with
        main := .bindJoinGame }
  | bindJoinGame =>
      { s with
        main := .bindTicktackPlayer
        client := s.client.onSocket (·.on "join game" .joinGame) }
  | bindTicktackPlayer =>
      { s with
        main := .getch
        client := s.client.onSocket
          (·.on "ticktack player" .ticktackPlayer) }
  | getch r =>
      { s with main :=
          match keyAction (toChar r) with
          | .quit => .syncClose
          | .drive direction => .drive direction
          | .invalid => .getch }
  | drive =>
      match s.main.direction? with
      | some direction =>
          { s.emit (drivePlayer direction) with main := .getch }
      | none => s
  | syncClose => { s with main := .join, client := s.client.close }
  | finish => { s with status := .exited }

end MainAct

/-! ## What the network thread does -/

inductive NetAct
  | open | fail | close (normal : Bool) | reconnect
  | connectPacket | eventPacket (msg : Ptr) (packId : Int)
  | openLock | openNotify | openSet | openUnlock
  | joinLock | joinBody | joinUnlock
  | tickLock | tickMap | tickCount | tickEmit | tickReset | tickUnlock
  | ack

namespace NetAct

/-- A callback of the transport and a packet come to an idle thread; the rest
goes on from where the thread is. -/
def enabled (s : State) : NetAct → Bool
  | .open => s.net = .idle ∧ s.client.transport = .connecting
  | fail => s.net = .idle ∧ s.client.transport = .connecting
  | close _ => s.net = .idle ∧ s.client.transport = .up
  | reconnect => s.net = .idle ∧ s.client.reconnTimer
  | connectPacket => s.net = .idle ∧ s.client.transport = .up
  | eventPacket _ _ =>
      s.net = .idle ∧ s.client.transport = .up ∧ s.client.socket.isSome
  | openLock => s.net = .openLock ∧ s.lock = none
  | openNotify => s.net = .openNotify
  | openSet => s.net = .openSet
  | openUnlock => s.net = .openUnlock
  | joinLock => s.net = .joinLock ∧ s.lock = none
  | joinBody => s.net = .joinBody
  | joinUnlock => s.net = .joinUnlock
  | tickLock => s.net = .tickLock ∧ s.lock = none
  | tickMap => s.net = .tickMap
  | tickCount => s.net = .tickCount
  | tickEmit => s.net = .tickEmit ∧ s.client.socket.isSome
  | tickReset => s.net = .tickReset
  | tickUnlock => s.net = .tickUnlock
  | ack => s.net = .ack

def effect (s : State) : NetAct → State
  | .open => s.callback s.client.onOpen
  | fail => s.callback s.client.onFail
  | close normal =>
      ({ s with log := s.log ++ [.closed] } : State).callback
        (s.client.onClose normal)
  | reconnect => { s with client := s.client.timeoutReconnect }
  | connectPacket => { s with client := s.client.onSocket Socket.onConnected }
  | eventPacket msg packId => s.deliver msg packId
  | openLock => { s with net := .openNotify, lock := some .net }
  | openNotify => { s with net := .openSet, main := s.main.notified }
  | openSet => { s with net := .openUnlock, connectFinish := true }
  | openUnlock => { s with net := .idle, lock := none }
  | joinLock => { s with net := .joinBody, lock := some .net }
  | joinBody =>
      match onJoinGame s.event.getMessage with
      | .ok _ => { s with net := .joinUnlock }
      | .error _ => { s with status := .crashed }
  | joinUnlock => { s with net := .ack, lock := none }
  | tickLock => { s with net := .tickMap, lock := some .net }
  | tickMap =>
      match exec (updateFromPayload s.event.getMessage) s.game with
      | (.ok _, game) => { s with net := .tickCount, game := game }
      | (.error _, game) => { s with status := .crashed, game := game }
  | tickCount =>
      { s with
        net := if (tickTest s.count).1 then .tickEmit else .tickUnlock
        count := (tickTest s.count).2 }
  | tickEmit =>
      { s.emit (drivePlayer autoDirection) with net := .tickReset }
  | tickReset => { s with net := .tickUnlock, count := 0 }
  | tickUnlock => { s with net := .ack, lock := none }
  | ack =>
      { s with
        net := .idle
        client := match s.event.ackId with
          | some msgId => s.client.onSocket (·.ack msgId [])
          | none => s.client }

end NetAct

inductive Act
  | main (a : MainAct)
  | net (a : NetAct)

namespace Act

def enabled (s : State) : Act → Bool
  | main a => a.enabled s
  | net a => a.enabled s

def effect (s : State) : Act → State
  | main a => a.effect s
  | net a => a.effect s

end Act

/-- Either thread may go on as long as the program runs. -/
def program : System State Act where
  init := {}
  step s a :=
    if s.status = .running ∧ a.enabled s then some (a.effect s) else none

theorem step_eq_some {s t : State} {a : Act} :
    program.step s a = some t ↔
      (s.status = .running ∧ a.enabled s = true) ∧ a.effect s = t := by
  simp only [program, Option.ite_none_right_eq_some, Option.some.injEq]

end Codefest
