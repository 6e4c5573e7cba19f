import Codefest.Sio.Socket

/-!
# The client (`sio_client_impl.cpp`)

`client_impl` owns the connection. The transport under it calls back when an
attempt to connect succeeds or fails and when an open connection closes, and
the client decides from `m_con_state` what that means: whether to try again
after a delay, and which of the program's three listeners to call, if any.

The part that matters here is what a drop does not do. As long as attempts are
left, and there are `0xFFFFFFFF` of them, a failed attempt or an abnormal close
only arms the reconnect timer: neither the close nor the fail listener hears of
it, and the socket stays where it is with its listeners bound.
-/

namespace Codefest.Sio

inductive ConState
  | opening | opened | closing | closed
  deriving DecidableEq, Repr

inductive Transport
  | connecting | up | down
  deriving DecidableEq, Repr

/-- The program's listener that a callback of the transport ends in. -/
inductive Callback
  | quiet | openListener | closeListener | failListener
  deriving DecidableEq, Repr

/-- `m_reconn_attempts`, which the program leaves as constructed. -/
def reconnAttempts : Nat := 0xFFFFFFFF

/-- `client_impl` just after `connect`: an attempt is under way. `socket` is
the entry of `m_sockets` for the namespace `/`, the only one in use. -/
structure Client (L : Type) where
  transport : Transport := .connecting
  conState : ConState := .opening
  reconnMade : Nat := 0
  reconnTimer : Bool := false
  socket : Option (Socket L) := none

namespace Client

variable {L : Type}

/-- `socket("")`: the socket of the root namespace, made when it is not there
yet. -/
def getSocket (c : Client L) : Client L :=
  match c.socket with
  | some _ => c
  | none =>
      { c with socket := some (Socket.create (c.conState = .opened)) }

/-- Call a method of the socket, if there is one. -/
def onSocket (c : Client L) (f : Socket L → Socket L) : Client L :=
  { c with socket := c.socket.map f }

/-- `close`, and the part of `sync_close` before it joins the network thread.
The reconnect timer that `close_impl` cancels is left here to go off: it does
nothing in this state. What `close_impl` does depends on `m_con`, which is in
`Main.Process`; here a connection that is up may always end. -/
def close (c : Client L) : Client L :=
  { c with conState := .closing }.onSocket Socket.close

def onOpen (c : Client L) : Client L × Callback :=
  if c.conState = .closing then
    ({ c with transport := .up }.close, .quiet)
  else
    (({ c with transport := .up, conState := .opened, reconnMade := 0 }.onSocket
      Socket.onOpen).getSocket, .openListener)

/-- Arm the reconnect timer if an attempt is left; otherwise report. -/
def retryOr (c : Client L) (report : Callback) : Client L × Callback :=
  if c.reconnMade < reconnAttempts then
    ({ c with reconnTimer := true }, .quiet)
  else (c, report)

/-- The connection is gone: `con_closed`, and `on_disconnect` on the socket. -/
def disconnected (c : Client L) : Client L :=
  { c with transport := .down, conState := .closed }.onSocket
    Socket.onDisconnect

def onFail (c : Client L) : Client L × Callback :=
  if c.conState = .closing then
    ({ c with transport := .down }.close, .quiet)
  else c.disconnected.retryOr .failListener

/-- `on_close`. The flag says whether the local close code is the normal one. -/
def onClose (c : Client L) (normal : Bool) : Client L × Callback :=
  if normal ∨ c.conState = .closing then (c.disconnected, .closeListener)
  else c.disconnected.retryOr .closeListener

def timeoutReconnect (c : Client L) : Client L :=
  if c.conState = .closed then
    { c with
      reconnTimer := false, conState := .opening
      reconnMade := c.reconnMade + 1, transport := .connecting }
  else { c with reconnTimer := false }

/-! ## What stays

Whatever the connection does, a socket that is there stays, with the same
listeners bound. -/

/-- The listener bound under a name, if there is a socket to bind it to. -/
def listener (c : Client L) (name : String) : Option L :=
  c.socket.bind (·.getBindListener name)

@[simp] theorem listener_getSocket (c : Client L) (name : String) :
    c.getSocket.listener name = c.listener name := by
  unfold getSocket listener
  cases h : c.socket with
  | none => simp [Socket.getBindListener]
  | some k => simp [h]

theorem listener_onSocket (c : Client L) {f : Socket L → Socket L}
    (hf : ∀ k, (f k).eventBinding = k.eventBinding) (name : String) :
    (c.onSocket f).listener name = c.listener name := by
  unfold onSocket listener
  cases c.socket with
  | none => rfl
  | some k => simp [Socket.getBindListener, hf]

@[simp] theorem listener_onSocket_emit (c : Client L) (name : String)
    (msgs : List Message) (event : String) :
    (c.onSocket (·.emit name msgs)).listener event = c.listener event :=
  c.listener_onSocket (fun k => k.eventBinding_emit name msgs) event

@[simp] theorem listener_onSocket_ack (c : Client L) (msgId : Nat)
    (msgs : List Message) (event : String) :
    (c.onSocket (·.ack msgId msgs)).listener event = c.listener event :=
  c.listener_onSocket (fun k => k.eventBinding_ack msgId msgs) event

@[simp] theorem listener_onSocket_onConnected (c : Client L) (name : String) :
    (c.onSocket Socket.onConnected).listener name = c.listener name :=
  c.listener_onSocket Socket.eventBinding_onConnected name

/-- Binding changes one entry, on a socket that is there. -/
theorem listener_onSocket_on (c : Client L) (name : String) (func : L)
    (event : String) (h : c.socket.isSome) :
    (c.onSocket (·.on name func)).listener event =
      if event = name then some func else c.listener event := by
  obtain ⟨k, hk⟩ := Option.isSome_iff_exists.mp h
  simp [onSocket, listener, hk]

@[simp] theorem listener_close (c : Client L) (name : String) :
    c.close.listener name = c.listener name :=
  listener_onSocket { c with conState := .closing } Socket.eventBinding_close
    name

@[simp] theorem listener_disconnected (c : Client L) (name : String) :
    c.disconnected.listener name = c.listener name :=
  listener_onSocket { c with transport := .down, conState := .closed }
    Socket.eventBinding_onDisconnect name

@[simp] theorem listener_retryOr (c : Client L) (report : Callback)
    (name : String) : (c.retryOr report).1.listener name = c.listener name := by
  unfold retryOr
  split <;> rfl

@[simp] theorem listener_onOpen (c : Client L) (name : String) :
    c.onOpen.1.listener name = c.listener name := by
  unfold onOpen
  split
  · exact listener_close { c with transport := .up } name
  · rw [listener_getSocket]
    exact listener_onSocket _ Socket.eventBinding_onOpen name

@[simp] theorem listener_onFail (c : Client L) (name : String) :
    c.onFail.1.listener name = c.listener name := by
  unfold onFail
  split
  · exact listener_close { c with transport := .down } name
  · rw [listener_retryOr, listener_disconnected]

@[simp] theorem listener_onClose (c : Client L) (normal : Bool)
    (name : String) : (c.onClose normal).1.listener name = c.listener name := by
  unfold onClose
  split
  · exact listener_disconnected c name
  · rw [listener_retryOr, listener_disconnected]

@[simp] theorem listener_timeoutReconnect (c : Client L) (name : String) :
    c.timeoutReconnect.listener name = c.listener name := by
  unfold timeoutReconnect
  split <;> rfl

theorem isSome_getSocket (c : Client L) : c.getSocket.socket.isSome := by
  unfold getSocket
  cases h : c.socket with
  | none => rfl
  | some k => simp [h]

@[simp] theorem isSome_onSocket (c : Client L) (f : Socket L → Socket L) :
    (c.onSocket f).socket.isSome = c.socket.isSome :=
  Option.isSome_map

@[simp] theorem isSome_close (c : Client L) :
    c.close.socket.isSome = c.socket.isSome :=
  isSome_onSocket { c with conState := .closing } Socket.close

@[simp] theorem isSome_disconnected (c : Client L) :
    c.disconnected.socket.isSome = c.socket.isSome :=
  isSome_onSocket { c with transport := .down, conState := .closed }
    Socket.onDisconnect

@[simp] theorem isSome_retryOr (c : Client L) (report : Callback) :
    (c.retryOr report).1.socket.isSome = c.socket.isSome := by
  unfold retryOr
  split <;> rfl

theorem isSome_onOpen {c : Client L} (h : c.socket.isSome) :
    c.onOpen.1.socket.isSome := by
  unfold onOpen
  split
  · rw [isSome_close]
    exact h
  · exact isSome_getSocket _

@[simp] theorem isSome_onFail (c : Client L) :
    c.onFail.1.socket.isSome = c.socket.isSome := by
  unfold onFail
  split
  · exact isSome_close { c with transport := .down }
  · rw [isSome_retryOr, isSome_disconnected]

@[simp] theorem isSome_onClose (c : Client L) (normal : Bool) :
    (c.onClose normal).1.socket.isSome = c.socket.isSome := by
  unfold onClose
  split
  · exact isSome_disconnected c
  · rw [isSome_retryOr, isSome_disconnected]

@[simp] theorem isSome_timeoutReconnect (c : Client L) :
    c.timeoutReconnect.socket.isSome = c.socket.isSome := by
  unfold timeoutReconnect
  split <;> rfl

@[simp] theorem transport_getSocket (c : Client L) :
    c.getSocket.transport = c.transport := by
  unfold getSocket
  split <;> rfl

@[simp] theorem conState_getSocket (c : Client L) :
    c.getSocket.conState = c.conState := by
  unfold getSocket
  split <;> rfl

@[simp] theorem conState_retryOr (c : Client L) (report : Callback) :
    (c.retryOr report).1.conState = c.conState := by
  unfold retryOr
  split <;> rfl

/-- After `on_open` the transport is up, and the state is not `closed`. -/
theorem onOpen_live (c : Client L) :
    c.onOpen.1.transport = .up ∧ c.onOpen.1.conState ≠ .closed := by
  unfold onOpen
  split
  · exact ⟨rfl, by simp [close, onSocket]⟩
  · rw [transport_getSocket, conState_getSocket]
    exact ⟨rfl, by simp [onSocket]⟩

/-! Only `close` makes the state `closing`. -/

theorem onOpen_not_closing {c : Client L} (h : c.conState ≠ .closing) :
    c.onOpen.1.conState ≠ .closing := by
  rw [onOpen, if_neg h, conState_getSocket]
  simp [onSocket]

theorem onFail_not_closing {c : Client L} (h : c.conState ≠ .closing) :
    c.onFail.1.conState ≠ .closing := by
  rw [onFail, if_neg h, conState_retryOr]
  simp [disconnected, onSocket]

theorem onClose_not_closing (c : Client L) (normal : Bool) :
    (c.onClose normal).1.conState ≠ .closing := by
  rw [onClose]
  split
  · simp [disconnected, onSocket]
  · simp [disconnected, onSocket]

theorem timeoutReconnect_not_closing {c : Client L}
    (h : c.conState ≠ .closing) : c.timeoutReconnect.conState ≠ .closing := by
  rw [timeoutReconnect]
  split
  · simp
  · exact h

theorem onOpen_callback (c : Client L) :
    c.onOpen.2 = .openListener ↔ c.conState ≠ .closing := by
  unfold onOpen
  split <;> simp [*]

theorem retryOr_callback (c : Client L) {report : Callback}
    (h : report ≠ .openListener) : (c.retryOr report).2 ≠ .openListener := by
  unfold retryOr
  split <;> simp [h]

theorem onFail_callback (c : Client L) : c.onFail.2 ≠ .openListener := by
  unfold onFail
  split
  · simp
  · exact c.disconnected.retryOr_callback (by simp)

theorem onClose_callback (c : Client L) (normal : Bool) :
    (c.onClose normal).2 ≠ .openListener := by
  unfold onClose
  split
  · simp
  · exact c.disconnected.retryOr_callback (by simp)

end Client

end Codefest.Sio
