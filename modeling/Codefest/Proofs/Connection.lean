import Codefest.Proofs.Handling
import Codefest.Proofs.Sessions

/-!
# The life of the connection

What the client believes of its connection is true of it. The timer is armed
only while the connection is down, the namespace counts as connected only while
it is up, and then nothing is left in the socket's queue. `Change` lists what
can happen to the client in a step, and `Consistent` survives each entry of the
list.

For the program it follows that a connection that fails or drops does not end
it: as long as attempts are left, the timer is armed and nothing else has
changed.
-/

namespace Codefest

open Sio Sequence Transition System

namespace Sio

variable {L : Type}

/-- A connected socket has nothing left to send. -/
def Socket.Flushed (k : Socket L) : Prop :=
  k.connected = true → k.packetQueue = []

namespace Socket

theorem connected_sendPacket (k : Socket L) (p : Packet) :
    (k.sendPacket p).connected = k.connected := by
  unfold sendPacket
  split <;> rfl

theorem connected_close (k : Socket L) : k.close.connected = k.connected := by
  unfold close
  split
  · exact connected_sendPacket k _
  · rfl

theorem connected_onDisconnect (k : Socket L) :
    k.onDisconnect.connected = false := by
  unfold onDisconnect
  split
  · rfl
  · simpa using ‹¬ k.connected = true›

theorem connected_create (opened : Bool) :
    (create opened : Socket L).connected = false := by
  cases opened <;> rfl

theorem flushed_sendPacket (k : Socket L) (p : Packet) :
    (k.sendPacket p).Flushed := by
  intro hconn
  rw [connected_sendPacket] at hconn
  rw [Socket.sendPacket, if_pos hconn]

theorem Flushed.close {k : Socket L} (h : k.Flushed) : k.close.Flushed := by
  unfold Socket.close
  split
  · exact flushed_sendPacket k _
  · exact h

theorem Flushed.onConnected {k : Socket L} (h : k.Flushed) :
    k.onConnected.Flushed := by
  unfold Socket.onConnected
  split
  · exact h
  · exact fun _ => rfl

theorem flushed_of_not {k : Socket L} (h : k.connected = false) :
    k.Flushed := by
  intro hconn
  rw [h] at hconn
  cases hconn

end Socket

/-! ## What can happen to the client -/

/-- The event that a packet carries. -/
def Packet.event? : Packet → Option Message
  | event message => some message
  | _ => none

/-- The ways in which a step changes the client, each with what it takes and
the packets it sends. -/
inductive Client.Change : Client L → List Packet → Client L → Prop
  | stay (c) : Change c [] c
  | fetch (c) : Change c [] c.getSocket
  | bind (c) (name : String) (func : L) :
      Change c [] (c.onSocket (·.on name func))
  | send (c) (p : Packet) : c.socket.isSome = true →
      Change c [p] (c.onSocket (·.sendPacket p))
  | accept (c) : c.transport = .up →
      Change c [] (c.onSocket Socket.onConnected)
  | «open» (c) : c.transport = .connecting → Change c [] c.onOpen.1
  | fail (c) : c.transport = .connecting → Change c [] c.onFail.1
  | drop (c) (normal : Bool) : c.transport = .up →
      Change c [] (c.onClose normal).1
  | timer (c) : c.reconnTimer = true → Change c [] c.timeoutReconnect
  | quit (c) : Change c [] c.close

/-- What the client believes of its connection is true of it. -/
structure Consistent (c : Client L) : Prop where
  opened : c.conState = .opened → c.transport = .up
  opening : c.conState = .opening → c.transport = .connecting
  closed : c.conState = .closed → c.transport = .down
  timer : c.reconnTimer = true → c.transport = .down
  connected : ∀ k, c.socket = some k → k.connected = true →
    c.transport = .up
  flushed : ∀ k, c.socket = some k → k.Flushed

namespace Consistent

variable {c : Client L}

/-- Whatever leaves the connection alone and the socket no more connected than
it was. -/
theorem onSocket (h : Consistent c) {f : Socket L → Socket L}
    (hconn : ∀ k, (f k).connected = true → k.connected = true ∨
      c.transport = .up)
    (hflush : ∀ k, k.Flushed → (f k).Flushed) :
    Consistent (c.onSocket f) := by
  refine ⟨h.opened, h.opening, h.closed, h.timer, ?_, ?_⟩
  · intro k hk hk'
    obtain ⟨k₀, hk₀, rfl⟩ := Option.map_eq_some_iff.mp hk
    rcases hconn k₀ hk' with hold | hup
    · exact h.connected k₀ hk₀ hold
    · exact hup
  · intro k hk
    obtain ⟨k₀, hk₀, rfl⟩ := Option.map_eq_some_iff.mp hk
    exact hflush k₀ (h.flushed k₀ hk₀)

theorem getSocket (h : Consistent c) : Consistent c.getSocket := by
  unfold Client.getSocket
  cases hsock : c.socket with
  | some k => exact h
  | none =>
      refine ⟨h.opened, h.opening, h.closed, h.timer, ?_, ?_⟩
      · intro k hk hconn
        obtain rfl := Option.some.inj hk
        rw [Socket.connected_create] at hconn
        cases hconn
      · intro k hk
        obtain rfl := Option.some.inj hk
        exact Socket.flushed_of_not (Socket.connected_create _)

/-- Asking to close keeps the transport as it is. -/
theorem close (h : Consistent c) : Consistent c.close := by
  have hclosing : Consistent { c with conState := .closing } :=
    ⟨by simp, by simp, by simp, h.timer, h.connected, h.flushed⟩
  refine hclosing.onSocket (fun k hk => .inl ?_) fun k hk => hk.close
  rw [← Socket.connected_close]
  exact hk

theorem disconnected (c : Client L) : Consistent c.disconnected := by
  refine ⟨by simp [Client.disconnected, Client.onSocket],
    by simp [Client.disconnected, Client.onSocket],
    fun _ => rfl, fun _ => rfl, ?_, ?_⟩
  · intro k hk hconn
    obtain ⟨k₀, -, rfl⟩ := Option.map_eq_some_iff.mp hk
    rw [Socket.connected_onDisconnect] at hconn
    cases hconn
  · intro k hk
    obtain ⟨k₀, -, rfl⟩ := Option.map_eq_some_iff.mp hk
    exact Socket.flushed_of_not (Socket.connected_onDisconnect k₀)

theorem retryOr (h : Consistent c) (hdown : c.transport = .down)
    (report : Callback) : Consistent (c.retryOr report).1 := by
  unfold Client.retryOr
  split
  · exact ⟨h.opened, h.opening, h.closed, fun _ => hdown, h.connected,
      h.flushed⟩
  · exact h

theorem onOpen (h : Consistent c) (hat : c.transport = .connecting) :
    Consistent c.onOpen.1 := by
  have htimer : c.reconnTimer = false := by
    rw [← Bool.not_eq_true]
    intro ht
    have hdown := h.timer ht
    rw [hat] at hdown
    cases hdown
  unfold Client.onOpen
  split
  · have hup : Consistent { c with transport := .up } := by
      refine ⟨fun _ => rfl, ?_, ?_, by simp [htimer], fun _ _ _ => rfl,
        h.flushed⟩
      · rw [‹c.conState = .closing›]
        simp
      · rw [‹c.conState = .closing›]
        simp
    exact hup.close
  · have hup : Consistent { c with
        transport := .up, conState := .opened, reconnMade := 0 } :=
      ⟨fun _ => rfl, by simp, by simp, by simp [htimer], fun _ _ _ => rfl,
        h.flushed⟩
    refine (hup.onSocket (fun k _ => .inr rfl) fun k hk => ?_).getSocket
    exact hk

theorem onFail (h : Consistent c) (hat : c.transport = .connecting) :
    Consistent c.onFail.1 := by
  unfold Client.onFail
  split
  · have hdown : Consistent { c with transport := .down } := by
      refine ⟨?_, ?_, fun _ => rfl, fun _ => rfl, ?_, h.flushed⟩
      · rw [‹c.conState = .closing›]
        simp
      · rw [‹c.conState = .closing›]
        simp
      · intro k hk hconn
        have hup := h.connected k hk hconn
        rw [hat] at hup
        cases hup
    exact hdown.close
  · exact (disconnected c).retryOr rfl _

theorem onClose (c : Client L) (normal : Bool) :
    Consistent (c.onClose normal).1 := by
  unfold Client.onClose
  split
  · exact disconnected c
  · exact (disconnected c).retryOr rfl _

theorem timeoutReconnect (h : Consistent c) (hat : c.reconnTimer = true) :
    Consistent c.timeoutReconnect := by
  have hdown := h.timer hat
  have hnot : ∀ k, c.socket = some k → k.connected ≠ true := by
    intro k hk hconn
    have hup := h.connected k hk hconn
    rw [hdown] at hup
    cases hup
  unfold Client.timeoutReconnect
  split
  · exact ⟨by simp, fun _ => rfl, by simp, by simp,
      fun k hk hconn => absurd hconn (hnot k hk), h.flushed⟩
  · exact ⟨h.opened, h.opening, h.closed, by simp, h.connected, h.flushed⟩

theorem change {c' : Client L} {ps : List Packet} (h : Consistent c)
    (hc : c.Change ps c') :
    Consistent c' := by
  cases hc with
  | stay => exact h
  | fetch => exact h.getSocket
  | bind name func => exact h.onSocket (fun k hk => .inl hk) fun k hk => hk
  | send p _ =>
      refine h.onSocket (fun k hk => .inl ?_) fun k _ =>
        k.flushed_sendPacket p
      rw [← Socket.connected_sendPacket]
      exact hk
  | accept hup =>
      exact h.onSocket (fun k _ => .inr hup) fun k hk => hk.onConnected
  | «open» hat => exact h.onOpen hat
  | fail hat => exact h.onFail hat
  | drop normal _ => exact onClose c normal
  | timer hat => exact h.timeoutReconnect hat
  | quit => exact h.close

end Consistent

end Sio

/-- The message that an emission is sent as. -/
def Emission.message (e : Emission) : Message :=
  toArrayMessage e.name e.messages

/-- The packets that a step sends. -/
def Act.packets (s : State) : Act → List Packet
  | .net .ack => s.event.ackId.toList.map (.ack · (toAckMessage []))
  | a => (outgoing (a.obs s)).map fun e => .event e.message

theorem packets_eq_nil {s : State} {a : Act} (ha : ¬ a.Emits)
    (hack : a ≠ .net .ack) : a.packets s = [] := by
  unfold Act.packets
  split
  · exact absurd rfl hack
  · rw [outgoing_obs ha, List.map_nil]

theorem change_emit {s : State} (h : s.client.socket.isSome = true)
    (e : Emission) : s.client.Change [.event e.message] (s.emit e).client := by
  exact .send _ (.event e.message) h

/-- What one step does to the client. -/
theorem client_change {s : State} {a : Act} (hs : s.Handling)
    (h : a.enabled s = true) :
    s.client.Change (a.packets s) (a.effect s).client := by
  cases a with
  | main a =>
      cases a with
      | socket => exact .fetch _
      | joinRoom1 =>
          have hat := by simpa [Act.enabled, MainAct.enabled] using h
          exact change_emit hat.2 (joinRoom gameId playerId1)
      | joinRoom2 =>
          have hat := by simpa [Act.enabled, MainAct.enabled] using h
          exact change_emit hat.2 (joinRoom gameId playerId2)
      | bindJoinGame => exact .bind _ _ _
      | bindTicktackPlayer => exact .bind _ _ _
      | drive =>
          have hsome := by simpa [Act.enabled, MainAct.enabled] using h
          obtain ⟨direction, hat⟩ := enabled_drive h
          rw [Act.packets, Act.obs, hat, Act.effect, effect_drive hat]
          rotate_left
          · simp
          exact change_emit hsome.2 (drivePlayer direction)
      | syncClose => exact .quit _
      | _ => exact .stay _
  | net a =>
      cases a with
      | «open» =>
          have hat := by simpa [Act.enabled, NetAct.enabled] using h
          rw [packets_eq_nil (by simp [Act.Emits]) (by simp), Act.effect,
            NetAct.effect, State.callback_client]
          exact .open _ hat.2
      | fail =>
          have hat := by simpa [Act.enabled, NetAct.enabled] using h
          rw [Act.effect, NetAct.effect, State.callback_client]
          exact .fail _ hat.2
      | close normal =>
          have hat := by simpa [Act.enabled, NetAct.enabled] using h
          rw [Act.effect, NetAct.effect, State.callback_client]
          exact .drop _ normal hat.2
      | reconnect =>
          have hat := by simpa [Act.enabled, NetAct.enabled] using h
          exact .timer _ hat.2
      | connectPacket =>
          have hat := by simpa [Act.enabled, NetAct.enabled] using h
          exact .accept _ hat.2
      | eventPacket msg packId =>
          rw [packets_eq_nil (by simp [Act.Emits]) (by simp), Act.effect,
            NetAct.effect, State.deliver_client]
          exact .stay _
      | tickEmit =>
          have hat := by simpa [Act.enabled, NetAct.enabled] using h
          exact change_emit hat.2 (drivePlayer autoDirection)
      | joinBody | tickMap =>
          rw [Act.effect, NetAct.effect]
          split <;> exact .stay _
      | ack =>
          have hat : s.net = .ack := by
            simpa [Act.enabled, NetAct.enabled] using h
          have hcurrent : s.current = some s.event := by
            rw [State.current, hat]
            rfl
          rw [Act.packets, Act.effect, NetAct.effect]
          cases s.event.ackId with
          | some msgId =>
              exact .send _ (.ack _ _) (hs _ hcurrent).1
          | none => exact .stay _
      | _ => exact .stay _

/-! ## Losing the connection -/

/-- The steps that go on from a lost connection. -/
def Act.reconnects : Act → Bool
  | .net .reconnect => true
  | _ => false

theorem reconnMade_getSocket {L : Type} (c : Client L) :
    c.getSocket.reconnMade = c.reconnMade := by
  unfold Client.getSocket
  split <;> rfl

theorem reconnMade_retryOr {L : Type} (c : Client L) (report : Callback) :
    (c.retryOr report).1.reconnMade = c.reconnMade := by
  unfold Client.retryOr
  split <;> rfl

theorem reconnMade_onOpen {L : Type} (c : Client L) :
    c.onOpen.1.reconnMade ≤ c.reconnMade := by
  unfold Client.onOpen
  split
  · exact Nat.le_refl _
  · rw [reconnMade_getSocket]
    exact Nat.zero_le _

theorem reconnMade_onFail {L : Type} (c : Client L) :
    c.onFail.1.reconnMade = c.reconnMade := by
  unfold Client.onFail
  split
  · rfl
  · exact reconnMade_retryOr _ _

theorem reconnMade_onClose {L : Type} (c : Client L) (normal : Bool) :
    (c.onClose normal).1.reconnMade = c.reconnMade := by
  unfold Client.onClose
  split
  · rfl
  · exact reconnMade_retryOr _ _

theorem reconnMade_effect (s : State) {a : Act} (ha : a.reconnects = false) :
    (a.effect s).client.reconnMade ≤ s.client.reconnMade := by
  by_cases hconn : a.Connects
  · rcases hconn with rfl | rfl | ⟨normal, rfl⟩ | rfl | rfl
    · rw [Act.effect, NetAct.effect, State.callback_client]
      exact reconnMade_onOpen _
    · rw [Act.effect, NetAct.effect, State.callback_client]
      exact Nat.le_of_eq (reconnMade_onFail _)
    · rw [Act.effect, NetAct.effect, State.callback_client]
      exact Nat.le_of_eq (reconnMade_onClose _ normal)
    · cases ha
    · exact Nat.le_refl _
  · obtain ⟨socket, hclient⟩ := client_effect (s := s) hconn
    rw [hclient]

theorem reconnMade_timeoutReconnect {L : Type} (c : Client L) :
    c.timeoutReconnect.reconnMade ≤ c.reconnMade + 1 := by
  unfold Client.timeoutReconnect
  split
  · exact Nat.le_refl _
  · exact Nat.le_succ _

/-- The client has not made more attempts than its timer has gone off. -/
theorem reconnMade_run {as : List Act} {s : State}
    (h : program.run as = some s) :
    s.client.reconnMade ≤ as.countP Act.reconnects := by
  refine run_induction (R := fun as s =>
    s.client.reconnMade ≤ as.countP Act.reconnects) ?_ ?_ h
  · exact Nat.le_refl 0
  · intro as s a t _ ih ha
    obtain ⟨-, rfl⟩ := step_eq_some.mp ha
    rw [List.countP_append, List.countP_singleton]
    cases hrec : a.reconnects with
    | false =>
        have hle := reconnMade_effect s hrec
        simp only [Bool.false_eq_true, if_false]
        omega
    | true =>
        have hle : (a.effect s).client.reconnMade ≤
            s.client.reconnMade + 1 := by
          cases a with
          | main a => cases hrec
          | net a =>
              cases a with
              | reconnect => exact reconnMade_timeoutReconnect _
              | _ => cases hrec
        simp only [if_true]
        omega

/-- Before main has asked the client to close, nobody has. -/
theorem closing_mem {as : List Act} {s : State}
    (h : program.run as = some s) (hclosing : s.client.conState = .closing) :
    .main .syncClose ∈ as := by
  rw [mem_iff_rank h (b := .syncClose) rfl]
  rcases Nat.lt_or_ge 10 s.main.rank with hlt | hge
  · exact hlt
  · exact absurd hclosing ((inSession_run h).closing (by omega))

/-- What is left after a loss: everything is as it was, except that the
connection is down, the socket knows it, and the timer will bring it up
again. -/
structure Retrying (s t : State) : Prop where
  status : t.status = .running
  main : t.main = s.main
  game : t.game = s.game ∧ t.count = s.count
  socket : t.client.socket = s.client.socket.map Socket.onDisconnect
  listener : ∀ name, t.client.listener name = s.client.listener name
  conState : t.client.conState = .closed
  timer : t.client.reconnTimer = true
  again : ∃ u, program.step t (.net .reconnect) = some u ∧
    u.client.transport = .connecting

theorem callback_retryOr {s : State} {c : Client Listener} {report : Callback}
    (hrun : s.status = .running) (hnet : s.net = .idle)
    (hclosed : c.conState = .closed)
    (hlisten : ∀ name, c.listener name = s.client.listener name)
    (hsocket : c.socket = s.client.socket.map Socket.onDisconnect)
    (hleft : c.reconnMade < reconnAttempts) :
    Retrying s (s.callback (c.retryOr report)) := by
  have hretry : c.retryOr report = ({ c with reconnTimer := true }, .quiet) :=
    if_pos hleft
  rw [hretry]
  have hen : Act.enabled (s.callback ({ c with reconnTimer := true }, .quiet))
      (.net .reconnect) = true := by
    simp [Act.enabled, NetAct.enabled, hnet]
  exact ⟨hrun, rfl, ⟨rfl, rfl⟩, hsocket, hlisten, hclosed, rfl, _,
    step_eq_some.mpr ⟨⟨hrun, hen⟩, rfl⟩,
    congrArg Client.transport (if_pos hclosed)⟩

theorem retrying_effect {s : State} {a : Act} (hrun : s.status = .running)
    (hen : a.enabled s = true) (ha : a = .net .fail ∨ a = .net (.close false))
    (hclosing : s.client.conState ≠ .closing)
    (hleft : s.client.reconnMade < reconnAttempts) :
    Retrying s (a.effect s) := by
  have hmade : s.client.disconnected.reconnMade < reconnAttempts := hleft
  have hnet : s.net = .idle := by
    rcases ha with rfl | rfl
    · exact (by simpa [Act.enabled, NetAct.enabled] using hen : _ ∧ _).1
    · exact (by simpa [Act.enabled, NetAct.enabled] using hen : _ ∧ _).1
  rcases ha with rfl | rfl
  · have heff : s.client.onFail = s.client.disconnected.retryOr .failListener :=
      if_neg hclosing
    show Retrying s (s.callback s.client.onFail)
    rw [heff]
    exact callback_retryOr hrun hnet rfl (Client.listener_disconnected _) rfl
      hmade
  · have heff : s.client.onClose false =
        s.client.disconnected.retryOr .closeListener :=
      if_neg (by simp [hclosing])
    show Retrying s (({ s with log := s.log ++ [.closed] } : State).callback
      (s.client.onClose false))
    rw [heff]
    obtain ⟨hstatus, hmain, hgame, hsocket, hlisten, hstate, htimer, hagain⟩ :=
      callback_retryOr (s := { s with log := s.log ++ [.closed] })
        hrun hnet rfl (Client.listener_disconnected _) rfl hmade
    exact ⟨hstatus, hmain, hgame, hsocket, hlisten, hstate, htimer, hagain⟩

/-- In every run, an attempt that fails and a connection that drops leave the
program waiting for its next attempt and otherwise as it was, unless main has
asked the client to close or all the attempts have been made. -/
theorem retrying_run {as : List Act} {s t : State} {a : Act}
    (h : program.run as = some s) (hstep : program.step s a = some t)
    (ha : a = .net .fail ∨ a = .net (.close false))
    (hquit : .main .syncClose ∉ as)
    (hleft : as.countP Act.reconnects < reconnAttempts) : Retrying s t := by
  obtain ⟨⟨hrun, hen⟩, rfl⟩ := step_eq_some.mp hstep
  exact retrying_effect hrun hen ha (fun hc => hquit (closing_mem h hc))
    (Nat.lt_of_le_of_lt (reconnMade_run h) hleft)

/-- The connection drops in the key loop. -/
theorem retrying_startup : ∃ s t, program.run (connectedThen startup) = some s ∧
    program.step s (.net (.close false)) = some t ∧ Retrying s t := by
  have hrun : program.run (connectedThen startup) = some _ := rfl
  exact ⟨_, _, hrun, rfl, retrying_run hrun rfl (.inr rfl)
    (by simp [connectedThen, startup]) (by decide)⟩

theorem status_effect {s : State} {a : Act} (hrun : s.status = .running)
    (hexit : (a.effect s).status = .exited) :
    a = .main .finish ∨ a = .net .open ∨ a = .net .fail ∨
      ∃ normal, a = .net (.close normal) := by
  cases a with
  | main a =>
      cases a with
      | finish => exact .inl rfl
      | drive =>
          rw [Act.effect, MainAct.effect] at hexit
          split at hexit <;> cases hrun.symm.trans hexit
      | _ => cases hrun.symm.trans hexit
  | net a =>
      cases a with
      | «open» => exact .inr (.inl rfl)
      | fail => exact .inr (.inr (.inl rfl))
      | close normal => exact .inr (.inr (.inr ⟨normal, rfl⟩))
      | eventPacket msg packId =>
          rw [Act.effect, NetAct.effect, State.deliver] at hexit
          split at hexit
          · cases hexit
          · cases hrun.symm.trans hexit
          · cases hrun.symm.trans hexit
      | joinBody | tickMap =>
          rw [Act.effect, NetAct.effect] at hexit
          split at hexit
          · cases hrun.symm.trans hexit
          · cases hexit
      | _ => cases hrun.symm.trans hexit

theorem open_running {s : State} (hrun : s.status = .running) :
    (Act.effect s (.net .open)).status = .running := by
  show (s.callback s.client.onOpen).status = _
  unfold Client.onOpen
  split <;> exact hrun

end Codefest
