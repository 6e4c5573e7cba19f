import Codefest.Proofs.Lifetime
import Codefest.Proofs.Process

/-!
# The root socket and its timer

`Lifetime` is a socket on its own, with a timer and without a client around it.
The root socket of the process is one: whatever the program and the network do
to it is a call of it, or the timer's, and a root socket that the client makes
begins as the constructor leaves it. What is proved of every run of a socket
therefore holds of the root socket.

One thing depends on the client. A socket that has asked for its namespace has
the timer set until it is answered, and the client asks whenever the connection
opens, so over an open connection the namespace is accepted or its time runs.
-/

namespace Codefest

open Sio Sequence Transition System

namespace Sio

variable {L : Type}

/-- The socket without what is bound to it. -/
def Lifetime.plain (s : Lifetime L) : Lifetime L :=
  { s with socket := { s.socket with eventBinding := [] } }

section Plain

variable (s : Lifetime L)

theorem plain_sendConnect : s.sendConnect.plain = s.plain.sendConnect := by
  cases hclient : s.client <;>
    simp [Lifetime.sendConnect, Lifetime.plain, Lifetime.arm, Lifetime.cancel,
      Socket.sendConnect, hclient]

theorem plain_close : s.close.plain = s.plain.close := by
  cases hclient : s.client <;> cases hup : s.socket.connected <;>
    simp [Lifetime.close, Lifetime.plain, Lifetime.arm, Lifetime.cancel,
      Socket.close, Socket.sendPacket, hclient, hup]

theorem plain_onConnected : s.onConnected.plain = s.plain.onConnected := by
  cases hclient : s.client <;> cases hup : s.socket.connected <;>
    simp [Lifetime.onConnected, Lifetime.plain, Lifetime.cancel,
      Socket.onConnected, hclient, hup]

theorem plain_onClose : s.onClose.plain = s.plain.onClose := by
  cases hclient : s.client <;>
    simp [Lifetime.onClose, Lifetime.plain, Lifetime.cancel, Socket.onClose,
      hclient]

theorem plain_onDisconnect : s.onDisconnect.plain = s.plain.onDisconnect := by
  cases hclient : s.client <;> cases hup : s.socket.connected <;>
    simp [Lifetime.onDisconnect, Lifetime.plain, Socket.onDisconnect, hclient,
      hup]

theorem plain_sendPacket (p : Packet) :
    (s.sendPacket p).plain = s.plain.sendPacket p := by
  cases hclient : s.client <;> cases hup : s.socket.connected <;>
    simp [Lifetime.sendPacket, Lifetime.plain, Socket.sendPacket, hclient, hup]

end Plain

theorem plain_handle (s : Lifetime L) (w : Wait) (cancelled : Bool) :
    (s.handle cancelled w).plain = s.plain.handle cancelled w := by
  cases w with
  | close => exact plain_onClose s
  | connect =>
      rw [Lifetime.handle, Lifetime.handle, Lifetime.timeoutConnection,
        Lifetime.timeoutConnection, apply_ite Lifetime.plain, plain_onClose]
      rfl

/-- What is bound makes no difference to any step. -/
theorem plain_step {s t : Lifetime L} {a : LifeAct} (h : a.step s = some t) :
    a.step s.plain = some t.plain := by
  cases a with
  | onOpen =>
      cases h
      exact congrArg some (plain_sendConnect s).symm
  | onConnected =>
      cases h
      exact congrArg some (plain_onConnected s).symm
  | onDisconnect =>
      cases h
      exact congrArg some (plain_onDisconnect s).symm
  | onClose =>
      cases h
      exact congrArg some (plain_onClose s).symm
  | close =>
      cases h
      exact congrArg some (plain_close s).symm
  | sendPacket p =>
      cases h
      exact congrArg some (plain_sendPacket s p).symm
  | expire =>
      obtain ⟨waits, htimer, rfl⟩ := step_expire h
      have hplain : s.plain.timer = some waits := htimer
      rw [LifeAct.step, hplain]
      rfl
  | handler w cancelled =>
      obtain ⟨hdue, rfl⟩ := step_handler h
      have hplain : s.plain.due.contains (w, cancelled) = true :=
        List.contains_iff_mem.mpr hdue
      rw [LifeAct.step, if_pos hplain, plain_handle]
      rfl

end Sio

/-- Something was bound on the socket, or sent over it. -/
def Sio.Socket.Served (x y : Socket Listener) : Prop :=
  (∃ bindings, y = { x with eventBinding := bindings }) ∨
    ∃ p, y = x.sendPacket p

/-- That is what a step does away from the connection. -/
theorem socket_effect {s : State} {b : Act} {x : Socket Listener}
    (hx : s.client.socket = some x) (hb : ¬ b.Connects)
    (haccept : b ≠ .net .connectPacket) :
    ∃ y, (b.effect s).client.socket = some y ∧ x.Served y := by
  have hstays : (b.effect s).client.socket = s.client.socket →
      ∃ y, (b.effect s).client.socket = some y ∧ x.Served y :=
    fun heq => ⟨x, heq.trans hx, .inl ⟨_, rfl⟩⟩
  have hsends : ∀ p : Packet, (b.effect s).client.socket =
      (s.client.onSocket (·.sendPacket p)).socket →
      ∃ y, (b.effect s).client.socket = some y ∧ x.Served y := by
    intro p heq
    refine ⟨x.sendPacket p, ?_, .inr ⟨p, rfl⟩⟩
    rw [heq]
    simp [Client.onSocket, hx]
  cases b with
  | main b =>
      cases b with
      | socket =>
          refine hstays ?_
          show s.client.getSocket.socket = _
          rw [Client.getSocket, hx]
          exact hx
      | joinRoom1 | joinRoom2 => exact hsends _ rfl
      | bindJoinGame =>
          refine ⟨x.on "join game" .joinGame, ?_, .inl ⟨_, rfl⟩⟩
          simp [Act.effect, MainAct.effect, Client.onSocket, hx]
      | bindTicktackPlayer =>
          refine ⟨x.on "ticktack player" .ticktackPlayer, ?_, .inl ⟨_, rfl⟩⟩
          simp [Act.effect, MainAct.effect, Client.onSocket, hx]
      | drive =>
          cases hd : s.main.direction? with
          | none =>
              refine hstays ?_
              rw [Act.effect, MainAct.effect, hd]
          | some direction =>
              refine hsends (.event (drivePlayer direction).message) ?_
              rw [Act.effect, MainAct.effect, hd]
              rfl
      | syncClose => exact absurd (by simp [Act.Connects]) hb
      | _ => exact hstays rfl
  | net b =>
      cases b with
      | «open» | fail | close | reconnect =>
          exact absurd (by simp [Act.Connects]) hb
      | connectPacket => exact absurd rfl haccept
      | eventPacket msg packId =>
          exact hstays
            (congrArg Client.socket (State.deliver_client s msg packId))
      | joinBody | tickMap =>
          refine hstays ?_
          rw [Act.effect, NetAct.effect]
          split <;> rfl
      | tickEmit => exact hsends _ rfl
      | ack =>
          cases hid : s.event.ackId with
          | none =>
              refine hstays ?_
              rw [Act.effect, NetAct.effect, hid]
          | some msgId =>
              refine hsends (.ack msgId (toAckMessage [])) ?_
              rw [Act.effect, NetAct.effect, hid]
              rfl
      | _ => exact hstays rfl

/-- What a step does to the root socket that is there: a call of it, or one that
only binds. The client is connected afterwards only if it was before, or if the
call is `on_open`. -/
def Attends (s t : State) (k k' : Lifetime Listener) : Prop :=
  k'.plain = k.plain ∧
      (t.client.conState = .opened → s.client.conState = .opened) ∨
    ∃ l : LifeAct, l.step k = some k' ∧ (l = .onOpen ∨
      (t.client.conState = .opened → l ≠ .onDisconnect ∧
        s.client.conState = .opened))

section Steps

variable {s : Process} {b : Act} {k : Lifetime Listener}

theorem life_after (hlost : s.lost.isSome = true → b.onCurrent = false) :
    (s.act b).life = (b.effect s.program).client.socket.map fun x =>
      { socket := x, timer := (s.lifeAfter b).bind (·.timer)
        due := ((s.lifeAfter b).map (·.due)).getD [] } := by
  rw [Process.act_eq hlost]
  rfl

theorem life_act (hlost : s.lost.isSome = true → b.onCurrent = false)
    (hk : s.life = some k) : (s.act b).life =
      (b.effect s.program).client.socket.map fun x =>
        { socket := x, timer := (b.onTimer s.program k).timer
          due := (b.onTimer s.program k).due } := by
  have hafter : s.lifeAfter b = some (b.onTimer s.program k) := by
    rw [Process.lifeAfter, hk]
  rw [life_after hlost, hafter]
  rfl

theorem onTimer_other {s : State} (hb : ¬ b.Connects)
    (haccept : b ≠ .net .connectPacket) : b.onTimer s k = k := by
  cases b with
  | main b =>
      cases b with
      | syncClose => exact absurd (by simp [Act.Connects]) hb
      | _ => rfl
  | net b =>
      cases b with
      | «open» | fail | close =>
          exact absurd (by simp [Act.Connects]) hb
      | connectPacket => exact absurd rfl haccept
      | _ => rfl

/-- The step is a call of the root socket. -/
theorem attends_call {y : Socket Listener} {l : LifeAct}
    (hlost : s.lost.isSome = true → b.onCurrent = false)
    (hk : s.life = some k)
    (hy : (b.effect s.program).client.socket = some y)
    (hl : l.step k = some
      { socket := y, timer := (b.onTimer s.program k).timer
        due := (b.onTimer s.program k).due })
    (hstate : l = .onOpen ∨ ((b.effect s.program).client.conState = .opened →
      l ≠ .onDisconnect ∧ s.program.client.conState = .opened)) :
    ∃ k', (s.act b).life = some k' ∧
      Attends s.program (b.effect s.program) k k' := by
  refine ⟨_, ?_, .inr ⟨l, hl, hstate⟩⟩
  rw [life_act hlost hk, hy]
  rfl

theorem retryOr_same (c : Client Listener) (report : Callback) :
    (c.retryOr report).1.socket = c.socket ∧
      (c.retryOr report).1.conState = c.conState := by
  unfold Client.retryOr
  split <;> exact ⟨rfl, rfl⟩

section Calls

variable {x : Socket Listener}

/-- The client closes its socket. -/
theorem attends_close {c : Client Listener}
    (hlost : s.lost.isSome = true → b.onCurrent = false)
    (hx : s.program.client.socket = some x) (hk : s.life = some k)
    (hc : c.socket = s.program.client.socket)
    (hclient : (b.effect s.program).client = c.close)
    (htimer : b.onTimer s.program k = k.close) :
    ∃ k', (s.act b).life = some k' ∧
      Attends s.program (b.effect s.program) k k' := by
  obtain rfl : { socket := x, timer := s.timer, due := s.due } = k := by
    rw [Process.life, hx] at hk
    exact Option.some.inj hk
  refine attends_call (l := .close) hlost hk (y := x.close) ?_ ?_ ?_
  · rw [hclient]
    simp [Client.close, Client.onSocket, hc, hx]
  · rw [htimer]
    cases hup : x.connected <;>
      simp [LifeAct.step, Lifetime.close, Lifetime.arm, Lifetime.cancel,
        Socket.close, hup]
  · rw [hclient]
    exact .inr fun hopened => by cases hopened

/-- The client has lost its connection. -/
theorem attends_disconnect {r : Callback}
    (hlost : s.lost.isSome = true → b.onCurrent = false)
    (hx : s.program.client.socket = some x) (hk : s.life = some k)
    (hclient : (b.effect s.program).client = s.program.client.disconnected ∨
      (b.effect s.program).client =
        (s.program.client.disconnected.retryOr r).1)
    (htimer : b.onTimer s.program k = k.onDisconnect) :
    ∃ k', (s.act b).life = some k' ∧
      Attends s.program (b.effect s.program) k k' := by
  obtain rfl : { socket := x, timer := s.timer, due := s.due } = k := by
    rw [Process.life, hx] at hk
    exact Option.some.inj hk
  have hdisconnected : s.program.client.disconnected.socket =
      some x.onDisconnect := by
    simp [Client.disconnected, Client.onSocket, hx]
  obtain ⟨hsock, hstate⟩ :
      (b.effect s.program).client.socket = some x.onDisconnect ∧
        (b.effect s.program).client.conState = .closed := by
    obtain ⟨hsame, hstate⟩ := retryOr_same s.program.client.disconnected r
    rcases hclient with heq | heq
    · exact ⟨by rw [heq, hdisconnected], by rw [heq]; rfl⟩
    · exact ⟨by rw [heq, hsame, hdisconnected], by rw [heq, hstate]; rfl⟩
  refine attends_call (l := .onDisconnect) hlost hk hsock ?_ ?_
  · rw [htimer]
    rfl
  · rw [hstate]
    exact .inr fun hopened => by cases hopened

/-- A step of the connection. -/
theorem attends_connects (hlost : s.lost.isSome = true → b.onCurrent = false)
    (hx : s.program.client.socket = some x) (hk : s.life = some k)
    (hb : b.Connects) :
    ∃ k', (s.act b).life = some k' ∧
      Attends s.program (b.effect s.program) k k' := by
  rcases hb with rfl | rfl | ⟨normal, rfl⟩ | rfl | rfl
  · have hclient : (Act.effect s.program (.net .open)).client =
        s.program.client.onOpen.1 := State.callback_client _ _
    by_cases hclosing : s.program.client.conState = .closing
    · refine attends_close hlost hx hk (c := { s.program.client with
        transport := .up }) rfl ?_ (if_pos hclosing)
      rw [hclient, Client.onOpen, if_pos hclosing]
    · rw [Client.onOpen, if_neg hclosing] at hclient
      have htimer : Act.onTimer s.program k (.net .open) = k.sendConnect :=
        if_neg hclosing
      obtain rfl : { socket := x, timer := s.timer, due := s.due } = k := by
        rw [Process.life, hx] at hk
        exact Option.some.inj hk
      refine attends_call (l := .onOpen) hlost hk (y := x.onOpen) ?_ ?_
        (.inl rfl)
      · rw [hclient]
        simp [Client.getSocket, Client.onSocket, hx]
      · rw [htimer]
        rfl
  · have hclient : (Act.effect s.program (.net .fail)).client =
        s.program.client.onFail.1 := State.callback_client _ _
    by_cases hclosing : s.program.client.conState = .closing
    · refine attends_close hlost hx hk (c := { s.program.client with
        transport := .down }) rfl ?_ (if_pos hclosing)
      rw [hclient, Client.onFail, if_pos hclosing]
    · refine attends_disconnect (r := .failListener) hlost hx hk (.inr ?_)
        (if_neg hclosing)
      rw [hclient, Client.onFail, if_neg hclosing]
  · have hclient : (Act.effect s.program (.net (.close normal))).client =
        (s.program.client.onClose normal).1 := State.callback_client _ _
    refine attends_disconnect (r := .closeListener) hlost hx hk ?_ rfl
    rw [hclient, Client.onClose]
    split
    · exact .inl rfl
    · exact .inr rfl
  · have hclient : (Act.effect s.program (.net .reconnect)).client =
        s.program.client.timeoutReconnect := rfl
    refine ⟨k, ?_, .inl ⟨rfl, ?_⟩⟩
    · have hsame : s.program.client.timeoutReconnect.socket =
          s.program.client.socket := by
        unfold Client.timeoutReconnect
        split <;> rfl
      obtain ⟨x, hx', rfl⟩ := Option.map_eq_some_iff.mp hk
      rw [life_act hlost hk, hclient, hsame, hx']
      rfl
    · rw [hclient, Client.timeoutReconnect]
      split
      · exact fun hopened => by cases hopened
      · exact id
  · exact attends_close hlost hx hk rfl rfl rfl

end Calls

theorem attends_act (hlost : s.lost.isSome = true → b.onCurrent = false)
    (hk : s.life = some k) : ∃ k', (s.act b).life = some k' ∧
      Attends s.program (b.effect s.program) k k' := by
  obtain ⟨x, hx, rfl⟩ := Option.map_eq_some_iff.mp hk
  by_cases hb : b.Connects
  · exact attends_connects hlost hx hk hb
  have hstate : (b.effect s.program).client.conState =
      s.program.client.conState := by
    obtain ⟨socket, hclient⟩ := client_effect (s := s.program) hb
    rw [hclient]
  by_cases haccept : b = .net .connectPacket
  · subst haccept
    refine attends_call (l := .onConnected) hlost hk (y := x.onConnected) ?_ rfl
      (.inr fun hopened => ⟨by simp, hstate.symm.trans hopened⟩)
    simp [Act.effect, NetAct.effect, Client.onSocket, hx]
  · obtain ⟨y, hy, hserved⟩ := socket_effect hx hb haccept
    rcases hserved with ⟨bindings, rfl⟩ | ⟨p, rfl⟩
    · refine ⟨{ socket := { x with eventBinding := bindings }
                timer := s.timer, due := s.due }, ?_,
        .inl ⟨rfl, hstate.symm.trans⟩⟩
      rw [life_act hlost hk, hy, onTimer_other hb haccept]
      rfl
    · refine attends_call (l := .sendPacket p) hlost hk hy ?_
        (.inr fun hopened => ⟨by simp, hstate.symm.trans hopened⟩)
      rw [onTimer_other hb haccept]
      rfl

end Steps

/-! ## Along a run -/

/-- A socket that the client makes asks if the client is connected. -/
theorem Sio.Client.Change.created {L : Type} {c c' : Client L}
    {ps : List Packet} {y : Socket L} (h : c.Change ps c')
    (hnone : c.socket = none) (hy : c'.socket = some y) :
    y = Socket.create (decide (c'.conState = .opened)) := by
  have hmade : c'.socket.isSome ≠ c.socket.isSome := by
    rw [hy, hnone]
    simp
  cases h with
  | stay => exact absurd rfl hmade
  | fetch =>
      rw [Client.getSocket, hnone] at hy ⊢
      exact (Option.some.inj hy).symm
  | bind name func => exact absurd (c.isSome_onSocket _) hmade
  | send p => exact absurd (c.isSome_onSocket _) hmade
  | accept => exact absurd (c.isSome_onSocket _) hmade
  | «open» =>
      by_cases hclosing : c.conState = .closing
      · refine absurd ?_ hmade
        rw [Client.onOpen, if_pos hclosing, Client.isSome_close]
      · rw [Client.onOpen, if_neg hclosing] at hy ⊢
        simpa [Client.getSocket, Client.onSocket, hnone] using hy.symm
  | fail => exact absurd c.isSome_onFail hmade
  | drop normal => exact absurd (c.isSome_onClose normal) hmade
  | timer => exact absurd c.isSome_timeoutReconnect hmade
  | quit => exact absurd c.isSome_close hmade

theorem life_created {s : Process} {b : Act} {k : Lifetime Listener}
    (hs : Sound s) (hen : b.enabled s.program = true)
    (hlost : s.lost.isSome = true → b.onCurrent = false)
    (hnone : s.life = none) (hk : (s.act b).life = some k) :
    k.plain = .create
      (decide ((b.effect s.program).client.conState = .opened)) := by
  have hsock : s.program.client.socket = none := Option.map_eq_none_iff.mp hnone
  rw [life_after hlost] at hk
  obtain ⟨y, hy, rfl⟩ := Option.map_eq_some_iff.mp hk
  have hafter : s.lifeAfter b = some (Lifetime.create
      (decide ((b.effect s.program).client.conState = .opened))) := by
    rw [Process.lifeAfter, hnone]
    dsimp only
    rw [hy]
    rfl
  rw [hafter, (client_change hs.handling hen).created hsock hy]
  cases decide ((b.effect s.program).client.conState = .opened) <;> rfl

theorem asking_plain {s : Lifetime Listener} : Asking s.plain ↔ Asking s :=
  Iff.rfl

/-- The server's acceptance is only taken back by the client. -/
theorem connected_step {k k' : Lifetime Listener} {l : LifeAct}
    (h : l.step k = some k') (hclient : k'.client = true)
    (hl : l ≠ .onDisconnect) (hup : k.socket.connected = true) :
    k'.socket.connected = true := by
  rw [(step_socket h hclient).2]
  cases l with
  | onConnected =>
      show (Socket.onConnected k.socket).connected = true
      rw [Socket.onConnected, if_pos hup]
      exact hup
  | onDisconnect => exact absurd rfl hl
  | close =>
      show (Socket.close k.socket).connected = true
      rw [Socket.close, if_pos hup, Socket.connected_sendPacket]
      exact hup
  | sendPacket p =>
      show (Socket.sendPacket k.socket p).connected = true
      rw [Socket.connected_sendPacket]
      exact hup
  | _ => exact hup

/-- The root socket is accepted, or its time for that runs. -/
theorem awaits_step {k k' : Lifetime Listener} {l : LifeAct}
    (h : l.step k = some k') (hclient : k'.client = true)
    (hl : l ≠ .onDisconnect)
    (hk : k.socket.connected = true ∨ Asking k) :
    k'.socket.connected = true ∨ Asking k' := by
  rcases hk with hup | hasking
  · exact .inl (connected_step h hclient hl hup)
  · by_cases haccept : l = .onConnected
    · subst haccept
      refine .inl ?_
      rw [(step_socket h hclient).2]
      show (Socket.onConnected k.socket).connected = true
      rw [Socket.onConnected]
      split
      · assumption
      · rfl
    · exact .inr (step_asking hasking haccept h)

/-- The root socket is a socket with its timer, and over an open connection it
is accepted, or its time for that runs, or is up. -/
structure Rooted (s : Process) : Prop where
  timed : ∀ k, s.life = some k → ∃ opened ls,
    (lifetime Listener opened).run ls = some k.plain
  awaits : ∀ k, s.life = some k → s.program.client.conState = .opened →
    k.socket.connected = true ∨ Asking k

theorem client_life {s : Process} {k : Lifetime Listener}
    (h : s.life = some k) : k.client = true := by
  obtain ⟨x, -, rfl⟩ := Option.map_eq_some_iff.mp h
  rfl

theorem ProcessStep.rooted {s t : Process} {a : ProcessAct}
    (h : ProcessStep s a t) (hsound : Sound s) (hs : Rooted s) :
    Rooted t := by
  have hsame : t.life = s.life →
      t.program.client.conState = s.program.client.conState → Rooted t := by
    intro hlife hstate
    refine ⟨?_, ?_⟩
    · rw [hlife]
      exact hs.timed
    · rw [hlife, hstate]
      exact hs.awaits
  cases h with
  | @step _ b hen hlost =>
      have hprogram := Process.act_program hlost
      cases hlife : s.life with
      | none =>
          refine ⟨fun k hk => ?_, fun k hk hopened => .inr ?_⟩
          · exact ⟨_, [], congrArg some (life_created hsound hen hlost hlife hk).symm⟩
          · rw [← asking_plain, life_created hsound hen hlost hlife hk, ← hprogram,
              hopened]
            exact asking_sendConnect { socket := {} }
      | some k =>
          obtain ⟨k', hk', hattends⟩ := attends_act hlost hlife
          refine ⟨fun j hj => ?_, fun j hj hopened => ?_⟩
          · obtain rfl := Option.some.inj (hk'.symm.trans hj)
            obtain ⟨opened, ls, hrun⟩ := hs.timed k hlife
            rcases hattends with ⟨hplain, -⟩ | ⟨l, hl, -⟩
            · exact ⟨opened, ls, hrun.trans (congrArg some hplain.symm)⟩
            · exact ⟨opened, ls ++ [l], run_snoc.mpr ⟨_, hrun, plain_step hl⟩⟩
          · obtain rfl := Option.some.inj (hk'.symm.trans hj)
            rw [hprogram] at hopened
            rcases hattends with ⟨hplain, hstate⟩ | ⟨l, hl, rfl | hstate⟩
            · have hconnected : k'.socket.connected = k.socket.connected :=
                congrArg (·.socket.connected) hplain
              rw [hconnected, ← asking_plain, hplain, asking_plain]
              exact hs.awaits k hlife (hstate hopened)
            · obtain rfl : k.sendConnect = k' := Option.some.inj hl
              exact .inr (asking_sendConnect k)
            · obtain ⟨hne, hbefore⟩ := hstate hopened
              exact awaits_step hl (client_life hk') hne
                (hs.awaits k hlife hbefore)
  | aside => exact hsame rfl rfl
  | lose due =>
      refine ⟨fun k hk => ?_, fun k hk => ?_⟩
      · cases hk
      · cases hk
  | crash => exact hsame rfl rfl
  | quiet hprogram _ _ _ _ _ hlife =>
      have hstate : t.program.client.conState =
          s.program.client.conState := by rw [hprogram]
      rcases hlife with hlife | ⟨l, hl, hstep⟩
      · exact hsame hlife hstate
      · cases hold : s.life with
        | none =>
            have hnone : t.life = none := by
              rw [Process.life, hprogram]
              exact Option.map_eq_none_iff.mpr (Option.map_eq_none_iff.mp hold)
            exact hsame (hnone.trans hold.symm) hstate
        | some k =>
            refine ⟨fun j hj => ?_, fun j hj hopened => ?_⟩
            · obtain ⟨opened, ls, hrun⟩ := hs.timed k hold
              exact ⟨opened, ls ++ [l], run_snoc.mpr
                ⟨_, hrun, plain_step ((hstep k hold).trans hj)⟩⟩
            · rw [hstate] at hopened
              exact awaits_step ((hstep k hold).trans hj) (client_life hj) hl
                (hs.awaits k hold hopened)

theorem rooted_run {as : List ProcessAct} {s : Process}
    (h : process.run as = some s) : Rooted s := by
  refine run_induction (R := fun _ s => Rooted s) ?_ ?_ h
  · refine ⟨fun k hk => ?_, fun k hk => ?_⟩
    · cases hk
    · cases hk
  · intro as s a t hrun ih ha
    exact (step_cases ha).2.rooted (sound_run hrun) ih

end Codefest
