import Codefest.Proofs.Process

/-!
# Everything once, in order

Between an `emit` and the transport stands the socket: it hands a packet over
at once when the namespace is connected, and keeps it otherwise. `Moves` says
what such a step does to whatever is read off the packets: some of it leaves
the front of the queue for the transport, and what is sent joins the queue
behind the rest. Every entry of `Change` moves packets in this sense, and none
of them drops one, because the queue that `on_disconnect` clears belongs to a
socket that had flushed it. Only the two control packets come and go by other
rules, so what is read must not be theirs.

Over a run this makes the transport's stream and the queue together the
sequence of emissions, whatever the connection did in between. The same is true
of the acknowledgements, and with them of the events that asked for one.
-/

namespace Codefest

open Sio Sequence Transition System

namespace Sio

variable {L : Type} {β : Type*}

/-- What is read leaves the queue at the front, only while `up`, and what is
sent joins it at the end. The two pairs are what was handed over and what is
queued, before and after. -/
def Moves (f : Packet → Option β) (up : Prop)
    (before : List Packet × List Packet) (added : List β)
    (after : List Packet × List Packet) : Prop :=
  ∃ left, after.1.filterMap f = before.1.filterMap f ++ left ∧
    left ++ after.2.filterMap f = before.2.filterMap f ++ added ∧
    (left ≠ [] → up)

section Moves

variable {f : Packet → Option β} {up : Prop}
  {before between after : List Packet × List Packet} {added added' : List β}

theorem Moves.total (h : Moves f up before added after) :
    after.1.filterMap f ++ after.2.filterMap f =
      before.1.filterMap f ++ before.2.filterMap f ++ added := by
  obtain ⟨left, hsent, hqueued, -⟩ := h
  rw [hsent, List.append_assoc, hqueued, List.append_assoc]

theorem Moves.trans (h : Moves f up before added between)
    (h' : Moves f up between added' after) :
    Moves f up before (added ++ added') after := by
  obtain ⟨left, hsent, hqueued, hup⟩ := h
  obtain ⟨left', hsent', hqueued', hup'⟩ := h'
  refine ⟨left ++ left', ?_, ?_, fun hne => ?_⟩
  · rw [hsent', hsent, List.append_assoc]
  · rw [List.append_assoc, hqueued', ← List.append_assoc, hqueued,
      List.append_assoc]
  · by_cases hl : left = []
    · rw [hl, List.nil_append] at hne
      exact hup' hne
    · exact hup hl

/-- Nothing that is read changes. -/
theorem moves_of_eq (hsent : after.1.filterMap f = before.1.filterMap f)
    (hqueued : after.2.filterMap f = before.2.filterMap f) :
    Moves f up before [] after :=
  ⟨[], by simpa using hsent, by simpa using hqueued, fun h => absurd rfl h⟩

namespace Socket

/-- What was handed to the transport, and what is queued. -/
def packets (k : Socket L) : List Packet × List Packet :=
  (k.sent, k.packetQueue)

theorem filterMap_singleton (p : Packet) :
    [p].filterMap f = (f p).toList := by
  cases hp : f p <;> simp [hp]

theorem moves_sendPacket (k : Socket L) (p : Packet)
    (hup : k.connected = true → up) :
    Moves f up k.packets (f p).toList (k.sendPacket p).packets := by
  unfold sendPacket
  split
  · refine ⟨k.packetQueue.filterMap f ++ (f p).toList, ?_, ?_, fun _ =>
      hup ‹_›⟩
    · simp [packets, filterMap_singleton]
    · simp [packets]
  · refine ⟨[], ?_, ?_, fun h => absurd rfl h⟩
    · simp [packets]
    · simp [packets, filterMap_singleton]

theorem moves_onConnected (k : Socket L) (hup : up) :
    Moves f up k.packets [] k.onConnected.packets := by
  unfold onConnected
  split
  · exact moves_of_eq rfl rfl
  · refine ⟨k.packetQueue.filterMap f, ?_, ?_, fun _ => hup⟩
    · simp [packets]
    · simp [packets]

/-- Nothing is lost with the connection: the queue that is cleared is empty. -/
theorem moves_onDisconnect {k : Socket L} (h : k.Flushed) :
    Moves f up k.packets [] k.onDisconnect.packets := by
  unfold onDisconnect
  split
  · refine moves_of_eq rfl ?_
    rw [packets, packets, h ‹_›]
  · exact moves_of_eq rfl rfl

theorem moves_onOpen (hconnect : f .connect = none) (k : Socket L) :
    Moves f up k.packets [] k.onOpen.packets := by
  refine moves_of_eq ?_ rfl
  simp [packets, onOpen, sendConnect, hconnect]

theorem moves_close (hdisconnect : f .disconnect = none) (k : Socket L)
    (hup : k.connected = true → up) :
    Moves f up k.packets [] k.close.packets := by
  unfold close
  split
  · have hmoves := k.moves_sendPacket (f := f) .disconnect hup
    rwa [hdisconnect] at hmoves
  · exact moves_of_eq rfl rfl

end Socket

/-- The packets of the client's socket; none, before there is one. -/
def Client.packets (c : Client L) : List Packet × List Packet :=
  (c.socket.map Socket.packets).getD ([], [])

theorem moves_onSocket {c : Client L} {g : Socket L → Socket L}
    (h : ∀ k, c.socket = some k → Moves f up k.packets [] (g k).packets) :
    Moves f up c.packets [] (c.onSocket g).packets := by
  cases hsock : c.socket with
  | none =>
      refine moves_of_eq ?_ ?_ <;> simp [Client.packets, Client.onSocket, hsock]
  | some k =>
      simpa [Client.packets, Client.onSocket, hsock] using h k hsock

theorem moves_getSocket (hconnect : f .connect = none) (c : Client L) :
    Moves f up c.packets [] c.getSocket.packets := by
  unfold Client.getSocket
  cases hsock : c.socket with
  | some k => exact moves_of_eq rfl rfl
  | none =>
      cases decide (c.conState = .opened) with
      | false =>
          refine moves_of_eq ?_ ?_ <;>
            simp [Client.packets, hsock, Socket.create, Socket.packets]
      | true =>
          refine moves_of_eq ?_ ?_ <;>
            simp [Client.packets, hsock, Socket.create, Socket.packets,
              Socket.sendConnect, hconnect]

theorem moves_disconnected {c : Client L} (h : Consistent c) :
    Moves f up c.packets [] c.disconnected.packets :=
  moves_onSocket (c := { c with transport := .down, conState := .closed })
    fun k hk => Socket.moves_onDisconnect (h.flushed k hk)

theorem packets_retryOr (c : Client L) (report : Callback) :
    (c.retryOr report).1.packets = c.packets := by
  unfold Client.retryOr
  split <;> rfl

/-- What can happen to the client moves its packets, and those that leave do so
over an open connection. -/
theorem Client.Change.moves {c c' : Client L} {ps : List Packet}
    (hc : c.Change ps c') (hconnect : f .connect = none)
    (hdisconnect : f .disconnect = none) (h : Consistent c) :
    Moves f (c'.transport = .up) c.packets (ps.filterMap f) c'.packets := by
  cases hc with
  | stay => exact moves_of_eq rfl rfl
  | fetch => exact moves_getSocket hconnect c
  | bind name func => exact moves_onSocket fun k _ => moves_of_eq rfl rfl
  | send p hp =>
      obtain ⟨k, hk⟩ := Option.isSome_iff_exists.mp hp
      rw [Socket.filterMap_singleton]
      simpa [packets, onSocket, hk] using
        k.moves_sendPacket p (h.connected k hk)
  | accept hup => exact moves_onSocket fun k _ => k.moves_onConnected hup
  | «open» hat =>
      unfold onOpen
      split
      · exact moves_onSocket (c := { c with
          transport := .up, conState := .closing }) fun k _ =>
            k.moves_close hdisconnect fun _ => rfl
      · exact (moves_onSocket (c := { c with
          transport := .up, conState := .opened, reconnMade := 0 }) fun k _ =>
            k.moves_onOpen hconnect).trans (moves_getSocket hconnect _)
  | fail hat =>
      unfold onFail
      split
      · refine moves_onSocket (c := { c with
          transport := .down, conState := .closing }) fun k hk =>
            k.moves_close hdisconnect fun hconn => ?_
        have hup := h.connected k hk hconn
        rw [hat] at hup
        cases hup
      · rw [packets_retryOr]
        exact moves_disconnected h
  | drop normal _ =>
      unfold onClose
      split
      · exact moves_disconnected h
      · rw [packets_retryOr]
        exact moves_disconnected h
  | timer _ =>
      unfold timeoutReconnect
      split <;> exact moves_of_eq rfl rfl
  | quit =>
      exact moves_onSocket (c := { c with conState := .closing }) fun k hk =>
        k.moves_close hdisconnect fun hconn => h.connected k hk hconn

end Moves

/-! ## Where packets come from -/

/-- All packets, handed over or queued, are of a kind. -/
def All (P : Packet → Prop) (packets : List Packet × List Packet) : Prop :=
  ∀ p ∈ packets.1 ++ packets.2, P p

section Kind

variable {P : Packet → Prop}

theorem All.add {before after : List Packet × List Packet} (h : All P before)
    (hadd : ∀ p ∈ after.1 ++ after.2, p ∈ before.1 ++ before.2 ∨ P p) :
    All P after := by
  intro p hp
  rcases hadd p hp with hmem | hkind
  · exact h p hmem
  · exact hkind

theorem all_sendPacket {k : Socket L} {p : Packet} (h : All P k.packets)
    (hp : P p) : All P (k.sendPacket p).packets := by
  refine h.add fun q hq => ?_
  have hmem : q ∈ k.sent ++ k.packetQueue ∨ q = p := by
    unfold Socket.sendPacket at hq
    split at hq <;> simpa [Socket.packets, or_assoc] using hq
  rcases hmem with hmem | rfl
  · exact .inl hmem
  · exact .inr hp

theorem all_onConnected {k : Socket L} (h : All P k.packets) :
    All P k.onConnected.packets := by
  refine h.add fun q hq => .inl ?_
  unfold Socket.onConnected at hq
  split at hq
  · exact hq
  · simpa [Socket.packets] using hq

theorem all_onDisconnect {k : Socket L} (h : All P k.packets) :
    All P k.onDisconnect.packets := by
  refine h.add fun q hq => .inl ?_
  unfold Socket.onDisconnect at hq
  split at hq
  · exact List.mem_append_left _ (by simpa [Socket.packets] using hq)
  · exact hq

theorem all_onOpen (hconnect : P .connect) {k : Socket L}
    (h : All P k.packets) : All P k.onOpen.packets := by
  refine h.add fun q hq => ?_
  have hmem : q ∈ k.sent ∨ q = .connect ∨ q ∈ k.packetQueue := by
    simpa [Socket.packets, Socket.onOpen, Socket.sendConnect] using hq
  rcases hmem with hsent | rfl | hqueue
  · exact .inl (List.mem_append_left _ hsent)
  · exact .inr hconnect
  · exact .inl (List.mem_append_right _ hqueue)

theorem all_close (hdisconnect : P .disconnect) {k : Socket L}
    (h : All P k.packets) : All P k.close.packets := by
  unfold Socket.close
  split
  · exact all_sendPacket h hdisconnect
  · exact h

theorem all_onSocket {c : Client L} {f : Socket L → Socket L}
    (hf : ∀ k, All P k.packets → All P (f k).packets) (h : All P c.packets) :
    All P (c.onSocket f).packets := by
  cases hsock : c.socket with
  | none => simpa [Client.packets, Client.onSocket, hsock] using h
  | some k =>
      have hk : All P k.packets := by simpa [Client.packets, hsock] using h
      simpa [Client.packets, Client.onSocket, hsock] using hf k hk

theorem all_getSocket (hconnect : P .connect) {c : Client L}
    (h : All P c.packets) : All P c.getSocket.packets := by
  unfold Client.getSocket
  cases hsock : c.socket with
  | some k => exact h
  | none =>
      have hcreate : ∀ opened,
          All P (Socket.create opened : Socket L).packets := by
        intro opened p hp
        cases opened with
        | false => cases hp
        | true =>
            obtain rfl := List.mem_singleton.mp hp
            exact hconnect
      exact hcreate _

theorem all_disconnected {c : Client L} (h : All P c.packets) :
    All P c.disconnected.packets :=
  all_onSocket (c := { c with transport := .down, conState := .closed })
    (fun _ => all_onDisconnect) h

/-- The client adds nothing to what it is given but the two control packets. -/
theorem Client.Change.all {c c' : Client L} {ps : List Packet}
    (hc : c.Change ps c') (hconnect : P .connect)
    (hdisconnect : P .disconnect) (hps : ∀ p ∈ ps, P p)
    (h : All P c.packets) : All P c'.packets := by
  cases hc with
  | stay => exact h
  | fetch => exact all_getSocket hconnect h
  | bind name func => exact all_onSocket (fun _ hk => hk) h
  | send p _ =>
      exact all_onSocket (fun _ hk => all_sendPacket hk (hps p (by simp))) h
  | accept => exact all_onSocket (fun _ => all_onConnected) h
  | «open» =>
      unfold onOpen
      split
      · exact all_onSocket (c := { c with
          transport := .up, conState := .closing })
            (fun _ => all_close hdisconnect) h
      · exact all_getSocket hconnect (all_onSocket (c := { c with
          transport := .up, conState := .opened, reconnMade := 0 })
            (fun _ => all_onOpen hconnect) h)
  | fail =>
      unfold onFail
      split
      · exact all_onSocket (c := { c with
          transport := .down, conState := .closing })
            (fun _ => all_close hdisconnect) h
      · rw [packets_retryOr]
        exact all_disconnected h
  | drop normal =>
      unfold onClose
      split
      · exact all_disconnected h
      · rw [packets_retryOr]
        exact all_disconnected h
  | timer =>
      unfold timeoutReconnect
      split <;> exact h
  | quit =>
      exact all_onSocket (c := { c with conState := .closing })
        (fun _ => all_close hdisconnect) h

end Kind

end Sio

/-! ## The emissions of a run -/

namespace Sio

def events (packets : List Packet) : List Message :=
  packets.filterMap Packet.event?

end Sio

/-- What main's socket has handed over and what it has queued; the root socket
is main's until it lets go of the client. -/
def Process.packets (s : Process) : List Packet × List Packet :=
  match s.lost with
  | none => s.program.client.packets
  | some k => k.packets

def Process.emitted (s : Process) : List Message :=
  (outgoing s.program.log).map Emission.message

/-- As long as main's socket has its client, it has handed over or queued what
was emitted, in order and each once. Without its client it keeps nothing, and
what it had handed over is where the emissions began. -/
structure Emitted (s : Process) : Prop where
  kept : s.lost = none →
    events s.packets.1 ++ events s.packets.2 = s.emitted
  lost : s.lost.isSome = true →
    events s.packets.1 <+: s.emitted ∧ s.packets.2 = []

/-- The events that a step sends are what it emits. -/
theorem events_packets (s : State) (a : Act) :
    events (a.packets s) = (outgoing (a.obs s)).map Emission.message := by
  have hmap : ∀ l : List Emission,
      events (l.map fun e => .event e.message) = l.map Emission.message := by
    intro l
    rw [events, List.filterMap_map]
    exact congrFun List.filterMap_eq_map' l
  unfold Act.packets
  split
  · cases s.event.ackId <;> rfl
  · exact hmap _

section Steps

variable {s t : Process} {a : ProcessAct}

theorem packets_kept (h : s.lost = none) :
    s.packets = s.program.client.packets := by
  rw [Process.packets, h]

theorem packets_lost {k : Socket Listener} (h : s.lost = some k) :
    s.packets = k.packets := by
  rw [Process.packets, h]

/-- Nothing but the log changes for a socket that is lost. -/
theorem Emitted.grows {t : Process} (hs : Emitted s)
    (hlost : t.lost = s.lost) (hsome : s.lost.isSome = true)
    {more : List Message} (hmore : t.emitted = s.emitted ++ more) :
    Emitted t := by
  have hpackets : t.packets = s.packets := by
    obtain ⟨k, hk⟩ := Option.isSome_iff_exists.mp hsome
    rw [packets_lost hk, packets_lost (hlost.trans hk)]
  refine ⟨fun hnone => ?_, fun _ => ?_⟩
  · rw [hlost.symm.trans hnone] at hsome
    cases hsome
  · rw [hpackets, hmore]
    obtain ⟨hbegins, hempty⟩ := hs.lost hsome
    exact ⟨hbegins.trans (List.prefix_append _ _), hempty⟩

theorem emitted_effect {s' : State} (t : Process) (b : Act)
    (hlog : t.program.log = (b.effect s').log) : t.emitted =
      (outgoing s'.log).map Emission.message ++ events (b.packets s') := by
  rw [Process.emitted, hlog, outgoing_effect, List.map_append, events_packets]

/-- The packets of a step of the program, read in one way. -/
theorem moves_step {β : Type*} {f : Packet → Option β} {b : Act}
    (hs : Sound s) (hen : b.enabled s.program = true)
    (hconnect : f .connect = none) (hdisconnect : f .disconnect = none) :
    Moves f ((b.effect s.program).client.transport = .up)
      s.program.client.packets ((b.packets s.program).filterMap f)
      (b.effect s.program).client.packets :=
  (client_change hs.handling hen).moves hconnect hdisconnect hs.consistent

theorem emitted_step {b : Act} (hs : Sound s) (hemitted : Emitted s)
    (hen : b.enabled s.program = true)
    (hlost : s.lost.isSome = true → b.onCurrent = false) :
    Emitted (s.act b) := by
  have hprogram := Process.act_program hlost
  have hmore := emitted_effect (s.act b) b (congrArg State.log hprogram)
  cases hl : s.lost with
  | some k => exact hemitted.grows (s.act_lost b) (by rw [hl]; rfl) hmore
  | none =>
      refine ⟨fun hnone => ?_, fun hsome => ?_⟩
      · have hmoves := moves_step hs (f := Packet.event?) hen rfl rfl
        have hkept := hemitted.kept hl
        rw [packets_kept hl] at hkept
        rw [packets_kept hnone, hprogram, hmore, ← Process.emitted, ← hkept]
        exact hmoves.total
      · rw [Process.act_lost, hl] at hsome
        cases hsome

theorem emitted_lose (hs : Sound s) (hemitted : Emitted s) :
    Emitted s.lose := by
  rcases lose_lost hs with ⟨k, hl, hnew⟩ | ⟨k, hl, hk, -, hnew⟩ |
    ⟨-, hrank, hnew⟩
  · exact hemitted.grows (hnew.trans hl.symm) (by rw [hl]; rfl)
      (List.append_nil _).symm
  · refine ⟨fun hnone => ?_, fun _ => ?_⟩
    · rw [hnone] at hnew
      cases hnew
    · have hkept := hemitted.kept hl
      rw [packets_kept hl, Client.packets, hk] at hkept
      rw [packets_lost hnew]
      refine ⟨?_, rfl⟩
      show events k.sent <+: s.emitted
      rw [← hkept]
      exact List.prefix_append _ _
  · refine ⟨fun _ => ?_, fun hsome => ?_⟩
    · rw [packets_kept hnew]
      show [] = (outgoing s.program.log).map Emission.message
      rw [hs.silent hrank]
      rfl
    · rw [hnew] at hsome
      cases hsome

theorem Emitted.congr {t : Process} (hs : Emitted s)
    (hclient : t.program.client = s.program.client)
    (hlog : t.program.log = s.program.log) (hlost : t.lost = s.lost) :
    Emitted t := by
  have hpackets : t.packets = s.packets := by
    rw [Process.packets, Process.packets, hlost, hclient]
  have hemitted : t.emitted = s.emitted := by
    rw [Process.emitted, Process.emitted, hlog]
  constructor
  · rw [hpackets, hemitted, hlost]
    exact hs.kept
  · rw [hpackets, hemitted, hlost]
    exact hs.lost

theorem ProcessStep.emitted (h : ProcessStep s a t) (hs : Sound s)
    (hemitted : Emitted s) :
    Emitted t := by
  cases h with
  | step hen hlost => exact emitted_step hs hemitted hen hlost
  | @aside b k hk =>
      have hlog : s.current.log = s.program.log := by
        rw [Process.current_eq hk]
      have hmore := emitted_effect { s with program := { b.effect s.current with
        client := s.program.client } } b rfl
      rw [hlog] at hmore
      exact hemitted.grows rfl (by rw [hk]; rfl) hmore
  | lose due =>
      exact emitted_lose (s := { s with due := due })
        (hs.congr _ rfl rfl) (hemitted.congr rfl rfl rfl)
  | crash => exact hemitted.congr rfl rfl rfl
  | quiet hprogram hlost =>
      exact hemitted.congr (by rw [hprogram]) (by rw [hprogram]) hlost

end Steps

theorem emitted_run {as : List ProcessAct} {s : Process}
    (h : process.run as = some s) : Emitted s := by
  refine run_induction (R := fun _ s => Emitted s) ?_ ?_ h
  · refine ⟨fun _ => rfl, fun hsome => ?_⟩
    cases hsome
  · intro as s a t hrun ih ha
    exact (step_cases ha).2.emitted (sound_run hrun) ih

section Steps

variable {s t : Process} {a : ProcessAct}

theorem handed_lose (hs : Sound s) (hemitted : Emitted s) :
    events s.lose.packets.1 = events s.packets.1 := by
  rcases lose_lost hs with ⟨k, hl, hnew⟩ | ⟨k, hl, hk, -, hnew⟩ |
    ⟨hl, hrank, hnew⟩
  · rw [packets_lost hnew, packets_lost hl]
  · rw [packets_lost hnew, packets_kept hl, Client.packets, hk]
    rfl
  · have hnone : s.emitted = [] := by
      rw [Process.emitted, hs.silent hrank]
      rfl
    have hkept := hemitted.kept hl
    rw [hnone, List.append_eq_nil_iff] at hkept
    rw [packets_kept hnew, hkept.1]
    rfl

/-- A step hands events over only on a socket that has its client, and over an
open connection. -/
theorem ProcessStep.handed (h : ProcessStep s a t) (hs : Sound s)
    (hemitted : Emitted s) :
    ∃ left, events t.packets.1 = events s.packets.1 ++ left ∧
      (left ≠ [] → s.lost = none ∧ t.program.client.transport = .up) := by
  have hstays : events t.packets.1 = events s.packets.1 →
      ∃ left, events t.packets.1 = events s.packets.1 ++ left ∧
        (left ≠ [] → s.lost = none ∧ t.program.client.transport = .up) :=
    fun heq => ⟨[], by simpa using heq, fun hne => absurd rfl hne⟩
  cases h with
  | @step _ b hen hlost =>
      have hprogram := Process.act_program hlost
      rcases Option.eq_none_or_eq_some s.lost with hl | ⟨k, hl⟩
      · obtain ⟨left, hsent, -, hup⟩ :=
          moves_step hs (f := Packet.event?) hen rfl rfl
        refine ⟨left, ?_, fun hne => ⟨hl, ?_⟩⟩
        · rw [packets_kept hl, packets_kept ((s.act_lost b).trans hl),
            hprogram]
          exact hsent
        · rw [hprogram]
          exact hup hne
      · refine hstays ?_
        rw [packets_lost hl, packets_lost ((s.act_lost b).trans hl)]
  | aside hk =>
      refine hstays ?_
      rw [packets_lost hk]
      exact congrArg (fun p => events p.1) (packets_lost hk)
  | lose due =>
      exact hstays (handed_lose (s := { s with due := due })
        (hs.congr _ rfl rfl) (hemitted.congr rfl rfl rfl))
  | crash => exact hstays rfl
  | quiet hprogram hlost =>
      refine hstays ?_
      rw [Process.packets, Process.packets, hlost, hprogram]

end Steps

/-- In every run, main's socket hands the emissions over in their order and
each once, and as long as it has its client it queues the rest. An accepted
namespace has nothing queued, and a step hands something over only while the
connection is up. Once the socket has let go of the client nothing is queued or
handed over any more. -/
structure Delivered (s : Process) : Prop extends Emitted s where
  connected : ∀ k, s.lost = none → s.program.client.socket = some k →
    k.connected = true →
      s.program.client.transport = .up ∧ s.packets.2 = []
  handed : ∀ a t, process.step s a = some t →
    ∃ left, events t.packets.1 = events s.packets.1 ++ left ∧
      (left ≠ [] → s.lost = none ∧ t.program.client.transport = .up)
  stays : ∀ a t, process.step s a = some t → s.lost.isSome = true →
    t.lost = s.lost

theorem delivered_run {as : List ProcessAct} {s : Process}
    (h : process.run as = some s) : Delivered s := by
  have hs := sound_run h
  have hemitted := emitted_run h
  refine ⟨hemitted, ?_, ?_, ?_⟩
  · intro k hl hk hconn
    refine ⟨hs.consistent.connected k hk hconn, ?_⟩
    rw [packets_kept hl, Client.packets, hk]
    exact hs.consistent.flushed k hk hconn
  · exact fun a t hstep => (step_cases hstep).2.handed hs hemitted
  · exact fun a t hstep => (step_cases hstep).2.lost

/-- The namespace is accepted and a key pressed, then the server takes the
socket away and another key is pressed. -/
def keptThenLost : List ProcessAct :=
  (connectedThen startup).map .act ++
    [.packet (Packet.raw [47] .connect), .act (.main (.getch 119)),
      .act (.main .drive), .packet (Packet.raw [47] .disconnect),
      .act (.main (.getch 97)), .act (.main .drive)]

/-- Two joins and a drive are handed over, and a drive is lost. -/
theorem delivered_keptThenLost :
    ∃ s, process.run keptThenLost = some s ∧ Delivered s := by
  have hrun : process.run keptThenLost = some _ := rfl
  exact ⟨_, hrun, delivered_run hrun⟩

/-! ## The acknowledgements of a run -/

namespace Sio

/-- The id that a packet answers. -/
def Packet.answers? : Packet → Option Nat
  | ack msgId _ => some msgId
  | _ => none

def answers (packets : List Packet) : List Nat :=
  packets.filterMap Packet.answers?

end Sio

/-- The ids that were asked for. -/
def asked (evs : List Event) : List Nat := evs.filterMap Event.ackId

/-- The ids that the root socket has answered, handed over first and then
queued, and that of the event which the network thread is at. -/
def State.answered (s : State) : List Nat :=
  answers s.client.packets.1 ++ answers s.client.packets.2 ++
    asked s.current.toList

theorem answers_ack (s : State) :
    answers (Act.packets s (.net .ack)) = s.event.ackId.toList := by
  rw [Act.packets]
  cases s.event.ackId <;> rfl

theorem answers_packets (s : State) {a : Act} (ha : a ≠ .net .ack) :
    answers (a.packets s) = [] := by
  have hmap : ∀ l : List Emission,
      answers (l.map fun e => .event e.message) = [] := by
    intro l
    rw [answers, List.filterMap_map]
    exact List.filterMap_eq_nil_iff.mpr fun _ _ => rfl
  unfold Act.packets
  split
  · exact absurd rfl ha
  · exact hmap _

theorem answered_effect {s : State} {a : Act} (hs : s.Handling)
    (hc : Consistent s.client) (hen : a.enabled s = true) :
    (a.effect s).answered = s.answered ++ asked a.event?.toList := by
  have hmoves := (client_change hs hen).moves (f := Packet.answers?) rfl rfl hc
  have htotal : answers (a.effect s).client.packets.1 ++
      answers (a.effect s).client.packets.2 =
        answers s.client.packets.1 ++ answers s.client.packets.2 ++
          answers (a.packets s) := hmoves.total
  rw [State.answered, State.answered, htotal]
  rcases current_effect hen with ⟨msg, packId, rfl, hnone, hnew⟩ |
    ⟨rfl, hsome, hnone⟩ | ⟨hno, hack, hsame⟩
  · rw [answers_packets s (by simp), hnone, hnew]
    simp [asked]
  · rw [answers_ack, hsome, hnone]
    cases hid : s.event.ackId <;> simp [asked, Act.event?, hid]
  · rw [answers_packets s hack, hno, hsame]
    simp [asked]

theorem ProcessStep.answered {s t : Process} {a : ProcessAct}
    (h : ProcessStep s a t)
    (hs : Sound s) (hsock : s.program.client.socket.isSome = true)
    (hopen : a.closes = false) :
    t.program.client.socket.isSome = true ∧
      t.program.answered = s.program.answered ++ asked a.event?.toList := by
  cases h with
  | step hen hlost _ hevent =>
      rw [Process.act_program hlost, hevent]
      exact ⟨isSome_effect hsock _,
        answered_effect hs.handling hs.consistent hen⟩
  | @aside b k hk hb hen =>
      refine ⟨hsock, ?_⟩
      have hsame : (b.effect s.current).current = s.program.current := by
        rw [current_onCurrent hen hb, Process.current_eq hk]
        rfl
      show answers s.program.client.packets.1 ++
          answers s.program.client.packets.2 ++
            asked (b.effect s.current).current.toList = _
      rw [hsame]
      exact (List.append_nil _).symm
  | lose due _ hcloses =>
      rw [hopen] at hcloses
      cases hcloses
  | crash _ _ hnone =>
      rw [(hnone hsock).1]
      exact ⟨hsock, (List.append_nil _).symm⟩
  | quiet hprogram _ _ _ _ hnone =>
      rw [hprogram, (hnone hsock).1]
      exact ⟨hsock, (List.append_nil _).symm⟩

/-- Over any stretch of a run in which the root socket stays, the events that
come to it and ask for an acknowledgement are answered, in the order in which
they come and each once; the answer to the current event is the one that is
still to come. -/
theorem answered_run {as bs : List ProcessAct} {s t : Process}
    (h : process.run as = some s)
    (hsock : s.program.client.socket.isSome = true)
    (hkept : ∀ b ∈ bs, b.closes = false) (hbs : process.runFrom s bs = some t) :
    t.program.answered = s.program.answered ++ asked (heard bs) := by
  induction bs generalizing as s with
  | nil =>
      obtain rfl : s = t := Option.some.inj hbs
      exact (List.append_nil _).symm
  | cons b bs ih =>
      rw [List.forall_mem_cons] at hkept
      obtain ⟨u, hu, hrest⟩ := Option.bind_eq_some_iff.mp hbs
      obtain ⟨husock, hone⟩ :=
        (step_cases hu).2.answered (sound_run h) hsock hkept.1
      rw [ih (run_snoc.mpr ⟨s, h, hu⟩) husock hkept.2 hrest, hone, heard_cons,
        asked, asked, asked, List.filterMap_append, List.append_assoc]

/-- An event that asks for an answer comes before the namespace is accepted,
the connection drops, and the next one is accepted. -/
def noteThenDrop : List ProcessAct :=
  [.packet { Packet.raw [47] (.event (.array [some (.string "note")])) with
      packId := 7 },
    .act (.net .ack), .act (.net (.close false)), .act (.net .reconnect),
    .act (.net .open), .act (.net .openLock), .act (.net .openNotify),
    .act (.net .openSet), .act (.net .openUnlock),
    .packet (Packet.raw [47] .connect)]

theorem answered_noteThenDrop : ∃ s t,
    process.run ((connectedThen startup).map .act) = some s ∧
      process.runFrom s noteThenDrop = some t ∧
      t.program.answered =
        s.program.answered ++ asked (heard noteThenDrop) := by
  have hrun : process.run ((connectedThen startup).map .act) = some _ := rfl
  have hkept : ∀ b ∈ noteThenDrop, b.closes = false := by
    simp only [noteThenDrop, List.forall_mem_cons]
    exact ⟨rfl, rfl, rfl, rfl, rfl, rfl, rfl, rfl, rfl, rfl, by simp⟩
  exact ⟨_, _, hrun, rfl, answered_run hrun rfl hkept rfl⟩

end Codefest
