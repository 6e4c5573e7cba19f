import Codefest.Proofs.Connection
import Codefest.Sio.Sending

/-!
# What the queue's mutex is good for

`m_packet_mutex` makes the queue itself safe, and that is enough for no packet
to be lost or sent twice: every access moves a packet from one place to the
next, so the places together always hold what `send_packet` was called with.
The order needs more. A packet that was taken off the queue is in nobody's
sight until it is handed on, and the flag may change between the test and what
follows it; only when the calls keep out of each other's way is a call the one
step that `Socket` makes of it.
-/

namespace Codefest.Sio

open Transition System Threads

variable {T : Type*} [DecidableEq T] {L : Type}

abbrev sendingSystem (T : Type*) [DecidableEq T] :
    System (Machine T Traffic SendPc) (T × SendAct) :=
  system T sending {} .idle

def Call.packet? : Call → Option Packet
  | sendPacket p => some p
  | _ => none

/-- The packets that `send_packet` was called with. -/
def Traffic.accepted (k : Traffic) : List Packet :=
  k.calls.filterMap Call.packet?

/-- The packets that a thread has in hand. -/
def SendPc.hand : SendPc → List Packet
  | test p | push p | last p => [p]
  | drain p => p.toList
  | send front p => front :: p.toList
  | _ => []

theorem hand_start (c : Call) : c.start.hand = c.packet?.toList := by
  cases c <;> rfl

theorem hand_last (p : Option Packet) :
    SendPc.hand ((p.map .last).getD .idle) = p.toList := by
  cases p <;> rfl

/-- Out of the threads' hands, a packet is queued, sent or dropped. -/
def Traffic.kept (k : Traffic) : List Packet :=
  k.packetQueue ++ (k.sent ++ k.dropped)

theorem called_balance (k : Traffic) (c : Call) :
    let k' := { k with calls := k.calls ++ [c] }
    (k'.kept : Multiset Packet) + c.start.hand + k.accepted =
      k.kept + SendPc.idle.hand + k'.accepted := by
  have haccepted : (k.calls ++ [c]).filterMap Call.packet? =
      k.accepted ++ c.packet?.toList := by
    rw [List.filterMap_append, Traffic.accepted]
    cases c <;> rfl
  simp only [Traffic.accepted, haccepted, Traffic.kept, hand_start,
    ← Multiset.coe_add]
  simp only [SendPc.hand, Multiset.coe_nil]
  abel

theorem accessed_balance {k k' : Traffic} {l l' : SendPc}
    (h : Accessed k l k' l') :
    k'.accepted = k.accepted ∧
      (k'.kept : Multiset Packet) + l'.hand = k.kept + l.hand := by
  have hcons : ∀ (p : Packet) (ps : List Packet),
      ((p :: ps : List Packet) : Multiset Packet) = {p} + ps :=
    fun p ps => (Multiset.singleton_add p ps).symm
  cases h with
  | drained hempty =>
      rw [hand_last]
      exact ⟨rfl, rfl⟩
  | _ =>
      refine ⟨rfl, ?_⟩
      simp only [Traffic.kept, SendPc.hand, *, Option.toList_some,
        Option.toList_none, ← Multiset.coe_add, Multiset.coe_nil, add_zero,
        zero_add]
      try abel

/-- However the calls overlap, each packet that was accepted is in exactly one
place: with the client, in the queue, in a thread's hands, or thrown away by
`on_disconnect`. -/
theorem conserved_run [Fintype T] {as : List (T × SendAct)}
    {s : Machine T Traffic SendPc} (h : (sendingSystem T).run as = some s) :
    (s.memory.kept : Multiset Packet) +
      ∑ t, ((s.thread t).hand : Multiset Packet) = s.memory.accepted := by
  refine balance (fun l => (l.hand : Multiset Packet))
    (f := fun k => (k.kept : Multiset Packet))
    (g := fun k => (k.accepted : Multiset Packet)) ?_ ?_ h
  · intro m l a m' l' hcode
    rcases sending_cases hcode with ⟨c, rfl, rfl, rfl⟩ | haccess
    · exact called_balance m c
    · obtain ⟨haccepted, hplaces⟩ := accessed_balance haccess
      rw [haccepted, hplaces]
  · show (0 : Multiset Packet) + ∑ _ : T, 0 = 0
    rw [Finset.sum_const_zero, zero_add]

/-- The sender finds the flag down, the other thread connects and finds the
queue empty, and the packet is queued after that. -/
def overtaken : List (Bool × SendAct) :=
  [(true, .call (.sendPacket .connect)), (true, .access),
    (false, .call .onConnected), (false, .access), (false, .access),
    (false, .access), (true, .access)]

theorem conserved_overtaken :
    ∃ s, (sendingSystem Bool).run overtaken = some s ∧
      (s.memory.kept : Multiset Packet) +
        ∑ t, ((s.thread t).hand : Multiset Packet) = s.memory.accepted := by
  have hrun : (sendingSystem Bool).run overtaken = some _ := rfl
  exact ⟨_, hrun, conserved_run hrun⟩

/-! ## A call is one step when it is left alone -/

/-- What the socket of the other modules does in one step. -/
def Call.run (k : Socket L) : Call → Socket L
  | sendPacket p => k.sendPacket p
  | onConnected => k.onConnected
  | onDisconnect => k.onDisconnect

/-- A socket with the flag, the queue and the output that the accesses see. -/
def Traffic.on (m : Traffic) (k : Socket L) : Socket L :=
  { k with
    connected := m.connected, packetQueue := m.packetQueue, sent := m.sent }

/-- How a call that is on its way will leave the socket if nobody else touches
it. -/
def finish (k : Socket L) : SendPc → Socket L
  | .idle => k
  | .test p => k.sendPacket p
  | .push p => { k with packetQueue := k.packetQueue ++ [p] }
  | .drain p =>
      { k with sent := k.sent ++ k.packetQueue ++ p.toList, packetQueue := [] }
  | .send front p =>
      { k with
        sent := k.sent ++ front :: k.packetQueue ++ p.toList
        packetQueue := [] }
  | .last p => { k with sent := k.sent ++ [p] }
  | .testConnected => k.onConnected
  | .setConnected =>
      { k with
        connected := true, sent := k.sent ++ k.packetQueue, packetQueue := [] }
  | .testDisconnected => k.onDisconnect
  | .setDisconnected => { k with connected := false, packetQueue := [] }
  | .clear => { k with packetQueue := [] }

theorem finish_start (k : Socket L) (c : Call) :
    finish k c.start = c.run k := by
  cases c <;> rfl

theorem finish_accessed (k : Socket L) {m m' : Traffic} {l l' : SendPc}
    (h : Accessed m l m' l') :
    finish (m'.on k) l' = finish (m.on k) l := by
  cases h with
  | on hon => simp [finish, Traffic.on, Socket.sendPacket, hon]
  | off hoff => simp [finish, Traffic.on, Socket.sendPacket, hoff]
  | drained hempty =>
      rename_i p
      cases p <;> simp [finish, Traffic.on, hempty]
  | popped hqueue => simp [finish, Traffic.on, hqueue]
  | sentFront => simp [finish, Traffic.on]
  | wasConnected hon => simp [finish, Traffic.on, Socket.onConnected, hon]
  | wasNotConnected hoff => simp [finish, Traffic.on, Socket.onConnected, hoff]
  | connected => simp [finish, Traffic.on]
  | wasNotDisconnected hon =>
      simp [finish, Traffic.on, Socket.onDisconnect, hon]
  | wasDisconnected hoff =>
      simp [finish, Traffic.on, Socket.onDisconnect, hoff]
  | pushed | sentLast | disconnected | cleared => rfl

/-- The call on its way comes to its end, and leaves the socket as it should. -/
def Returns (k : Socket L) (m : Traffic) (l : SendPc) : Prop :=
  ∃ n m', (alone sending {} .idle).runFrom (m, l) (List.replicate n .access) =
    some (m', .idle) ∧ m'.on k = finish (m.on k) l

namespace Returns

variable {k : Socket L} {m m' : Traffic} {l l' : SendPc}

theorem idle : Returns k m .idle := ⟨0, m, rfl, rfl⟩

theorem step (ha : access m l = some (m', l')) (h : Returns k m' l') :
    Returns k m l := by
  obtain ⟨n, last, hrun, hlast⟩ := h
  refine ⟨n + 1, last, ?_, ?_⟩
  · have hstep : (alone sending {} .idle).step (m, l) .access =
        some (m', l') := ha
    exact (runFrom_cons hstep _).trans hrun
  · rw [hlast, finish_accessed k (accessed ha)]

theorem drain (p : Option Packet) : Returns k m (.drain p) := by
  generalize hqueue : m.packetQueue = queue
  induction queue generalizing m with
  | nil =>
      have ha : access m (.drain p) = some (m, (p.map .last).getD .idle) := by
        rw [access, hqueue]
      refine step ha ?_
      cases p with
      | none => exact idle
      | some p => exact step rfl idle
  | cons front rest ih =>
      have ha : access m (.drain p) =
          some ({ m with packetQueue := rest }, .send front p) := by
        rw [access, hqueue]
      exact step ha (step rfl (ih rfl))

theorem start (c : Call) : Returns k m c.start := by
  cases c with
  | sendPacket p =>
      refine step rfl ?_
      split
      · exact drain _
      · exact step rfl idle
  | onConnected =>
      refine step rfl ?_
      split
      · exact idle
      · exact step rfl (drain _)
  | onDisconnect =>
      refine step rfl ?_
      split
      · exact step rfl (step rfl idle)
      · exact idle

end Returns

/-- A call that nobody interrupts returns, the other threads stay where they
are, and the socket is as the call's one step leaves it. -/
theorem alone_call (k : Socket L) (s : Machine T Traffic SendPc) (t : T)
    (c : Call) (hidle : s.thread t = .idle) :
    ∃ n m, (sendingSystem T).runFrom s
        ((.call c :: List.replicate n .access).map (t, ·)) =
          some ⟨m, s.thread⟩ ∧ m.on k = c.run (s.memory.on k) := by
  let called := { s.memory with calls := s.memory.calls ++ [c] }
  obtain ⟨n, m, hrun, hm⟩ := Returns.start (k := k) (m := called) c
  refine ⟨n, m, ?_, ?_⟩
  · have hcall : (alone sending {} .idle).step (s.memory, .idle) (.call c) =
        some (called, c.start) := rfl
    have halone : (alone sending {} .idle).runFrom (s.memory, s.thread t)
        (.call c :: List.replicate n .access) = some (m, .idle) := by
      rw [hidle, runFrom_cons hcall]
      exact hrun
    rw [runFrom_alone s t halone, ← hidle, Function.update_eq_self]
  · rw [hm, finish_start]
    rfl

theorem alone_onConnected : ∃ n m,
    (sendingSystem Bool).runFrom ⟨{ packetQueue := [.connect] }, fun _ => .idle⟩
        ((.call .onConnected :: List.replicate n .access).map (true, ·)) =
          some ⟨m, fun _ => .idle⟩ ∧
      m.on ({} : Socket Unit) =
        Call.onConnected.run ({ packetQueue := [.connect] } : Socket Unit) :=
  alone_call {} ⟨{ packetQueue := [.connect] }, fun _ => .idle⟩ true
    .onConnected rfl

/-! ## Calls that do not overlap -/

/-- What the calls do when each is one step. -/
def runCalls (k : Socket L) (calls : List Call) : Socket L :=
  calls.foldl Call.run k

theorem runCalls_snoc (k : Socket L) (calls : List Call) (c : Call) :
    runCalls k (calls ++ [c]) = c.run (runCalls k calls) := by
  rw [runCalls, List.foldl_append]
  rfl

/-- A disconnected socket is cleared when there is nothing to clear. -/
def Quiet (m : Traffic) : SendPc → Prop
  | .push _ => m.connected = false
  | .last _ | .setDisconnected | .clear => m.packetQueue = []
  | .drain _ | .send _ _ | .setConnected => True
  | _ => m.connected = true → m.packetQueue = []

theorem quiet_accessed {m m' : Traffic} {l l' : SendPc}
    (h : Accessed m l m' l') (hquiet : Quiet m l) : Quiet m' l' := by
  cases h with
  | off hoff => exact hoff
  | pushed =>
      intro hon
      rw [hquiet] at hon
      cases hon
  | drained hempty =>
      rename_i p
      cases p with
      | none => exact fun _ => hempty
      | some p => exact hempty
  | sentLast => exact fun _ => hquiet
  | wasConnected hon => exact hquiet
  | wasNotDisconnected hon => exact hquiet hon
  | wasDisconnected hoff => exact hquiet
  | disconnected => exact hquiet
  | cleared => exact fun _ => rfl
  | _ => trivial

/-- What the calls so far, each as one step, come to, once the one on its way
is over. -/
def InStep (k : Socket L) (m : Traffic) (l : SendPc) : Prop :=
  m.dropped = [] ∧ Quiet m l ∧ finish (m.on k) l = runCalls k m.calls

theorem accessed_calls {m m' : Traffic} {l l' : SendPc}
    (h : Accessed m l m' l') : m'.calls = m.calls := by
  cases h <;> rfl

theorem accessed_dropped {m m' : Traffic} {l l' : SendPc}
    (h : Accessed m l m' l') (hquiet : Quiet m l) :
    m'.dropped = m.dropped := by
  cases h with
  | cleared =>
      have hqueue : m.packetQueue = [] := hquiet
      rw [hqueue, List.append_nil]
  | _ => rfl

theorem inStep_step {k : Socket L} {m m' : Traffic} {l l' : SendPc}
    {a : SendAct} (hI : InStep k m l) (h : sending m l a = some (m', l')) :
    InStep k m' l' := by
  obtain ⟨hdropped, hquiet, hfinish⟩ := hI
  rcases sending_cases h with ⟨c, rfl, rfl, rfl⟩ | haccess
  · refine ⟨hdropped, ?_, ?_⟩
    · cases c <;> exact hquiet
    · rw [runCalls_snoc, ← hfinish, finish_start]
      rfl
  · refine ⟨?_, quiet_accessed haccess hquiet, ?_⟩
    · rw [accessed_dropped haccess hquiet, hdropped]
    · rw [finish_accessed k haccess, hfinish, accessed_calls haccess]

/-! In one step each, the calls keep the order. -/

theorem run_total {k : Socket L} (hk : k.Flushed) (c : Call) :
    (c.run k).Flushed ∧ (c.run k).sent ++ (c.run k).packetQueue =
      k.sent ++ k.packetQueue ++ c.packet?.toList := by
  cases c with
  | sendPacket p =>
      refine ⟨Socket.flushed_sendPacket k p, ?_⟩
      cases hconn : k.connected <;>
        simp [Call.run, Socket.sendPacket, hconn, Call.packet?]
  | onConnected =>
      refine ⟨hk.onConnected, ?_⟩
      cases hconn : k.connected <;>
        simp [Call.run, Socket.onConnected, hconn, Call.packet?]
  | onDisconnect =>
      cases hconn : k.connected with
      | false =>
          simpa [Call.run, Socket.onDisconnect, hconn, Call.packet?] using hk
      | true =>
          simp [Call.run, Socket.onDisconnect, hconn, Call.packet?, hk hconn,
            Socket.Flushed]

theorem runCalls_total (calls : List Call) :
    let k : Socket L := runCalls {} calls
    k.Flushed ∧ k.sent ++ k.packetQueue = calls.filterMap Call.packet? := by
  induction calls using List.reverseRecOn with
  | nil => exact ⟨fun _ => rfl, rfl⟩
  | append_singleton calls c ih =>
      obtain ⟨hflushed, htotal⟩ := ih
      have hc := run_total hflushed c
      rw [← runCalls_snoc] at hc
      refine ⟨hc.1, hc.2.trans ?_⟩
      rw [htotal, List.filterMap_append]
      cases c <;> rfl

/-- When no two calls overlap, the socket is, whenever no thread is in one, as
the calls leave it one after the other, each in one step: what was accepted has
left in that order or is still queued, and nothing was thrown away. -/
theorem oneByOne_run {as : List (T × SendAct)}
    {s : Machine T Traffic SendPc} (h : (sendingSystem T).run as = some s)
    (halone : (sendingSystem T).Always (Exclusive (· = .idle)) as)
    (hidle : ∀ t, s.thread t = .idle) [Nonempty T] :
    s.memory.on ({} : Socket L) = runCalls {} s.memory.calls ∧
      s.memory.sent ++ s.memory.packetQueue = s.memory.accepted ∧
      s.memory.dropped = [] := by
  have hstay : ∀ {m l l'}, l = SendPc.idle → l' = SendPc.idle →
      InStep ({} : Socket L) m l → InStep ({} : Socket L) m l' := by
    rintro m l l' rfl rfl hI
    exact hI
  have hleave : ∀ {m l a m' l'}, l = SendPc.idle →
      sending m l a = some (m', l') → ¬ l' = SendPc.idle := by
    rintro m l a m' l' rfl hcode rfl
    rcases sending_cases hcode with ⟨c, -, -, hl⟩ | haccess
    · cases c <;> cases hl
    · cases haccess
  have hinit : InStep ({} : Socket L) {} .idle := ⟨rfl, fun _ => rfl, rfl⟩
  obtain ⟨t, -, hdropped, -, hfinish⟩ :=
    exclusive (· = .idle) inStep_step hstay hleave rfl hinit h halone
  rw [hidle t] at hfinish
  have htotal := (runCalls_total (L := L) s.memory.calls).2
  rw [← hfinish] at htotal
  exact ⟨hfinish, htotal, hdropped⟩

/-- One thread queues a packet, and then the other closes a connection that
there is not. -/
theorem oneByOne_queued : ∃ s,
    (sendingSystem Bool).run
      [(true, .call (.sendPacket .connect)), (true, .access), (true, .access),
        (false, .call .onDisconnect), (false, .access)] = some s ∧
      s.memory.on ({} : Socket Unit) = runCalls {} s.memory.calls ∧
      s.memory.sent ++ s.memory.packetQueue = s.memory.accepted ∧
      s.memory.dropped = [] := by
  have hother : ∀ (t : Bool) (s : Machine Bool Traffic SendPc),
      s.thread (!t) = .idle → Exclusive (· = .idle) s := by
    intro t s hs
    refine ⟨t, fun u hu => ?_⟩
    rwa [Bool.eq_not.mpr hu]
  have h₀ : (sendingSystem Bool).Always (Exclusive (· = .idle)) [] :=
    always_nil.mpr (hother true _ rfl)
  have h₁ := (always_snoc (a := (true, .call (.sendPacket .connect)))
    rfl).mpr ⟨h₀, hother true _ rfl⟩
  have h₂ := (always_snoc (a := (true, .access)) rfl).mpr
    ⟨h₁, hother true _ rfl⟩
  have h₃ := (always_snoc (a := (true, .access)) rfl).mpr
    ⟨h₂, hother true _ rfl⟩
  have h₄ := (always_snoc (a := (false, .call .onDisconnect)) rfl).mpr
    ⟨h₃, hother false _ rfl⟩
  have h₅ := (always_snoc (a := (false, .access)) rfl).mpr
    ⟨h₄, hother false _ rfl⟩
  exact ⟨_, rfl, oneByOne_run rfl h₅ fun t => by cases t <;> rfl⟩

end Codefest.Sio
