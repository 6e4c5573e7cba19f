import Codefest.Proofs.Outgoing

/-!
# One event at a time

The network thread takes an event when it is idle and does not look at the next
one before it has come through the acknowledgement of this one. `current` is
the event that it is at. It changes in two places only, at the packet that
brings an event and at the acknowledgement, and everything that is said of the
events of a run follows from that: which are answered, which are read into the
game, and which one is the last.

Meanwhile the connection cannot change, because the callbacks of the transport
wait for the same thread. So the socket is there and the transport is up as
long as there is a current event.
-/

namespace Codefest

open Sio Transition System

def NetPc.handles : NetPc → Bool
  | joinLock | joinBody | joinUnlock => true
  | tickLock | tickMap | tickCount | tickEmit | tickReset | tickUnlock => true
  | ack => true
  | _ => false

def State.current (s : State) : Option Event :=
  if s.net.handles then some s.event else none

/-- The event that a step brings. -/
def Act.event? : Act → Option Event
  | .net (.eventPacket msg packId) =>
      match unpackEvent msg packId with
      | .ok ev => ev
      | .error _ => none
  | _ => none

theorem current_eq_of {s t : State} (hnet : t.net.handles = s.net.handles)
    (hevent : t.event = s.event) : t.current = s.current := by
  rw [State.current, State.current, hnet, hevent]

theorem current_of_not {s : State} (h : s.net.handles = false) :
    s.current = none := by
  rw [State.current, h]
  rfl

theorem callback_current {s : State} (r : Client Listener × Callback)
    (hnet : s.net = .idle) : (s.callback r).current = s.current := by
  unfold State.callback
  split
  · rfl
  · exact (current_of_not rfl).trans (current_of_not (by rw [hnet]; rfl)).symm
  · rfl
  · rfl

theorem deliver_current {s : State} (msg : Ptr) (packId : Int)
    (hnet : s.net = .idle) :
    (s.deliver msg packId).current =
      Act.event? (.net (.eventPacket msg packId)) := by
  have hidle : s.net.handles = false := by
    rw [hnet]
    rfl
  rcases hev : unpackEvent msg packId with e | _ | ev
  · simp only [State.deliver, Act.event?, hev]
    exact current_of_not hidle
  · simp only [State.deliver, Act.event?, hev]
    exact current_of_not hidle
  · simp only [State.deliver, Act.event?, hev, State.current]
    split <;> rfl

/-- What one step does to the current event. -/
theorem current_effect {s : State} {a : Act} (h : a.enabled s = true) :
    (∃ msg packId, a = .net (.eventPacket msg packId) ∧ s.current = none ∧
      (a.effect s).current = a.event?) ∨
    (a = .net .ack ∧ s.current = some s.event ∧
      (a.effect s).current = none) ∨
    (a.event? = none ∧ a ≠ .net .ack ∧
      (a.effect s).current = s.current) := by
  cases a with
  | main a =>
      refine .inr (.inr ⟨rfl, by simp, ?_⟩)
      refine current_eq_of (congrArg NetPc.handles (main_net s a)) ?_
      cases a with
      | drive =>
          rw [Act.effect, MainAct.effect]
          split <;> rfl
      | _ => rfl
  | net a =>
      cases a with
      | eventPacket msg packId =>
          have hat := by simpa [Act.enabled, NetAct.enabled] using h
          refine .inl ⟨msg, packId, rfl, ?_, deliver_current msg packId hat.1⟩
          exact current_of_not (by rw [hat.1]; rfl)
      | ack =>
          have hat : s.net = .ack := by
            simpa [Act.enabled, NetAct.enabled] using h
          refine .inr (.inl ⟨rfl, ?_, current_of_not rfl⟩)
          rw [State.current, hat]
          rfl
      | «open» | fail | close normal =>
          have hat := by simpa [Act.enabled, NetAct.enabled] using h
          exact .inr (.inr ⟨rfl, by simp, callback_current _ hat.1⟩)
      | reconnect | connectPacket =>
          exact .inr (.inr ⟨rfl, by simp, rfl⟩)
      | joinBody | tickMap =>
          have hat := by simpa [Act.enabled, NetAct.enabled] using h
          refine .inr (.inr ⟨rfl, by simp, ?_⟩)
          rw [Act.effect, NetAct.effect]
          split
          · exact current_eq_of (by rw [hat]; rfl) rfl
          · exact current_eq_of rfl rfl
      | tickCount =>
          have hat := by simpa [Act.enabled, NetAct.enabled] using h
          refine .inr (.inr ⟨rfl, by simp, current_eq_of ?_ rfl⟩)
          rw [hat, Act.effect, NetAct.effect]
          dsimp only
          split <;> rfl
      | openLock | openNotify | openSet | openUnlock | joinLock | joinUnlock
      | tickLock | tickEmit | tickReset | tickUnlock =>
          have hat := by simpa [Act.enabled, NetAct.enabled] using h
          refine .inr (.inr ⟨rfl, by simp, current_eq_of ?_ rfl⟩)
          simp [hat, Act.effect, NetAct.effect, State.emit, NetPc.handles]

theorem not_idle_of_current {s : State} {ev : Event}
    (h : s.current = some ev) : s.net ≠ .idle := by
  intro hidle
  rw [current_of_not (by rw [hidle]; rfl)] at h
  cases h

theorem transport_effect {s : State} {a : Act} (h : a.enabled s = true)
    (hnet : s.net ≠ .idle) :
    (a.effect s).client.transport = s.client.transport := by
  by_cases hconn : a.Connects
  · rcases hconn with rfl | rfl | ⟨normal, rfl⟩ | rfl | rfl
    · have hat := by simpa [Act.enabled, NetAct.enabled] using h
      exact absurd hat.1 hnet
    · have hat := by simpa [Act.enabled, NetAct.enabled] using h
      exact absurd hat.1 hnet
    · have hat := by simpa [Act.enabled, NetAct.enabled] using h
      exact absurd hat.1 hnet
    · have hat := by simpa [Act.enabled, NetAct.enabled] using h
      exact absurd hat.1 hnet
    · rfl
  · obtain ⟨socket, hclient⟩ := client_effect (s := s) hconn
    rw [hclient]

/-- The socket of a current event is there, and the connection up. -/
def State.Handling (s : State) : Prop :=
  ∀ ev, s.current = some ev →
    s.client.socket.isSome ∧ s.client.transport = .up

theorem handling_effect {s : State} {a : Act} (hs : s.Handling)
    (hen : a.enabled s = true) : (a.effect s).Handling := by
  intro ev hev
  rcases current_effect hen with ⟨msg, packId, rfl, -, -⟩ | ⟨-, -, hnone⟩ |
    ⟨-, -, hsame⟩
  · have hat := by simpa [Act.enabled, NetAct.enabled] using hen
    rw [Act.effect, NetAct.effect, State.deliver_client]
    exact ⟨hat.2.2, hat.2.1⟩
  · rw [hnone] at hev
    cases hev
  · rw [hsame] at hev
    obtain ⟨hsock, hup⟩ := hs ev hev
    refine ⟨isSome_effect hsock a, ?_⟩
    rw [transport_effect hen (not_idle_of_current hev), hup]

/-- As long as there is a current event, the socket that it came through is
there and the connection that it came over is up. -/
theorem handling_run {as : List Act} {s : State}
    (h : program.run as = some s) : s.Handling := by
  refine run_induction (R := fun _ s => s.Handling) ?_ ?_ h
  · intro ev hev
    cases hev
  · intro as s a t _ ih ha
    obtain ⟨⟨-, hen⟩, rfl⟩ := step_eq_some.mp ha
    exact handling_effect ih hen

end Codefest
