import Codefest.Lib.Latch
import Codefest.Proofs.Steps

/-!
# The connection barrier

Main waits for the connection before it fetches the socket, and the barrier is
a latch: main is the waiter, every call of `on_connected` is the setter, and
the two listeners are what else the network thread takes the mutex for. So the
program, with everything but the barrier forgotten, runs as `Latch.latch` does,
and what is known of the latch holds here.

No connection is missed in main's sleep. But main tests `connect_finish` once,
before it sleeps, and goes on without the connection when the condition
variable wakes it for no reason.
-/

namespace Codefest

open Sio Sequence Transition System

def MainPc.waiter : MainPc → Latch.Waiter
  | lock => .lock
  | test => .test
  | wait => .wait
  | asleep notified => .asleep notified
  | unlock => .unlock
  | _ => .past

def NetPc.setter : NetPc → Latch.Setter
  | openNotify => .notify
  | openSet => .set
  | openUnlock => .unlock
  | joinBody | joinUnlock | tickMap | tickCount | tickEmit | tickReset
  | tickUnlock => .busy
  | _ => .idle

def Thread.owner : Thread → Latch.Owner
  | main => .waiter
  | net => .setter

def State.latch (s : State) : Latch.State where
  waiter := s.main.waiter
  setter := s.net.setter
  owner := s.lock.map Thread.owner
  flag := s.connectFinish

def Act.latch : Act → Option Latch.Label
  | .main .lock => some .acquire
  | .main .test => some .test
  | .main .wait => some .sleep
  | .main .wake => some .wake
  | .main .spuriousWake => some .spuriousWake
  | .main .unlock => some .release
  | .net .openLock => some .enter
  | .net .openNotify => some .notify
  | .net .openSet => some .set
  | .net .openUnlock => some .leave
  | .net .joinLock | .net .tickLock => some .visit
  | .net .joinUnlock | .net .tickUnlock => some .depart
  | _ => none

theorem waiter_notified (pc : MainPc) :
    pc.notified.waiter = pc.waiter.notified := by
  cases pc <;> rfl

theorem callback_latch {s : State} (r : Client Listener × Callback)
    (h : s.net = .idle) : (s.callback r).latch = s.latch := by
  rw [State.callback]
  split <;> simp [State.latch, h, NetPc.setter]

theorem deliver_latch {s : State} (msg : Ptr) (packId : Int)
    (h : s.net = .idle) : (s.deliver msg packId).latch = s.latch := by
  have hnet : (s.deliver msg packId).net.setter = s.net.setter := by
    rw [h, State.deliver]
    split
    · rw [h]
    · rw [h]
    · dsimp only
      split <;> rfl
  simp [State.latch, hnet]

theorem latch_hidden {s : State} {a : Act} (h : a.enabled s = true)
    (ha : a.latch = none) : (a.effect s).latch = s.latch := by
  cases a with
  | main a =>
      cases a with
      | lock | test | wait | wake | spuriousWake | unlock => cases ha
      | finish => rfl
      | drive =>
          obtain ⟨direction, hat⟩ := enabled_drive h
          rw [Act.effect, effect_drive hat]
          simp [State.latch, State.emit, hat, MainPc.waiter]
      | getch c =>
          have hat : s.main = .getch := by
            simpa [Act.enabled, MainAct.enabled] using h
          rw [Act.effect, MainAct.effect]
          split <;> simp [State.latch, hat, MainPc.waiter]
      | socket | joinRoom1 | joinRoom2 | bindJoinGame | bindTicktackPlayer
      | syncClose =>
          have hat := by simpa [Act.enabled, MainAct.enabled] using h
          simp [Act.effect, MainAct.effect, State.latch, State.emit, hat,
            MainPc.waiter]
  | net a =>
      cases a with
      | openLock | openNotify | openSet | openUnlock | joinLock | tickLock
      | joinUnlock | tickUnlock => cases ha
      | «open» | fail =>
          have hat := by simpa [Act.enabled, NetAct.enabled] using h
          exact callback_latch _ hat.1
      | close normal =>
          have hat := by simpa [Act.enabled, NetAct.enabled] using h
          exact callback_latch (s := { s with log := s.log ++ [.closed] }) _
            hat.1
      | eventPacket msg packId =>
          have hat := by simpa [Act.enabled, NetAct.enabled] using h
          exact deliver_latch msg packId hat.1
      | joinBody | tickMap =>
          have hat := by simpa [Act.enabled, NetAct.enabled] using h
          rw [Act.effect, NetAct.effect]
          split <;> simp [State.latch, hat, NetPc.setter]
      | tickCount =>
          have hat := by simpa [Act.enabled, NetAct.enabled] using h
          rw [Act.effect, NetAct.effect]
          by_cases hfire : (tickTest s.count).1 = true <;>
            simp [State.latch, hat, NetPc.setter, hfire]
      | reconnect | connectPacket | tickEmit | tickReset | ack =>
          have hat := by simpa [Act.enabled, NetAct.enabled] using h
          simp [Act.effect, NetAct.effect, State.latch, State.emit, hat,
            NetPc.setter]

theorem latch_shown {s : State} {a : Act} {b : Latch.Label}
    (h : a.enabled s = true) (ha : a.latch = some b) :
    Latch.step s.latch b = some (a.effect s).latch := by
  cases a with
  | main a =>
      cases a with
      | test =>
          obtain rfl := Option.some.inj ha
          have hat : s.main = .test := by
            simpa [Act.enabled, MainAct.enabled] using h
          cases hflag : s.connectFinish <;>
            simp [Latch.step, State.latch, Act.effect, MainAct.effect, hat,
              hflag, MainPc.waiter]
      | lock | wait | wake | spuriousWake | unlock =>
          obtain rfl := Option.some.inj ha
          have hat := by simpa [Act.enabled, MainAct.enabled] using h
          simp [Latch.step, State.latch, Act.effect, MainAct.effect, hat,
            MainPc.waiter, Thread.owner]
      | _ => cases ha
  | net a =>
      cases a with
      | openLock | openNotify | openSet | openUnlock | joinLock | tickLock
      | joinUnlock | tickUnlock =>
          obtain rfl := Option.some.inj ha
          have hat := by simpa [Act.enabled, NetAct.enabled] using h
          simp [Latch.step, State.latch, Act.effect, NetAct.effect, hat,
            NetPc.setter, Thread.owner, waiter_notified]
      | _ => cases ha

def toLatch : Projection program Latch.latch where
  state := State.latch
  label := Act.latch
  init := rfl
  hidden := by
    intro s a t h ha
    obtain ⟨⟨-, hen⟩, rfl⟩ := step_eq_some.mp h
    exact latch_hidden hen ha
  shown := by
    intro s a t b h ha
    obtain ⟨⟨-, hen⟩, rfl⟩ := step_eq_some.mp h
    exact latch_shown hen ha

/-! ## Through the barrier -/

/-- Main gets past the barrier only with the connection there, and does not
sleep on when it is and no wake-up is coming. -/
structure BarrierSafe (s : State) : Prop where
  past : 3 < s.main.rank → s.connectFinish = true
  awake : ¬ (s.connectFinish = true ∧ s.main = .asleep false)

theorem barrierSafe_iff (s : State) :
    BarrierSafe s ↔ Latch.PastUp s.latch ∧ ¬ Latch.Lost s.latch := by
  have hpast : s.main.waiter = .past ↔ 3 < s.main.rank := by
    cases s.main <;> simp [MainPc.waiter, MainPc.rank]
  have hasleep : s.main.waiter = .asleep false ↔ s.main = .asleep false := by
    cases s.main <;> simp [MainPc.waiter]
  show _ ↔ (s.main.waiter = .past → s.connectFinish = true) ∧
    ¬ (s.connectFinish = true ∧ s.main.waiter = .asleep false)
  rw [hpast, hasleep]
  exact ⟨fun h => ⟨h.past, h.awake⟩, fun h => ⟨h.1, h.2⟩⟩

theorem latch_eq_release {a : Act} :
    a.latch = some .release ↔ a = .main .unlock := by
  cases a with
  | main a => cases a <;> simp [Act.latch]
  | net a => cases a <;> simp [Act.latch]

theorem latch_eq_spuriousWake {a : Act} :
    a.latch = some .spuriousWake ↔ a = .main .spuriousWake := by
  cases a with
  | main a => cases a <;> simp [Act.latch]
  | net a => cases a <;> simp [Act.latch]

/-- In every run the barrier is safe in every state reached, exactly when main
was not woken without a notification before it leaves the barrier. -/
theorem barrierSafe_run_iff {as : List Act} {s : State}
    (h : program.run as = some s) : program.Always BarrierSafe as ↔
      Throughout (fun before a =>
        a = .main .unlock → .main .spuriousWake ∉ before) as := by
  have hlost : program.Always (fun s => ¬ Latch.Lost s.latch) as :=
    (toLatch.always h).mpr Latch.never_lost
  have hspurious : ∀ before : List Act,
      .spuriousWake ∈ before.filterMap Act.latch ↔
        .main .spuriousWake ∈ before := by
    intro before
    simp [List.mem_filterMap, latch_eq_spuriousWake]
  calc program.Always BarrierSafe as
      ↔ program.Always (fun s =>
          Latch.PastUp s.latch ∧ ¬ Latch.Lost s.latch) as := by
        rw [funext fun s => propext (barrierSafe_iff s)]
    _ ↔ program.Always (fun s => Latch.PastUp s.latch) as := by
        rw [always_and, and_iff_left hlost]
    _ ↔ Latch.latch.Always Latch.PastUp (as.filterMap Act.latch) :=
        toLatch.always h
    _ ↔ Throughout (fun before b =>
          b = Latch.Label.release → Latch.Label.spuriousWake ∉ before)
          (as.filterMap Act.latch) :=
        Latch.always_past_iff (toLatch.run h)
    _ ↔ Throughout (fun before a =>
          a = .main .unlock → .main .spuriousWake ∉ before) as := by
        rw [throughout_filterMap]
        refine throughout_congr (fun before a => ?_) as
        rw [hspurious, ← latch_eq_release]
        refine ⟨fun hall ha => hall _ ha rfl, fun hall => ?_⟩
        intro b hb heq
        subst heq
        exact hall hb

/-- Nobody connects, and the condition variable wakes main all the same. -/
def spuriousStart : List Act :=
  [.main .lock, .main .test, .main .wait, .main .spuriousWake, .main .unlock]

/-- Main is past the barrier without a connection. -/
theorem barrierSafe_fails : ¬ program.Always BarrierSafe spuriousStart := by
  intro h
  have hsafe := h spuriousStart [] _ (List.append_nil _).symm rfl
  have hconnected := hsafe.past (by decide)
  cases hconnected

/-- The connection opens first. -/
theorem barrierSafe_connectedThen : ∃ s,
    program.run (connectedThen []) = some s ∧
      (program.Always BarrierSafe (connectedThen []) ↔
        Throughout (fun before a =>
          a = .main .unlock → .main .spuriousWake ∉ before)
            (connectedThen [])) ∧
      program.Always BarrierSafe (connectedThen []) := by
  have hrun : program.run (connectedThen []) = some _ := rfl
  have hiff := barrierSafe_run_iff hrun
  refine ⟨_, hrun, hiff, hiff.mpr fun before a after heq _ hwake => ?_⟩
  have hmem : .main .spuriousWake ∈ connectedThen [] := by
    rw [heq]
    exact List.mem_append_left _ hwake
  simp [connectedThen] at hmem

end Codefest
