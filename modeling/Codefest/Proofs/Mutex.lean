import Codefest.Proofs.Barrier

/-!
# The mutex

The mutex is taken in four places: main's barrier, `on_connected` and the two
listeners. Seen through `toLatch` it belongs to whoever is inside one of them,
so the two threads are never inside at once, and the game, the counter and the
flag, which are written nowhere else, are written by the network thread alone.

It is also never in the way for good. The steps that no key and no packet has
to come for are the internal ones. Each leaves the two threads less to do, and
where none is left main waits for a key, for the end of the network thread or,
with the flag down, for the connection, and the network thread waits for the
transport.
-/

namespace Codefest

open Sio Sequence Transition System

/-- Main is between taking the mutex and giving it up. -/
def MainPc.holds : MainPc → Bool
  | test | wait | unlock => true
  | _ => false

/-- The network thread is. -/
def NetPc.holds : NetPc → Bool
  | openNotify | openSet | openUnlock | joinBody | joinUnlock | tickMap
  | tickCount | tickEmit | tickReset | tickUnlock => true
  | _ => false

/-- The mutex belongs to the thread that is inside. -/
structure Locked (s : State) : Prop where
  main : s.lock = some .main ↔ s.main.holds = true
  net : s.lock = some .net ↔ s.net.holds = true

theorem Locked.exclusive {s : State} (h : Locked s) :
    ¬ (s.main.holds = true ∧ s.net.holds = true) := by
  intro hboth
  have hmain := h.main.mpr hboth.1
  have hnet := h.net.mpr hboth.2
  rw [hmain] at hnet
  cases hnet

theorem locked_iff (s : State) : Locked s ↔
    (s.latch.owner = some .waiter ↔ s.latch.waiter.inside = true) ∧
      (s.latch.owner = some .setter ↔ s.latch.setter ≠ .idle) := by
  have hmain : s.latch.waiter.inside = s.main.holds := by
    rw [State.latch]
    cases s.main <;> rfl
  have hnet : s.latch.setter ≠ .idle ↔ s.net.holds = true := by
    rw [State.latch]
    cases s.net <;> simp [NetPc.setter, NetPc.holds]
  have howner : ∀ thread : Thread,
      s.latch.owner = some thread.owner ↔ s.lock = some thread := by
    intro thread
    rw [State.latch]
    rcases s.lock with _ | holder
    · simp
    · cases holder <;> cases thread <;> simp [Thread.owner]
  rw [hmain, hnet]
  refine ⟨fun h => ⟨(howner .main).trans h.main, (howner .net).trans h.net⟩,
    fun h => ⟨(howner .main).symm.trans h.1, (howner .net).symm.trans h.2⟩⟩

theorem locked {as : List Act} {s : State} (h : program.run as = some s) :
    Locked s := by
  have hinv := Latch.inv_run (toLatch.run h)
  exact (locked_iff s).mpr ⟨hinv.waiter_inside, hinv.setter_inside⟩

/-- What the two threads share and the mutex is for. -/
def State.shared (s : State) : Game × Int × Bool :=
  (s.game, s.count, s.connectFinish)

theorem main_shared (s : State) (a : MainAct) :
    (a.effect s).shared = s.shared := by
  cases a with
  | drive =>
      rw [MainAct.effect]
      split <;> rfl
  | _ => rfl

theorem net_shared {s : State} {a : NetAct} (h : a.enabled s = true)
    (hnet : s.net.holds = false) : (a.effect s).shared = s.shared := by
  cases a with
  | «open» | fail | close =>
      rw [NetAct.effect, State.callback]
      split <;> rfl
  | eventPacket msg packId =>
      rw [NetAct.effect, State.deliver]
      split <;> rfl
  | openSet | tickMap | tickCount | tickReset | joinBody =>
      have hat := by simpa [NetAct.enabled] using h
      rw [hat] at hnet
      cases hnet
  | _ => rfl

/-- In every run the mutex belongs to the thread that is inside, never to both,
and a step that changes the game, the counter or the flag is taken with the
network thread holding it. -/
theorem mutex_run {as : List Act} {s : State} (h : program.run as = some s) :
    Locked s ∧ ¬ (s.main.holds = true ∧ s.net.holds = true) ∧
      ∀ a t, program.step s a = some t → t.shared ≠ s.shared →
        s.lock = some .net ∧ ∃ b, a = .net b := by
  have hlocked := locked h
  refine ⟨hlocked, hlocked.exclusive, ?_⟩
  intro a t hstep hne
  obtain ⟨⟨-, hen⟩, rfl⟩ := step_eq_some.mp hstep
  cases a with
  | main a => exact absurd (main_shared s a) hne
  | net a =>
      refine ⟨hlocked.net.mpr ?_, a, rfl⟩
      cases hholds : s.net.holds with
      | true => rfl
      | false => exact absurd (net_shared hen hholds) hne

/-- Main is inside. -/
theorem mutex_barrier : ∃ s, program.run [.main .lock] = some s ∧
    Locked s ∧ ¬ (s.main.holds = true ∧ s.net.holds = true) ∧
      ∀ a t, program.step s a = some t → t.shared ≠ s.shared →
        s.lock = some .net ∧ ∃ b, a = .net b := by
  have hrun : program.run [.main .lock] = some _ := rfl
  exact ⟨_, hrun, mutex_run hrun⟩

/-! ## No deadlock -/

/-- A step that waits for nothing outside the program. -/
def Act.internal : Act → Bool
  | .main (.getch _) | .main .spuriousWake | .main .finish => false
  | .net .open | .net .fail | .net (.close _) | .net .reconnect => false
  | .net .connectPacket | .net (.eventPacket _ _) => false
  | _ => true

/-- How far main is from its next wait. -/
def MainPc.work : MainPc → Nat
  | lock => 11
  | test => 10
  | wait => 9
  | asleep _ => 8
  | unlock => 7
  | socket => 6
  | joinRoom1 => 5
  | joinRoom2 => 4
  | bindJoinGame => 3
  | bindTicktackPlayer => 2
  | drive _ | syncClose => 1
  | getch | join => 0

/-- How far the network thread is from its next wait. -/
def NetPc.work : NetPc → Nat
  | tickLock => 7
  | tickMap => 6
  | tickCount => 5
  | tickEmit | openLock | joinLock => 4
  | tickReset | openNotify | joinBody => 3
  | tickUnlock | openSet | joinUnlock => 2
  | openUnlock | ack => 1
  | idle => 0

/-- Nothing is left to do once the program has ended. -/
def State.work (s : State) : Nat :=
  if s.status = .running then s.main.work + s.net.work + 1 else 0

theorem work_le (s : State) : s.work ≤ 19 := by
  have hmain : s.main.work ≤ 11 := by cases s.main <;> simp [MainPc.work]
  have hnet : s.net.work ≤ 7 := by cases s.net <;> simp [NetPc.work]
  rw [State.work]
  split <;> omega

theorem work_notified (pc : MainPc) : pc.notified.work = pc.work := by
  cases pc <;> rfl

theorem main_work {s : State} {a : MainAct} (h : a.enabled s = true)
    (ha : Act.internal (.main a) = true) :
    (a.effect s).status = s.status ∧
      (a.effect s).main.work < s.main.work := by
  cases a with
  | getch | spuriousWake | finish => cases ha
  | drive =>
      obtain ⟨direction, hat⟩ := enabled_drive h
      rw [effect_drive hat, hat]
      exact ⟨rfl, Nat.zero_lt_one⟩
  | test =>
      have hat : s.main = .test := by simpa [MainAct.enabled] using h
      refine ⟨rfl, ?_⟩
      rw [MainAct.effect, hat]
      dsimp only
      split <;> simp [MainPc.work]
  | _ =>
      have hat := by simpa [MainAct.enabled] using h
      exact ⟨rfl, by simp [MainAct.effect, hat, MainPc.work]⟩

theorem net_work {s : State} {a : NetAct} (h : a.enabled s = true)
    (ha : Act.internal (.net a) = true) :
    (a.effect s).status = .crashed ∨
      (a.effect s).status = s.status ∧
        (a.effect s).net.work < s.net.work := by
  cases a with
  | «open» | fail | close | reconnect | connectPacket | eventPacket => cases ha
  | joinBody | tickMap =>
      have hat := by simpa [NetAct.enabled] using h
      rw [NetAct.effect, hat]
      split
      · exact .inr ⟨rfl, by simp [NetPc.work]⟩
      · exact .inl rfl
  | tickCount =>
      have hat : s.net = .tickCount := by simpa [NetAct.enabled] using h
      refine .inr ⟨rfl, ?_⟩
      rw [NetAct.effect, hat]
      dsimp only
      split <;> simp [NetPc.work]
  | _ =>
      have hat := by simpa [NetAct.enabled] using h
      exact .inr ⟨rfl, by simp [NetAct.effect, hat, NetPc.work]⟩

theorem work_step {s t : State} {a : Act} (ha : a.internal = true)
    (h : program.step s a = some t) : t.work < s.work := by
  obtain ⟨⟨hrun, hen⟩, rfl⟩ := step_eq_some.mp h
  have hpos : s.work = s.main.work + s.net.work + 1 := if_pos hrun
  cases a with
  | main a =>
      obtain ⟨hstatus, hlt⟩ := main_work hen ha
      have hnet : (Act.effect s (.main a)).net = s.net := main_net s a
      have heff : (Act.effect s (.main a)).work =
          (a.effect s).main.work + s.net.work + 1 := by
        rw [State.work, hnet]
        exact if_pos (hstatus.trans hrun)
      omega
  | net a =>
      have hmain : (a.effect s).main.work = s.main.work := by
        by_cases hnotify : a = .openNotify
        · subst hnotify
          exact work_notified s.main
        · rw [net_main s hnotify]
      rcases net_work hen ha with hcrash | ⟨hstatus, hlt⟩
      · have heff : (Act.effect s (.net a)).work = 0 := by
          refine if_neg ?_
          rw [Act.effect, hcrash]
          simp
        omega
      · have heff : (Act.effect s (.net a)).work =
            s.main.work + (a.effect s).net.work + 1 := by
          rw [State.work, Act.effect, hmain]
          exact if_pos (hstatus.trans hrun)
        omega

/-- Both threads wait for something outside, and the mutex is free. -/
structure AtRest (s : State) : Prop where
  net : s.net = .idle
  lock : s.lock = none
  main : s.main = .getch ∨ s.main = .join ∨
    s.main = .asleep false ∧ s.connectFinish = false

/-- Where the network thread can do nothing more by itself, it is idle. -/
theorem net_atRest {as : List Act} {s : State} (h : program.run as = some s)
    (hmain : ∀ a : MainAct, Act.internal (.main a) = true →
      a.enabled s = false)
    (hnet : ∀ a : NetAct, Act.internal (.net a) = true →
      a.enabled s = false) : s.net = .idle := by
  have hlocked := locked h
  -- The mutex is free: whoever is inside could go on.
  have hfree : s.net.holds = false → s.lock = none := by
    intro hout
    cases hlock : s.lock with
    | none => rfl
    | some holder =>
        cases holder with
        | net =>
            have hin := hlocked.net.mp hlock
            rw [hout] at hin
            cases hin
        | main =>
            have hin := hlocked.main.mp hlock
            cases hat : s.main with
            | test =>
                have hno := hmain .test rfl
                simp [MainAct.enabled, hat] at hno
            | wait =>
                have hno := hmain .wait rfl
                simp [MainAct.enabled, hat] at hno
            | unlock =>
                have hno := hmain .unlock rfl
                simp [MainAct.enabled, hat] at hno
            | _ =>
                rw [hat] at hin
                cases hin
  have htick : s.net.ticking = true → s.client.socket.isSome := by
    intro ht
    have hrank := rank_of_ticking h ht
    exact isSome_of_rank h (by omega)
  cases hat : s.net with
  | idle => rfl
  | openLock =>
      have hno := hnet .openLock rfl
      simp [NetAct.enabled, hat, hfree (by rw [hat]; rfl)] at hno
  | joinLock =>
      have hno := hnet .joinLock rfl
      simp [NetAct.enabled, hat, hfree (by rw [hat]; rfl)] at hno
  | tickLock =>
      have hno := hnet .tickLock rfl
      simp [NetAct.enabled, hat, hfree (by rw [hat]; rfl)] at hno
  | tickEmit =>
      have hno := hnet .tickEmit rfl
      simp [NetAct.enabled, hat, htick (by rw [hat]; rfl)] at hno
  | openNotify => simpa [NetAct.enabled, hat] using hnet .openNotify rfl
  | openSet => simpa [NetAct.enabled, hat] using hnet .openSet rfl
  | openUnlock => simpa [NetAct.enabled, hat] using hnet .openUnlock rfl
  | joinBody => simpa [NetAct.enabled, hat] using hnet .joinBody rfl
  | joinUnlock => simpa [NetAct.enabled, hat] using hnet .joinUnlock rfl
  | tickMap => simpa [NetAct.enabled, hat] using hnet .tickMap rfl
  | tickCount => simpa [NetAct.enabled, hat] using hnet .tickCount rfl
  | tickReset => simpa [NetAct.enabled, hat] using hnet .tickReset rfl
  | tickUnlock => simpa [NetAct.enabled, hat] using hnet .tickUnlock rfl
  | ack => simpa [NetAct.enabled, hat] using hnet .ack rfl

theorem main_atRest {as : List Act} {s : State} (h : program.run as = some s)
    (hidle : s.net = .idle)
    (hmain : ∀ a : MainAct, Act.internal (.main a) = true →
      a.enabled s = false) : AtRest s := by
  have hlocked := locked h
  have hnotNet : s.lock ≠ some .net := by
    rw [ne_eq, hlocked.net, hidle]
    simp [NetPc.holds]
  have hfree : s.main.holds = false → s.lock = none := by
    intro hout
    cases hlock : s.lock with
    | none => rfl
    | some holder =>
        cases holder with
        | net => exact absurd hlock hnotNet
        | main =>
            have hin := hlocked.main.mp hlock
            rw [hout] at hin
            cases hin
  have hsock : 4 < s.main.rank → s.client.socket.isSome := isSome_of_rank h
  cases hat : s.main with
  | getch => exact ⟨hidle, hfree (by rw [hat]; rfl), .inl hat⟩
  | join => exact ⟨hidle, hfree (by rw [hat]; rfl), .inr (.inl hat)⟩
  | lock =>
      have hno := hmain .lock rfl
      simp [MainAct.enabled, hat, hfree (by rw [hat]; rfl)] at hno
  | asleep notified =>
      have hlock := hfree (by rw [hat]; rfl)
      cases notified with
      | true =>
          have hno := hmain .wake rfl
          simp [MainAct.enabled, hat, hlock] at hno
      | false =>
          have hawake := (toLatch.always h).mpr Latch.never_lost
          have hlost := hawake.last h
          refine ⟨hidle, hlock, .inr (.inr ⟨hat, ?_⟩)⟩
          rw [← Bool.not_eq_true]
          intro hflag
          exact hlost ⟨hflag, congrArg MainPc.waiter hat⟩
  | test => simpa [MainAct.enabled, hat] using hmain .test rfl
  | wait => simpa [MainAct.enabled, hat] using hmain .wait rfl
  | unlock => simpa [MainAct.enabled, hat] using hmain .unlock rfl
  | socket => simpa [MainAct.enabled, hat] using hmain .socket rfl
  | syncClose => simpa [MainAct.enabled, hat] using hmain .syncClose rfl
  | joinRoom1 =>
      have hno := hmain .joinRoom1 rfl
      simp [MainAct.enabled, hat, hsock (by rw [hat]; decide)] at hno
  | joinRoom2 =>
      have hno := hmain .joinRoom2 rfl
      simp [MainAct.enabled, hat, hsock (by rw [hat]; decide)] at hno
  | bindJoinGame =>
      have hno := hmain .bindJoinGame rfl
      simp [MainAct.enabled, hat, hsock (by rw [hat]; decide)] at hno
  | bindTicktackPlayer =>
      have hno := hmain .bindTicktackPlayer rfl
      simp [MainAct.enabled, hat, hsock (by rw [hat]; decide)] at hno
  | drive direction =>
      have hno := hmain .drive rfl
      have hrank : 4 < s.main.rank := by
        rw [hat]
        show 4 < 9
        omega
      simp [MainAct.enabled, hat, MainPc.direction?, hsock hrank] at hno

/-- From every state of every run, whatever internal steps are taken in
whatever order, at most nineteen are, and where none is left both threads are
at rest. -/
theorem settles {as bs : List Act} {s t : State}
    (h : program.run as = some s) (hbs : ∀ b ∈ bs, b.internal = true)
    (ht : program.runFrom s bs = some t) :
    bs.length ≤ 19 ∧ (t.status = .running →
      (∀ b, b.internal = true → program.step t b = none) → AtRest t) := by
  have hmeasure := runFrom_measure (μ := State.work)
    (P := fun a => a.internal = true) (fun _ _ _ => work_step) hbs ht
  have hwork := work_le s
  refine ⟨by omega, fun hrun hstuck => ?_⟩
  have hreach : program.run (as ++ bs) = some t := run_append.mpr ⟨s, h, ht⟩
  have hdisabled : ∀ b : Act, b.internal = true → b.enabled t = false := by
    intro b hb
    rw [← Bool.not_eq_true]
    intro hen
    have hstep := step_eq_some.mpr ⟨⟨hrun, hen⟩, rfl⟩
    rw [hstuck b hb] at hstep
    cases hstep
  have hmain : ∀ a : MainAct, Act.internal (.main a) = true →
      a.enabled t = false := fun a => hdisabled (.main a)
  have hnet : ∀ a : NetAct, Act.internal (.net a) = true →
      a.enabled t = false := fun a => hdisabled (.net a)
  exact main_atRest hreach (net_atRest hreach hmain hnet) hmain

/-- Nobody connects: main is asleep after three steps. -/
theorem settles_unconnected : ∃ t,
    program.runFrom {} [.main .lock, .main .test, .main .wait] = some t ∧
      AtRest t := by
  have hstart : program.run [] = some {} := rfl
  have hinternal : ∀ b ∈ ([.main .lock, .main .test, .main .wait] : List Act),
      b.internal = true := by decide
  refine ⟨_, rfl, (settles hstart hinternal rfl).2 rfl ?_⟩
  intro b hb
  cases b with
  | main a => cases a <;> first | rfl | cases hb
  | net a => cases a <;> first | rfl | cases hb

end Codefest
