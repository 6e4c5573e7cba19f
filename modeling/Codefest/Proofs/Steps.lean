import Codefest.Main.System

/-!
# What one step can do

Every property of a run below is an induction over it, and none of them looks
at a step through the definition. What they need is here, once for each part
of the state: what a step adds to the log, how far main has come, what is
bound, and when the network thread is inside the `ticktack player` listener.

Main never goes back before the key loop, so its position is measured by a
rank, and each act of the startup is taken exactly at its own rank.
-/

namespace Codefest

open Sio Sequence Transition System

namespace State

variable (s : State) (e : Emission) (r : Client Listener × Callback)
  (msg : Ptr) (packId : Int)

@[simp] theorem callback_main : (s.callback r).main = s.main := by
  unfold callback
  split <;> rfl

@[simp] theorem callback_client : (s.callback r).client = r.1 := by
  unfold callback
  split <;> rfl

@[simp] theorem callback_log : (s.callback r).log =
    s.log ++ if r.2 = .openListener then [.opened] else [] := by
  unfold callback
  split <;> simp [*]

@[simp] theorem callback_net : (s.callback r).net =
    if r.2 = .openListener then .openLock else s.net := by
  unfold callback
  split <;> simp [*]

@[simp] theorem deliver_main : (s.deliver msg packId).main = s.main := by
  unfold deliver
  split <;> rfl

@[simp] theorem deliver_lock : (s.deliver msg packId).lock = s.lock := by
  unfold deliver
  split <;> rfl

@[simp] theorem deliver_connectFinish :
    (s.deliver msg packId).connectFinish = s.connectFinish := by
  unfold deliver
  split <;> rfl

@[simp] theorem deliver_client : (s.deliver msg packId).client = s.client := by
  unfold deliver
  split <;> rfl

end State

def State.delivered (s : State) (msg : Ptr) (packId : Int) : List Obs :=
  match unpackEvent msg packId with
  | .ok (some ev) => [.dispatched ev.name (s.client.listener ev.name)]
  | _ => []

/-- What a step adds to the log. -/
def Act.obs (s : State) : Act → List Obs
  | .main .joinRoom1 => [.emitted (joinRoom gameId playerId1)]
  | .main .joinRoom2 => [.emitted (joinRoom gameId playerId2)]
  | .main .drive =>
      s.main.direction?.toList.map fun direction =>
        .emitted (drivePlayer direction)
  | .net .open => if s.client.conState = .closing then [] else [.opened]
  | .net (.close _) => [.closed]
  | .net (.eventPacket msg packId) => s.delivered msg packId
  | .net .tickEmit => [.emitted (drivePlayer autoDirection)]
  | _ => []

theorem deliver_log (s : State) (msg : Ptr) (packId : Int) :
    (s.deliver msg packId).log = s.log ++ s.delivered msg packId := by
  rcases h : unpackEvent msg packId with e | _ | ev <;>
    simp [State.deliver, State.delivered, h]

theorem effect_log (s : State) (a : Act) :
    (a.effect s).log = s.log ++ a.obs s := by
  cases a with
  | main a =>
      cases a with
      | drive =>
          show (MainAct.effect s .drive).log = _
          rw [MainAct.effect, Act.obs]
          cases s.main.direction? <;> simp [State.emit]
      | _ => simp [Act.effect, MainAct.effect, Act.obs, State.emit]
  | net a =>
      cases a with
      | «open» =>
          show (s.callback s.client.onOpen).log = _
          rw [State.callback_log, Act.obs]
          by_cases hc : s.client.conState = .closing <;>
            simp [s.client.onOpen_callback, hc]
      | fail =>
          show (s.callback s.client.onFail).log = _
          rw [State.callback_log, if_neg s.client.onFail_callback]
          rfl
      | close normal =>
          show (State.callback _ (s.client.onClose normal)).log = _
          rw [State.callback_log, if_neg (s.client.onClose_callback normal)]
          exact List.append_nil _
      | eventPacket msg packId => exact deliver_log s msg packId
      | joinBody =>
          show (NetAct.effect s .joinBody).log = s.log ++ []
          rw [NetAct.effect, List.append_nil]
          split <;> rfl
      | tickMap =>
          show (NetAct.effect s .tickMap).log = s.log ++ []
          rw [NetAct.effect, List.append_nil]
          split <;> rfl
      | _ => simp [Act.effect, NetAct.effect, Act.obs, State.emit]

theorem obs_cases (s : State) (a : Act) :
    a.obs s = [] ∨ ∃ o, a.obs s = [o] := by
  cases a with
  | main a =>
      cases a with
      | drive =>
          rw [Act.obs]
          cases s.main.direction? <;> simp
      | _ => simp [Act.obs]
  | net a =>
      cases a with
      | «open» =>
          rw [Act.obs]
          split <;> simp
      | eventPacket msg packId =>
          rw [Act.obs, State.delivered]
          split <;> simp
      | _ => simp [Act.obs]

/-- Where each kind of entry comes from. -/
theorem mem_obs {s : State} {a : Act} {o : Obs} : o ∈ a.obs s ↔
    (a = .main .joinRoom1 ∧ o = .emitted (joinRoom gameId playerId1)) ∨
    (a = .main .joinRoom2 ∧ o = .emitted (joinRoom gameId playerId2)) ∨
    (a = .main .drive ∧ ∃ direction, s.main.direction? = some direction ∧
      o = .emitted (drivePlayer direction)) ∨
    (a = .net .tickEmit ∧ o = .emitted (drivePlayer autoDirection)) ∨
    (a = .net .open ∧ s.client.conState ≠ .closing ∧ o = .opened) ∨
    ((∃ normal, a = .net (.close normal)) ∧ o = .closed) ∨
    ∃ msg packId ev, a = .net (.eventPacket msg packId) ∧
      unpackEvent msg packId = .ok (some ev) ∧
      o = .dispatched ev.name (s.client.listener ev.name) := by
  cases a with
  | main a =>
      cases a with
      | drive =>
          rw [Act.obs]
          cases s.main.direction? <;> simp
      | _ => simp [Act.obs]
  | net a =>
      cases a with
      | «open» =>
          rw [Act.obs]
          split <;> simp [*]
      | eventPacket msg packId =>
          rcases hev : unpackEvent msg packId with e | _ | ev <;>
            simp [Act.obs, State.delivered, hev]
      | _ => simp [Act.obs]

/-- A judgment on every entry of the log, in the light of the log before it, is
a judgment on every step, in the light of the steps before it, when the two
agree at each step of a run. -/
theorem log_throughout_iff {P : List Obs → Obs → Prop}
    {Q : List Act → Act → Prop}
    (hstep : ∀ {as s a}, program.run as = some s → a.enabled s = true →
      ((∀ o ∈ a.obs s, P s.log o) ↔ Q as a))
    {as : List Act} {s : State} (h : program.run as = some s) :
    Throughout P s.log ↔ Throughout Q as := by
  refine run_induction (R := fun as s => Throughout P s.log ↔ Throughout Q as)
    ?_ ?_ h
  · exact iff_of_true (throughout_nil _) (throughout_nil _)
  · intro as s a t hs ih ha
    obtain ⟨⟨-, hen⟩, rfl⟩ := step_eq_some.mp ha
    rw [throughout_snoc, ← hstep hs hen, effect_log]
    rcases obs_cases s a with hobs | ⟨o, hobs⟩
    · rw [hobs, List.append_nil, ih]
      simp
    · rw [hobs, throughout_snoc, ih]
      simp

/-! ## How far main has come -/

def MainPc.rank : MainPc → Nat
  | lock => 0
  | test => 1
  | wait | asleep _ => 2
  | unlock => 3
  | socket => 4
  | joinRoom1 => 5
  | joinRoom2 => 6
  | bindJoinGame => 7
  | bindTicktackPlayer => 8
  | getch | drive _ => 9
  | syncClose => 10
  | join => 11

/-- The acts that main takes once, with the rank they are taken at. -/
def MainAct.rank? : MainAct → Option Nat
  | socket => some 4
  | joinRoom1 => some 5
  | joinRoom2 => some 6
  | bindJoinGame => some 7
  | bindTicktackPlayer => some 8
  | syncClose => some 10
  | _ => none

theorem rank?_injective {a b : MainAct} {r : Nat} (ha : a.rank? = some r)
    (hb : b.rank? = some r) : a = b := by
  cases a <;> cases b <;> simp [MainAct.rank?] at ha hb <;> first | rfl | omega

theorem rank_notified (pc : MainPc) : pc.notified.rank = pc.rank := by
  cases pc <;> rfl

theorem net_main (s : State) {a : NetAct} (ha : a ≠ .openNotify) :
    (a.effect s).main = s.main := by
  cases a with
  | openNotify => exact absurd rfl ha
  | joinBody =>
      rw [NetAct.effect]
      split <;> rfl
  | tickMap =>
      rw [NetAct.effect]
      split <;> rfl
  | _ => simp [NetAct.effect, State.emit]

theorem net_rank (s : State) (a : NetAct) :
    (a.effect s).main.rank = s.main.rank := by
  cases a with
  | openNotify => exact rank_notified s.main
  | _ =>
      rw [net_main]
      simp

theorem direction?_eq_some {pc : MainPc} {direction : String} :
    pc.direction? = some direction ↔ pc = .drive direction := by
  cases pc <;> simp [MainPc.direction?]

/-! Main drives with a direction in hand, and the step emits it. -/

theorem enabled_drive {s : State} (h : MainAct.enabled s .drive = true) :
    ∃ direction, s.main = .drive direction := by
  obtain ⟨⟨direction, hd⟩, -⟩ := by
    simpa [MainAct.enabled, Option.isSome_iff_exists] using h
  exact ⟨direction, direction?_eq_some.mp hd⟩

theorem effect_drive {s : State} {direction : String}
    (hat : s.main = .drive direction) : MainAct.effect s .drive =
      { s.emit (drivePlayer direction) with main := .getch } := by
  rw [MainAct.effect, hat]
  rfl

theorem enabled_rank {s : State} {a : MainAct} (h : a.enabled s = true)
    {r : Nat} (ha : a.rank? = some r) :
    s.main.rank = r ∧ (a.effect s).main.rank = r + 1 := by
  cases a with
  | socket | joinRoom1 | joinRoom2 | bindJoinGame | bindTicktackPlayer
  | syncClose =>
      obtain rfl := Option.some.inj ha
      have hat := by simpa [MainAct.enabled] using h
      exact ⟨by simp [hat, MainPc.rank], rfl⟩
  | _ => cases ha

/-- The other acts of main do not cross the rank of any that is taken once. -/
theorem enabled_rank_none {s : State} {a : MainAct} (h : a.enabled s = true)
    (ha : a.rank? = none) {b : MainAct} {r : Nat} (hb : b.rank? = some r) :
    r < (a.effect s).main.rank ↔ r < s.main.rank := by
  have hr : 4 ≤ r ∧ r ≠ 9 := by
    cases b <;> simp [MainAct.rank?] at hb <;> omega
  cases a with
  | socket | joinRoom1 | joinRoom2 | bindJoinGame | bindTicktackPlayer
  | syncClose => cases ha
  | finish => rfl
  | test =>
      have hat : s.main = .test := by simpa [MainAct.enabled] using h
      have hle : (MainAct.effect s .test).main.rank ≤ 3 := by
        rw [MainAct.effect]
        dsimp only
        split <;> simp [MainPc.rank]
      rw [hat, MainPc.rank]
      omega
  | getch c =>
      have hat : s.main = .getch := by simpa [MainAct.enabled] using h
      have hle : 9 ≤ (MainAct.effect s (.getch c)).main.rank ∧
          (MainAct.effect s (.getch c)).main.rank ≤ 10 := by
        rw [MainAct.effect]
        dsimp only
        split <;> simp [MainPc.rank]
      rw [hat, MainPc.rank]
      omega
  | drive =>
      obtain ⟨direction, hat⟩ := enabled_drive h
      rw [effect_drive hat, hat]
      rfl
  | lock | wait | wake | spuriousWake | unlock =>
      have hat := by simpa [MainAct.enabled] using h
      have hpre : s.main.rank ≤ 3 := by simp [hat, MainPc.rank]
      refine iff_of_false (fun hlt => ?_) (by omega)
      simp only [MainAct.effect, MainPc.rank] at hlt
      omega

/-- An act that is taken once takes main past its rank, and no other act
does. -/
theorem rank_lt_effect {s : State} {a : Act} (h : a.enabled s = true)
    {b : MainAct} {r : Nat} (hb : b.rank? = some r) :
    r < (a.effect s).main.rank ↔ a = .main b ∨ r < s.main.rank := by
  cases a with
  | net a =>
      show r < (a.effect s).main.rank ↔ _
      rw [net_rank]
      simp
  | main a =>
      show r < (a.effect s).main.rank ↔ _
      rw [Act.main.injEq]
      cases ha : a.rank? with
      | none =>
          have hne : a ≠ b := by
            intro heq
            rw [heq, hb] at ha
            cases ha
          rw [enabled_rank_none h ha hb]
          simp [hne]
      | some k =>
          have hab : a = b ↔ k = r := by
            refine ⟨fun heq => ?_, fun heq => ?_⟩
            · rw [heq, hb] at ha
              exact (Option.some.inj ha).symm
            · rw [heq] at ha
              exact rank?_injective ha hb
          obtain ⟨hp, hq⟩ := enabled_rank h ha
          rw [hab, hp, hq]
          omega

theorem mem_iff_rank {as : List Act} {s : State} (h : program.run as = some s)
    {b : MainAct} {r : Nat} (hb : b.rank? = some r) :
    .main b ∈ as ↔ r < s.main.rank := by
  refine run_induction (R := fun as s => .main b ∈ as ↔ r < s.main.rank) ?_ ?_
    h
  · simp [program, MainPc.rank]
  · intro as s a t _ ih ha
    obtain ⟨⟨-, hen⟩, rfl⟩ := step_eq_some.mp ha
    rw [rank_lt_effect hen hb, List.mem_append, List.mem_singleton, ih,
      or_comm, eq_comm]

/-- A step of the connection itself: it changes what the client knows of it. -/
def Act.Connects (a : Act) : Prop :=
  a = .net .open ∨ a = .net .fail ∨ (∃ normal, a = .net (.close normal)) ∨
    a = .net .reconnect ∨ a = .main .syncClose

/-- Any other step leaves all of the client but its socket. -/
theorem client_effect {s : State} {a : Act} (ha : ¬ a.Connects) :
    ∃ socket, (a.effect s).client = { s.client with socket := socket } := by
  cases a with
  | main a =>
      cases a with
      | socket =>
          show ∃ socket, s.client.getSocket = _
          rw [Client.getSocket]
          split <;> exact ⟨_, rfl⟩
      | drive =>
          rw [Act.effect, MainAct.effect]
          split <;> exact ⟨_, rfl⟩
      | syncClose => exact absurd (by simp [Act.Connects]) ha
      | _ => exact ⟨_, rfl⟩
  | net a =>
      cases a with
      | «open» | fail | close | reconnect =>
          exact absurd (by simp [Act.Connects]) ha
      | eventPacket msg packId => exact ⟨_, s.deliver_client msg packId⟩
      | joinBody | tickMap =>
          rw [Act.effect, NetAct.effect]
          split <;> exact ⟨_, rfl⟩
      | ack =>
          rw [Act.effect, NetAct.effect]
          dsimp only
          split <;> exact ⟨_, rfl⟩
      | _ => exact ⟨_, rfl⟩

theorem isSome_effect {s : State} (hs : s.client.socket.isSome) (a : Act) :
    (a.effect s).client.socket.isSome := by
  cases a with
  | main a =>
      cases a with
      | socket => exact Client.isSome_getSocket _
      | drive =>
          rw [Act.effect, MainAct.effect]
          split
          · exact (Client.isSome_onSocket _ _).trans hs
          · exact hs
      | _ => simpa [Act.effect, MainAct.effect, State.emit] using hs
  | net a =>
      cases a with
      | «open» =>
          rw [Act.effect, NetAct.effect, State.callback_client]
          exact Client.isSome_onOpen hs
      | joinBody =>
          rw [Act.effect, NetAct.effect]
          split <;> exact hs
      | tickMap =>
          rw [Act.effect, NetAct.effect]
          split <;> exact hs
      | ack =>
          rw [Act.effect, NetAct.effect]
          dsimp only
          split
          · exact (Client.isSome_onSocket _ _).trans hs
          · exact hs
      | _ => simpa [Act.effect, NetAct.effect, State.emit] using hs

/-- From where main has fetched the socket on there is one, so no step that
goes through it is ever held up, and none meets a null pointer there. -/
theorem isSome_of_rank {as : List Act} {s : State}
    (h : program.run as = some s) (hrank : 4 < s.main.rank) :
    s.client.socket.isSome := by
  refine run_induction (R := fun _ s => 4 < s.main.rank →
    s.client.socket.isSome) ?_ ?_ h hrank
  · intro hrank
    exact absurd hrank (by decide)
  · intro as s a t _ ih ha hrank
    obtain ⟨⟨-, hen⟩, rfl⟩ := step_eq_some.mp ha
    rcases (rank_lt_effect hen (b := .socket) rfl).mp hrank with rfl | hlt
    · exact Client.isSome_getSocket _
    · exact isSome_effect (ih hlt) a

/-! ## What is bound -/

/-- What main has bound by the time it has come this far. -/
def bound (rank : Nat) (name : String) : Option Listener :=
  if name = "join game" ∧ 7 < rank then some .joinGame
  else if name = "ticktack player" ∧ 8 < rank then some .ticktackPlayer
  else none

theorem bound_eq_ticktackPlayer {rank : Nat} {name : String}
    (h : bound rank name = some .ticktackPlayer) : 8 < rank := by
  unfold bound at h
  split at h
  · cases h
  · split at h
    · rename_i hname
      exact hname.2
    · cases h

theorem net_listener (s : State) (a : NetAct) (name : String) :
    (a.effect s).client.listener name = s.client.listener name := by
  cases a with
  | joinBody =>
      rw [NetAct.effect]
      split <;> rfl
  | tickMap =>
      rw [NetAct.effect]
      split <;> rfl
  | ack =>
      rw [NetAct.effect]
      dsimp only
      split
      · exact Client.listener_onSocket_ack s.client _ _ name
      · rfl
  | _ => simp [NetAct.effect, State.emit]

theorem main_listener {s : State} {a : MainAct} (h₁ : a ≠ .bindJoinGame)
    (h₂ : a ≠ .bindTicktackPlayer) (name : String) :
    (a.effect s).client.listener name = s.client.listener name := by
  cases a with
  | bindJoinGame => exact absurd rfl h₁
  | bindTicktackPlayer => exact absurd rfl h₂
  | drive =>
      rw [MainAct.effect]
      split
      · exact Client.listener_onSocket_emit s.client _ _ name
      · rfl
  | _ => simp [MainAct.effect, State.emit]

theorem listener_effect {s : State} {a : Act} (h : a.enabled s = true)
    (hs : ∀ name, s.client.listener name = bound s.main.rank name)
    (name : String) : (a.effect s).client.listener name =
      bound (a.effect s).main.rank name := by
  have h7 := rank_lt_effect h (b := .bindJoinGame) rfl
  have h8 := rank_lt_effect h (b := .bindTicktackPlayer) rfl
  by_cases hjoin : a = .main .bindJoinGame
  · subst hjoin
    obtain ⟨hat, hsock⟩ : s.main = .bindJoinGame ∧ _ := by
      simpa [Act.enabled, MainAct.enabled] using h
    show (s.client.onSocket _).listener name = bound 8 name
    rw [Client.listener_onSocket_on _ _ _ _ hsock, hs, hat]
    simp [bound, MainPc.rank]
  by_cases htick : a = .main .bindTicktackPlayer
  · subst htick
    obtain ⟨hat, hsock⟩ : s.main = .bindTicktackPlayer ∧ _ := by
      simpa [Act.enabled, MainAct.enabled] using h
    show (s.client.onSocket _).listener name = bound 9 name
    rw [Client.listener_onSocket_on _ _ _ _ hsock, hs, hat]
    by_cases hname : name = "ticktack player"
    · simp [bound, hname]
    · simp [bound, hname, MainPc.rank]
  have hframe : (a.effect s).client.listener name = s.client.listener name := by
    cases a with
    | net a => exact net_listener s a name
    | main a =>
        exact main_listener (fun h => hjoin (congrArg Act.main h))
          (fun h => htick (congrArg Act.main h)) name
  rw [hframe, hs, bound, bound]
  simp only [h7, h8, hjoin, htick, false_or]

/-- What is bound is what main has got to. -/
theorem listener_run {as : List Act} {s : State} (h : program.run as = some s)
    (name : String) : s.client.listener name = bound s.main.rank name := by
  refine run_induction (R := fun _ s => ∀ name,
    s.client.listener name = bound s.main.rank name) ?_ ?_ h name
  · intro name
    simp [program, bound, MainPc.rank, Client.listener]
  · intro as s a t _ ih ha
    obtain ⟨⟨-, hen⟩, rfl⟩ := step_eq_some.mp ha
    exact listener_effect hen ih

/-! ## Inside the tick listener -/

def NetPc.ticking : NetPc → Bool
  | tickLock | tickMap | tickCount | tickEmit | tickReset | tickUnlock => true
  | _ => false

theorem deliver_ticking {s : State} {msg : Ptr} {packId : Int}
    (hs : s.net.ticking = false)
    (h : (s.deliver msg packId).net.ticking = true) :
    ∃ name, s.client.listener name = some .ticktackPlayer := by
  rcases hev : unpackEvent msg packId with e | _ | ev
  · simp [State.deliver, hev, hs] at h
  · simp [State.deliver, hev, hs] at h
  · refine ⟨ev.name, ?_⟩
    simp only [State.deliver, hev] at h
    split at h
    · cases h
    · assumption
    · cases h

theorem main_net (s : State) (a : MainAct) : (a.effect s).net = s.net := by
  cases a with
  | drive =>
      rw [MainAct.effect]
      split <;> rfl
  | _ => simp [MainAct.effect, State.emit]

theorem callback_ticking {s : State} {r : Client Listener × Callback}
    (hs : s.net = .idle) : (s.callback r).net.ticking = false := by
  rw [State.callback_net, hs]
  split <;> rfl

/-- The thread gets into the listener by an event that finds it bound. -/
theorem ticking_effect {s : State} {a : Act} (h : a.enabled s = true)
    (ht : (a.effect s).net.ticking = true) :
    s.net.ticking = true ∨
      ∃ name, s.client.listener name = some .ticktackPlayer := by
  cases a with
  | main a =>
      have hnet : (Act.effect s (.main a)).net = s.net := main_net s a
      rw [hnet] at ht
      exact .inl ht
  | net a =>
      cases a with
      | tickLock | tickMap | tickCount | tickEmit | tickReset | tickUnlock =>
          have hat := by simpa [Act.enabled, NetAct.enabled] using h
          exact .inl (by simp [hat, NetPc.ticking])
      | eventPacket msg packId =>
          obtain ⟨hat, -⟩ : s.net = .idle ∧ _ := by
            simpa [Act.enabled, NetAct.enabled] using h
          exact .inr (deliver_ticking (by rw [hat]; rfl) ht)
      | «open» | fail | close =>
          obtain ⟨hat, -⟩ : s.net = .idle ∧ _ := by
            simpa [Act.enabled, NetAct.enabled] using h
          have hno := ht.symm.trans (callback_ticking hat)
          cases hno
      | joinBody =>
          have hat : s.net = .joinBody := by
            simpa [Act.enabled, NetAct.enabled] using h
          rw [Act.effect, NetAct.effect] at ht
          split at ht
          · cases ht
          · rw [hat] at ht
            cases ht
      | reconnect | connectPacket =>
          exact .inl ht
      | openLock | openNotify | openSet | openUnlock | joinLock | joinUnlock
      | ack => cases ht

/-- In the listener, main has registered it. -/
theorem rank_of_ticking {as : List Act} {s : State}
    (h : program.run as = some s) (ht : s.net.ticking = true) :
    8 < s.main.rank := by
  refine run_induction (R := fun _ s => s.net.ticking = true →
    8 < s.main.rank) ?_ ?_ h ht
  · intro ht
    cases ht
  · intro as s a t hs ih ha ht
    obtain ⟨⟨-, hen⟩, rfl⟩ := step_eq_some.mp ha
    have h8 := rank_lt_effect hen (b := .bindTicktackPlayer) rfl
    rcases ticking_effect hen ht with hticking | ⟨name, hname⟩
    · exact h8.mpr (.inr (ih hticking))
    · rw [listener_run hs] at hname
      exact h8.mpr (.inr (bound_eq_ticktackPlayer hname))

/-- The connection opens before main looks, so main goes straight through the
barrier; then come these acts. -/
def connectedThen (acts : List Act) : List Act :=
  [.net .open, .net .openLock, .net .openNotify, .net .openSet,
    .net .openUnlock, .main .lock, .main .test, .main .unlock, .main .socket] ++
    acts

def startup : List Act :=
  [.main .joinRoom1, .main .joinRoom2, .main .bindJoinGame,
    .main .bindTicktackPlayer]

end Codefest
