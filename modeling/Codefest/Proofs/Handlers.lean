import Codefest.Proofs.Outgoing

/-!
# The steps and the functions

The key loop and the tick listener are modelled twice: as functions, which say
what they do when nothing comes in between, and as steps of a thread, which
say where something may. Left alone, the steps do what the functions say.

For the listener this is a run of the network thread from its lock to its
unlock. For the loop there is nothing to be left alone from, because nobody
else touches what it reads: in any run at all, the directions emitted and the
one in hand are those the loop emits on what was typed.
-/

namespace Codefest

open Sio Sequence Transition System Listening

theorem commandDirections_cons (r : Int) (rs : List Int) :
    commandDirections (r :: rs) = match keyAction (toChar r) with
      | .quit => []
      | .drive direction => direction :: commandDirections rs
      | .invalid => commandDirections rs := by
  rw [commandDirections, List.map_cons, keyAction_eq]
  by_cases hq : toChar r ∈ quitChars
  · simp [hq]
  · cases hd : commands.lookup (toChar r) <;>
      simp [hq, hd, commandDirections]

theorem keyLoop_emitted (rs : List Int) :
    (keyLoop rs).emitted = commandDirections rs := by
  induction rs with
  | nil => rfl
  | cons r rs ih =>
      rw [keyLoop, commandDirections_cons, ← ih]
      cases keyAction (toChar r) <;> rfl

/-- What main has emitted for keys, and what it is about to, is what the loop
emits on what was typed. -/
theorem keyLoop_run {as : List Act} {s : State} (h : program.run as = some s) :
    ∃ keys rest, Stream as s keys rest ∧
      keys ++ s.main.direction?.toList = (keyLoop (typed as)).emitted := by
  obtain ⟨keys, rest, hs⟩ := stream_run h
  exact ⟨keys, rest, hs, hs.keys.trans (keyLoop_emitted _).symm⟩

/-- What the listener reads and writes, in a state of the program. -/
def State.tick (s : State) : Tick := ⟨s.game, s.count, outgoing s.log⟩

/-- The steps of the last block, whether it emits or not. -/
def autoDriveActs (fires : Bool) : List Act :=
  .net .tickCount ::
    if fires then [.net .tickEmit, .net .tickReset, .net .tickUnlock]
    else [.net .tickUnlock]

/-- The first two steps: the mutex is taken, and the payload read into the
game or followed into a null pointer. -/
theorem run_update {s : State} (hrun : s.status = .running)
    (hnet : s.net = .tickLock) (hlock : s.lock = none) (as : List Act) :
    program.runFrom s (.net .tickLock :: .net .tickMap :: as) =
      program.runFrom
        (NetAct.effect (NetAct.effect s .tickLock) .tickMap) as := by
  have hfirst : program.step s (.net .tickLock) =
      some (NetAct.effect s .tickLock) :=
    step_eq_some.mpr
      ⟨⟨hrun, by simp [Act.enabled, NetAct.enabled, hnet, hlock]⟩, rfl⟩
  have hsecond : program.step (NetAct.effect s .tickLock) (.net .tickMap) =
      some (NetAct.effect (NetAct.effect s .tickLock) .tickMap) :=
    step_eq_some.mpr ⟨⟨hrun, rfl⟩, rfl⟩
  rw [runFrom_cons hfirst, runFrom_cons hsecond]

/-- The last block, step by step, does what it does in one. -/
theorem run_autoDrive {s : State} (hrun : s.status = .running)
    (hnet : s.net = .tickCount) (hsock : s.client.socket.isSome) :
    ∃ s', program.runFrom s (autoDriveActs (tickTest s.count).1) = some s' ∧
      s'.status = .running ∧ s'.net = .ack ∧ s'.lock = none ∧
      s'.tick = (exec autoDrive s.tick).2 := by
  obtain ⟨status, main, net, event, lock, finish, client, game, count, log⟩ := s
  subst hrun hnet
  rw [autoDrive_exec]
  by_cases hfire : 20 < count
  · simp [autoDriveActs, runFrom, program, Act.enabled, NetAct.enabled,
      Act.effect, NetAct.effect, tickTest, hfire, State.emit, hsock,
      Client.onSocket, State.tick, outgoing, Obs.emission?]
  · simp [autoDriveActs, runFrom, program, Act.enabled, NetAct.enabled,
      Act.effect, NetAct.effect, tickTest, hfire, State.tick]

/-- Left alone with the mutex free, the network thread handles a tick as the
listener does: it gets through where the listener does, crashes where that
faults, and leaves the same game, counter and messages. -/
theorem run_onTicktackPlayer {before : List Act} {s : State}
    (h : program.run before = some s) (hrun : s.status = .running)
    (hnet : s.net = .tickLock) (hlock : s.lock = none) :
    ∃ as s', program.runFrom s as = some s' ∧
      s'.tick = (exec (onTicktackPlayer s.event.getMessage) s.tick).2 ∧
      match (exec (onTicktackPlayer s.event.getMessage) s.tick).1 with
      | .ok _ => s'.status = .running ∧ s'.net = .ack ∧ s'.lock = none
      | .error _ => s'.status = .crashed := by
  have hbound : 8 < s.main.rank := rank_of_ticking h (by rw [hnet]; rfl)
  have hsock := isSome_of_rank h (by omega)
  have hgame : s.tick.game = s.game := rfl
  rw [onTicktackPlayer_exec, hgame]
  rcases hupd : exec (updateFromPayload s.event.getMessage) s.game with
    ⟨result, game⟩
  cases result with
  | error e =>
      have heff : NetAct.effect (NetAct.effect s .tickLock) .tickMap =
          { s with
            net := .tickMap, lock := some .net, status := .crashed
            game := game } := by
        simp [NetAct.effect, hupd]
      refine ⟨[.net .tickLock, .net .tickMap], _,
        run_update hrun hnet hlock [], ?_⟩
      rw [heff]
      exact ⟨rfl, rfl⟩
  | ok u =>
      have heff : NetAct.effect (NetAct.effect s .tickLock) .tickMap =
          { s with net := .tickCount, lock := some .net, game := game } := by
        simp [NetAct.effect, hupd]
      obtain ⟨s', hs', hstatus, hnet', hlock', htick⟩ := run_autoDrive
        (s := { s with net := .tickCount, lock := some .net, game := game })
        hrun rfl hsock
      have hok : (exec autoDrive { s.tick with game := game }).1 = .ok () := by
        rw [autoDrive_exec]
      refine ⟨.net .tickLock :: .net .tickMap ::
        autoDriveActs (tickTest s.count).1, s', ?_, htick, ?_⟩
      · rw [run_update hrun hnet hlock, heff]
        exact hs'
      · dsimp only
        rw [hok]
        exact ⟨hstatus, hnet', hlock'⟩

end Codefest
