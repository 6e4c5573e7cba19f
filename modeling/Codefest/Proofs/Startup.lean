import Codefest.Proofs.Steps

/-!
# Events during the startup

Main asks to be let in and registers its listeners afterwards. The server may
answer at once, and an answer that arrives between the request and the
registration finds nothing bound and is gone. What is bound at any moment is
what main has got to (`listener_run`), so a delivery runs the listener meant
for it exactly when that registration came before it.
-/

namespace Codefest

open Sio Sequence Transition System

def meantFor (name : String) : Option Listener :=
  if name = "join game" then some .joinGame
  else if name = "ticktack player" then some .ticktackPlayer
  else none

def Joining (log : List Obs) : Prop :=
  ∃ e, .emitted e ∈ log ∧ e.name = "join game"

/-- After the first request to join, every delivery of an event that a listener
is meant for ran that listener. -/
def NoneDropped : List Obs → Prop :=
  Throughout fun before o => Joining before → ∀ name found listener,
    o = .dispatched name found → meantFor name = some listener →
    found = some listener

/-- After the first request to join, every event that arrives has its
registration before it. -/
def Registered : List Act → Prop :=
  Throughout fun before a => .main .joinRoom1 ∈ before →
    ∀ msg packId ev, a = .net (.eventPacket msg packId) →
      unpackEvent msg packId = .ok (some ev) →
      (ev.name = "join game" → .main .bindJoinGame ∈ before) ∧
      (ev.name = "ticktack player" → .main .bindTicktackPlayer ∈ before)

theorem joining_obs {s : State} {a : Act} : Joining (a.obs s) ↔
    a = .main .joinRoom1 ∨ a = .main .joinRoom2 := by
  simp [Joining, mem_obs, or_and_right, exists_or, joinRoom, drivePlayer]

theorem joining_append {l l' : List Obs} :
    Joining (l ++ l') ↔ Joining l ∨ Joining l' := by
  simp only [Joining, List.mem_append, or_and_right, exists_or]

/-- A request to join has been emitted once main has got that far. -/
theorem joining_run {as : List Act} {s : State}
    (h : program.run as = some s) : Joining s.log ↔ 5 < s.main.rank := by
  refine run_induction (R := fun _ s => Joining s.log ↔ 5 < s.main.rank) ?_ ?_ h
  · simp [program, Joining, MainPc.rank]
  · intro as s a t _ ih ha
    obtain ⟨⟨-, hen⟩, rfl⟩ := step_eq_some.mp ha
    rw [effect_log, joining_append, ih, joining_obs,
      rank_lt_effect hen (b := .joinRoom1) rfl]
    refine ⟨fun h => ?_, fun h => ?_⟩
    · rcases h with hlt | hjoin | hjoin
      · exact .inr hlt
      · exact .inl hjoin
      · subst hjoin
        have hat := (enabled_rank (a := .joinRoom2) hen rfl).1
        exact .inr (by omega)
    · rcases h with hjoin | hlt
      · exact .inr (.inl hjoin)
      · exact .inl hlt

/-- What main has bound under a name is what is meant for it, once that
registration is made. -/
theorem bound_meantFor {rank : Nat} {name : String} {listener : Listener}
    (h : meantFor name = some listener) : bound rank name = some listener ↔
      (name = "join game" → 7 < rank) ∧
      (name = "ticktack player" → 8 < rank) := by
  unfold meantFor at h
  split at h
  · rename_i hname
    obtain rfl := Option.some.inj h
    simp [bound, hname]
  · split at h
    · rename_i hname
      obtain rfl := Option.some.inj h
      simp [bound, hname]
    · cases h

theorem meantFor_eq_none {name : String} (h : meantFor name = none) :
    name ≠ "join game" ∧ name ≠ "ticktack player" := by
  unfold meantFor at h
  split at h
  · cases h
  · split at h
    · cases h
    · exact ⟨‹_›, ‹_›⟩

/-- What one step owes the log and what it owes the run are the same. -/
theorem dropped_step_iff {as : List Act} {s : State} {a : Act}
    (h : program.run as = some s) :
    (∀ o ∈ a.obs s, Joining s.log → ∀ name found listener,
      o = .dispatched name found → meantFor name = some listener →
      found = some listener) ↔
    (.main .joinRoom1 ∈ as → ∀ msg packId ev,
      a = .net (.eventPacket msg packId) →
      unpackEvent msg packId = .ok (some ev) →
      (ev.name = "join game" → .main .bindJoinGame ∈ as) ∧
      (ev.name = "ticktack player" → .main .bindTicktackPlayer ∈ as)) := by
  rw [mem_iff_rank h (b := .joinRoom1) rfl, joining_run h,
    mem_iff_rank h (b := .bindJoinGame) rfl,
    mem_iff_rank h (b := .bindTicktackPlayer) rfl]
  refine ⟨fun hlog => ?_, fun hrun => ?_⟩
  · intro hjoin msg packId ev ha hev
    cases hname : meantFor ev.name with
    | none =>
        obtain ⟨hne, hne'⟩ := meantFor_eq_none hname
        exact ⟨fun h => absurd h hne, fun h => absurd h hne'⟩
    | some listener =>
        have hmem : .dispatched ev.name (s.client.listener ev.name) ∈
            a.obs s := by
          rw [ha, Act.obs, State.delivered, hev]
          exact List.mem_singleton_self _
        have hfound := hlog _ hmem hjoin _ _ _ rfl hname
        rw [listener_run h] at hfound
        exact (bound_meantFor hname).mp hfound
  · intro o ho hjoin name found listener hdisp hname
    subst hdisp
    obtain ⟨msg, packId, ev, ha, hev, heq⟩ : ∃ msg packId ev,
        a = .net (.eventPacket msg packId) ∧
        unpackEvent msg packId = .ok (some ev) ∧
        Obs.dispatched name found =
          .dispatched ev.name (s.client.listener ev.name) := by
      simpa [mem_obs] using ho
    obtain ⟨rfl, rfl⟩ := Obs.dispatched.inj heq
    rw [listener_run h]
    exact (bound_meantFor hname).mpr (hrun hjoin msg packId ev ha hev)

/-- In every run no event is dropped after the first request to join, exactly
when none arrived before its listener was registered. -/
theorem noneDropped_iff {as : List Act} {s : State}
    (h : program.run as = some s) : NoneDropped s.log ↔ Registered as :=
  log_throughout_iff (fun hs _ => dropped_step_iff hs) h

def joinAnswer : Act :=
  .net (.eventPacket (some (.array [some (.string "join game")])) (-1))

/-- The server answers the first request to join at once. -/
def earlyAnswer : List Act :=
  connectedThen [.net .connectPacket, .main .joinRoom1, joinAnswer]

/-- The answer is dropped. -/
theorem noneDropped_fails :
    ∃ s, program.run earlyAnswer = some s ∧ ¬ NoneDropped s.log := by
  refine ⟨_, rfl, fun h => ?_⟩
  have hlast := h [.opened, .emitted (joinRoom gameId playerId1)]
    (.dispatched "join game" none) [] rfl
    ⟨joinRoom gameId playerId1, by simp, rfl⟩ "join game" none .joinGame rfl rfl
  cases hlast

/-- The server takes its time. -/
def lateAnswer : List Act :=
  connectedThen (.net .connectPacket :: startup) ++ [joinAnswer]

theorem noneDropped_lateAnswer : ∃ s, program.run lateAnswer = some s ∧
    (NoneDropped s.log ↔ Registered lateAnswer) ∧ NoneDropped s.log := by
  have hrun : program.run lateAnswer = some _ := rfl
  have hiff := noneDropped_iff hrun
  refine ⟨_, hrun, hiff, hiff.mpr (throughout_snoc.mpr ⟨?_, ?_⟩)⟩
  · intro before a after heq _ msg packId ev ha
    have hmem : a ∈ connectedThen (.net .connectPacket :: startup) := by
      rw [heq]
      simp
    rw [ha] at hmem
    simp [connectedThen, startup] at hmem
  · intro _ msg packId ev _ _
    exact ⟨fun _ => by simp [connectedThen, startup],
      fun _ => by simp [connectedThen, startup]⟩

end Codefest
