import Codefest.Proofs.Steps

/-!
# Connection sessions

The client reconnects by itself after a drop, and every reopening calls
`on_connected` again, which only sets a flag that is set already. The requests
to join are main's, made once. So a drive command is emitted by a player who
has joined only as long as the session that the requests were made in lasts:
from the first drop on, the keys and the tick listener go on driving players
that the new session knows nothing of.

What is wanted is a matter of the log, what decides it a matter of the order of
the steps, and `InSession` ties one to the other along a run.
-/

namespace Codefest

open Sio Sequence Transition System

def Obs.session : Obs → Option Bool
  | opened => some true
  | closed => some false
  | _ => none

def Obs.Joins (playerId : String) (o : Obs) : Prop :=
  ∃ e, o = .emitted e ∧ e.joins playerId = true

/-- Every drive command is emitted in a session in which both players have
asked to join. -/
def DrivesJoined : List Obs → Prop :=
  Throughout fun before o => ∀ e, o = .emitted e → e.drives = true →
    HasSince Obs.session (Obs.Joins playerId1) before ∧
      HasSince Obs.session (Obs.Joins playerId2) before

def Act.session : Act → Option Bool
  | .net .open => some true
  | .net (.close _) => some false
  | _ => none

def Act.Drives (a : Act) : Prop := a = .main .drive ∨ a = .net .tickEmit

/-- Every step that drives is taken in the session that main's startup was in:
the connection was open at the first `join_room`, and neither dropped nor
opened again since. -/
def FirstSession : List Act → Prop :=
  Throughout fun before a => a.Drives → ∃ earlier later,
    before = earlier ++ .main .joinRoom1 :: later ∧
    (since Act.session earlier).isSome ∧ ∀ b ∈ later, b.session = none

/-! ## What a step adds to a session -/

theorem joins_joinRoom (gameId playerId playerId' : String) :
    (joinRoom gameId playerId).joins playerId' = true ↔
      playerId = playerId' := by
  simp [Emission.joins, joinRoom, Sio.insert, Message.getMap, index,
    List.lookup_cons, Message.getString]

theorem joins_drivePlayer (direction playerId : String) :
    (drivePlayer direction).joins playerId = false := by
  simp [Emission.joins, drivePlayer]

theorem drives_drivePlayer (direction : String) :
    (drivePlayer direction).drives = true := by
  simp [Emission.drives, drivePlayer]

theorem drives_joinRoom (gameId playerId : String) :
    (joinRoom gameId playerId).drives = false := by
  simp [Emission.drives, joinRoom]

theorem joins_obs {s : State} {a : Act} {playerId : String} :
    (∃ o ∈ a.obs s, o.Joins playerId) ↔
      (a = .main .joinRoom1 ∧ playerId1 = playerId) ∨
        (a = .main .joinRoom2 ∧ playerId2 = playerId) := by
  simp [Obs.Joins, mem_obs, or_and_right, exists_or, joins_joinRoom,
    joins_drivePlayer]

theorem players_differ : playerId1 ≠ playerId2 := by decide

theorem session_obs {s : State} {a : Act} (ha : a.session = none) :
    ∀ o ∈ a.obs s, o.session = none := by
  intro o ho
  rcases mem_obs.mp ho with ⟨-, rfl⟩ | ⟨-, rfl⟩ | ⟨-, _, -, rfl⟩ | ⟨-, rfl⟩ |
    ⟨rfl, -⟩ | ⟨⟨_, rfl⟩, -⟩ | ⟨_, _, _, -, -, rfl⟩
  all_goals first | rfl | cases ha

/-- The session in the log and the session in the run, up to where main asks
the client to close. -/
structure InSession (as : List Act) (s : State) : Prop where
  live : (since Obs.session s.log).isSome →
    s.client.transport = .up ∧ s.client.conState ≠ .closed
  closing : ¬ 10 < s.main.rank → s.client.conState ≠ .closing
  same : ¬ 10 < s.main.rank →
    ((since Obs.session s.log).isSome ↔ (since Act.session as).isSome)
  first : HasSince Obs.session (Obs.Joins playerId1) s.log ↔
    HasSince Act.session (· = .main .joinRoom1) as
  second : HasSince Obs.session (Obs.Joins playerId1) s.log →
    6 < s.main.rank → HasSince Obs.session (Obs.Joins playerId2) s.log

/-- A step that neither opens nor ends a session keeps the two in step. -/
theorem inSession_unmarked {as : List Act} {s : State} {a : Act}
    (hs : InSession as s) (hen : a.enabled s = true) (ha : a.session = none) :
    (¬ 10 < (a.effect s).main.rank →
      ((since Obs.session (a.effect s).log).isSome ↔
        (since Act.session (as ++ [a])).isSome)) ∧
    (HasSince Obs.session (Obs.Joins playerId1) (a.effect s).log ↔
      HasSince Act.session (· = .main .joinRoom1) (as ++ [a])) ∧
    (HasSince Obs.session (Obs.Joins playerId1) (a.effect s).log →
      6 < (a.effect s).main.rank →
      HasSince Obs.session (Obs.Joins playerId2) (a.effect s).log) := by
  have hobs := session_obs (s := s) ha
  have hact : ∀ b ∈ [a], b.session = none := by simpa using ha
  have h10 := rank_lt_effect hen (b := .syncClose) rfl
  have h6 := rank_lt_effect hen (b := .joinRoom2) rfl
  have hne := players_differ
  rw [effect_log, since_append _ hobs, since_append _ hact,
    hasSince_append _ hobs, hasSince_append _ hact, hasSince_append _ hobs,
    joins_obs, joins_obs, Option.isSome_map, Option.isSome_map]
  simp only [hne, hne.symm, and_true, and_false, or_false, false_or,
    List.mem_singleton, exists_eq_left]
  refine ⟨fun h => hs.same fun hlt => h (h10.mpr (.inr hlt)), ?_, ?_⟩
  · by_cases hjoin : a = .main .joinRoom1
    · subst hjoin
      have hat := (enabled_rank (a := .joinRoom1) hen rfl).1
      rw [hs.first, hs.same (by omega)]
    · simp [hjoin, hs.first]
  · rintro (hfirst | ⟨-, rfl⟩) hrank
    · rcases h6.mp hrank with rfl | hlt
      · exact .inr ⟨hfirst.isSome, rfl⟩
      · exact .inl (hs.second hfirst hlt)
    · have hat := (enabled_rank (a := .joinRoom1) hen rfl).2
      have hat' : (Act.effect s (.main .joinRoom1)).main.rank = 6 := hat
      omega

theorem inSession_open {as : List Act} {s : State} (hs : InSession as s)
    (hen : Act.enabled s (.net .open) = true) :
    InSession (as ++ [.net .open]) (Act.effect s (.net .open)) := by
  have hat : s.client.transport = .connecting := by
    have h := by simpa [Act.enabled, NetAct.enabled] using hen
    exact h.2
  have hdown : since Obs.session s.log = none := by
    cases hsome : since Obs.session s.log with
    | none => rfl
    | some stretch =>
        have hup := (hs.live (by rw [hsome]; rfl)).1
        rw [hat] at hup
        cases hup
  have hclient : (Act.effect s (.net .open)).client = s.client.onOpen.1 :=
    State.callback_client s _
  have hmain : (Act.effect s (.net .open)).main = s.main :=
    State.callback_main s _
  have hact : ∀ Q, ¬ HasSince Act.session Q (as ++ [.net .open]) := fun Q =>
    not_hasSince_marked _ (by simp [Act.session]) as
  have hlog : ∀ Q,
      ¬ HasSince Obs.session Q (Act.effect s (.net .open)).log := by
    intro Q
    rw [effect_log, Act.obs]
    split
    · rw [List.append_nil]
      intro h
      have hsome := h.isSome
      rw [hdown] at hsome
      cases hsome
    · exact not_hasSince_marked _ (by simp [Obs.session]) s.log
  refine ⟨?_, ?_, ?_, ?_, ?_⟩
  · intro _
    rw [hclient]
    exact s.client.onOpen_live
  · rw [hclient, hmain]
    exact fun h => Client.onOpen_not_closing (hs.closing h)
  · rw [hmain, effect_log, Act.obs]
    intro h
    rw [if_neg (hs.closing h), since_snoc, since_snoc]
    exact Iff.rfl
  · exact iff_of_false (hlog _) (hact _)
  · intro h
    exact absurd h (hlog _)

theorem inSession_close {as : List Act} {s : State} {normal : Bool} :
    InSession (as ++ [.net (.close normal)])
      (Act.effect s (.net (.close normal))) := by
  have hclient : (Act.effect s (.net (.close normal))).client =
      (s.client.onClose normal).1 := State.callback_client _ _
  have hact : since Act.session (as ++ [.net (.close normal)]) = none :=
    since_snoc _ _ _
  have hlog : since Obs.session
      (Act.effect s (.net (.close normal))).log = none := by
    rw [effect_log]
    exact since_snoc _ _ _
  have hno : ∀ Q, ¬ HasSince Obs.session Q
      (Act.effect s (.net (.close normal))).log := by
    intro Q h
    have hsome := h.isSome
    rw [hlog] at hsome
    cases hsome
  refine ⟨?_, ?_, ?_, ?_, ?_⟩
  · rw [hlog]
    intro h
    cases h
  · rw [hclient]
    exact fun _ => Client.onClose_not_closing _ normal
  · rw [hlog, hact]
    exact fun _ => Iff.rfl
  · refine iff_of_false (hno _) fun h => ?_
    have hsome := h.isSome
    rw [hact] at hsome
    cases hsome
  · intro h
    exact absurd h (hno _)

theorem session_eq_none {a : Act} (hopen : a ≠ .net .open)
    (hclose : ¬ ∃ normal, a = .net (.close normal)) : a.session = none := by
  cases a with
  | main a => rfl
  | net a =>
      cases a with
      | «open» => exact absurd rfl hopen
      | close normal => exact absurd ⟨normal, rfl⟩ hclose
      | _ => rfl

/-- Only main makes the client close, and then it has come that far. -/
theorem closing_effect {s : State} {a : Act} (hen : a.enabled s = true)
    (hs : ¬ 10 < s.main.rank → s.client.conState ≠ .closing)
    (hrank : ¬ 10 < (a.effect s).main.rank) :
    (a.effect s).client.conState ≠ .closing := by
  have h10 := rank_lt_effect hen (b := .syncClose) rfl
  have hbefore := hs fun hlt => hrank (h10.mpr (.inr hlt))
  by_cases hconn : a.Connects
  · rcases hconn with rfl | rfl | ⟨normal, rfl⟩ | rfl | rfl
    · rw [Act.effect, NetAct.effect, State.callback_client]
      exact Client.onOpen_not_closing hbefore
    · rw [Act.effect, NetAct.effect, State.callback_client]
      exact Client.onFail_not_closing hbefore
    · rw [Act.effect, NetAct.effect, State.callback_client]
      exact Client.onClose_not_closing _ normal
    · exact Client.timeoutReconnect_not_closing hbefore
    · exact absurd (h10.mpr (.inl rfl)) hrank
  · obtain ⟨socket, hclient⟩ := client_effect (s := s) hconn
    rw [hclient]
    exact hbefore

/-- The client's side of `InSession`, through a step that neither opens nor
ends a session. -/
theorem inSession_live {as : List Act} {s : State} {a : Act}
    (hs : InSession as s) (hen : a.enabled s = true) (ha : a.session = none)
    (hsome : (since Obs.session s.log).isSome) :
    (a.effect s).client.transport = .up ∧
      (a.effect s).client.conState ≠ .closed := by
  have hlive := hs.live hsome
  by_cases hconn : a.Connects
  · rcases hconn with rfl | rfl | ⟨normal, rfl⟩ | rfl | rfl
    · cases ha
    · have hat := by simpa [Act.enabled, NetAct.enabled] using hen
      rw [hat.2] at hlive
      cases hlive.1
    · cases ha
    · show s.client.timeoutReconnect.transport = .up ∧
        s.client.timeoutReconnect.conState ≠ .closed
      rw [Client.timeoutReconnect, if_neg hlive.2]
      exact hlive
    · refine ⟨hlive.1, ?_⟩
      show ConState.closing ≠ .closed
      simp
  · obtain ⟨socket, hclient⟩ := client_effect (s := s) hconn
    rw [hclient]
    exact hlive

theorem inSession_run {as : List Act} {s : State}
    (h : program.run as = some s) : InSession as s := by
  refine run_induction (R := InSession) ?_ ?_ h
  · constructor <;> simp [program, since, HasSince]
  · intro as s a t hrun hs ha
    obtain ⟨⟨-, hen⟩, rfl⟩ := step_eq_some.mp ha
    by_cases hopen : a = .net .open
    · subst hopen
      exact inSession_open hs hen
    by_cases hclose : ∃ normal, a = .net (.close normal)
    · obtain ⟨normal, rfl⟩ := hclose
      exact inSession_close
    have hmark := session_eq_none hopen hclose
    obtain ⟨hsame, hfirst, hsecond⟩ := inSession_unmarked hs hen hmark
    refine ⟨fun hsome => inSession_live hs hen hmark ?_,
      closing_effect hen hs.closing, hsame, hfirst, hsecond⟩
    rw [effect_log, since_append _ (session_obs hmark),
      Option.isSome_map] at hsome
    exact hsome

/-! ## Where the drives are -/

theorem drives_obs {s : State} {a : Act} {e : Emission}
    (h : .emitted e ∈ a.obs s) (he : e.drives = true) : a.Drives := by
  rcases mem_obs.mp h with ⟨-, ho⟩ | ⟨-, ho⟩ | ⟨ha, -⟩ | ⟨ha, -⟩ |
    ⟨-, -, ho⟩ | ⟨-, ho⟩ | ⟨_, _, _, -, -, ho⟩
  · rw [Obs.emitted.inj ho, drives_joinRoom] at he
    cases he
  · rw [Obs.emitted.inj ho, drives_joinRoom] at he
    cases he
  · exact .inl ha
  · exact .inr ha
  all_goals cases ho

/-- Main only drives in the key loop, and the tick listener only when it is
bound. -/
theorem rank_of_drives {as : List Act} {s : State} {a : Act}
    (h : program.run as = some s) (hen : a.enabled s = true)
    (ha : a.Drives) : 8 < s.main.rank := by
  rcases ha with rfl | rfl
  · obtain ⟨direction, hat⟩ := enabled_drive hen
    rw [hat]
    show 8 < 9
    omega
  · have hat := by simpa [Act.enabled, NetAct.enabled] using hen
    exact rank_of_ticking h (by rw [hat.1]; rfl)

theorem exists_obs_of_drives {s : State} {a : Act}
    (hen : a.enabled s = true) (ha : a.Drives) :
    ∃ direction, .emitted (drivePlayer direction) ∈ a.obs s := by
  rcases ha with rfl | rfl
  · obtain ⟨direction, hat⟩ := enabled_drive hen
    refine ⟨direction, ?_⟩
    rw [Act.obs, hat]
    exact List.mem_singleton_self _
  · exact ⟨autoDirection, List.mem_singleton_self _⟩

theorem hasSince_joinRoom1 {as : List Act} :
    HasSince Act.session (· = .main .joinRoom1) as ↔ ∃ earlier later,
      as = earlier ++ .main .joinRoom1 :: later ∧
      (since Act.session earlier).isSome ∧ ∀ b ∈ later, b.session = none := by
  have hjoin : ∀ a : Act, a = .main .joinRoom1 → a.session = none := by
    rintro a rfl
    rfl
  rw [hasSince_iff_split _ hjoin]
  simp

/-- What a step owes the log and what it owes the run are the same. -/
theorem drive_step_iff {as : List Act} {s : State} {a : Act}
    (h : program.run as = some s) (hen : a.enabled s = true) :
    (∀ o ∈ a.obs s, ∀ e, o = .emitted e → e.drives = true →
      HasSince Obs.session (Obs.Joins playerId1) s.log ∧
        HasSince Obs.session (Obs.Joins playerId2) s.log) ↔
    (a.Drives → ∃ earlier later, as = earlier ++ .main .joinRoom1 :: later ∧
      (since Act.session earlier).isSome ∧ ∀ b ∈ later, b.session = none) := by
  have hs := inSession_run h
  rw [← hasSince_joinRoom1, ← hs.first]
  refine ⟨fun hlog => ?_, fun hrun => ?_⟩
  · intro ha
    obtain ⟨direction, hmem⟩ := exists_obs_of_drives hen ha
    exact (hlog _ hmem _ rfl (drives_drivePlayer direction)).1
  · intro o ho e heq he
    subst heq
    have ha := drives_obs ho he
    have hfirst := hrun ha
    have hrank := rank_of_drives h hen ha
    exact ⟨hfirst, hs.second hfirst (by omega)⟩

/-- In every run each drive command is emitted in a session that both players
have asked to join in, exactly when the session of main's startup lasts until
then. -/
theorem drivesJoined_iff {as : List Act} {s : State}
    (h : program.run as = some s) : DrivesJoined s.log ↔ FirstSession as :=
  log_throughout_iff (fun hs hen => drive_step_iff hs hen) h

/-- `w` is pressed. -/
def keyW : List Act := [.main (.getch 119), .main .drive]

/-- Both requests to join are made in a session that the server has accepted,
it is lost, and a key is pressed when the next one is accepted. -/
def driveAfterDrop : List Act :=
  connectedThen (.net .connectPacket :: startup ++
    [.net (.close false), .net .reconnect, .net .open, .net .openLock,
      .net .openNotify, .net .openSet, .net .openUnlock,
      .net .connectPacket] ++ keyW)

/-- The drive is emitted in a session that nobody has asked to join. -/
theorem drivesJoined_fails :
    ∃ s, program.run driveAfterDrop = some s ∧ ¬ DrivesJoined s.log := by
  refine ⟨_, rfl, fun h => ?_⟩
  have hlast := h [.opened, .emitted (joinRoom gameId playerId1),
    .emitted (joinRoom gameId playerId2), .closed, .opened]
    (.emitted (drivePlayer "3")) [] rfl (drivePlayer "3") rfl (by decide)
  obtain ⟨stretch, hs, o, ho, -⟩ := hlast.1
  obtain rfl : [] = stretch := Option.some.inj hs
  cases ho

/-- The session lasts until the key is pressed. -/
def driveInSession : List Act :=
  connectedThen (.net .connectPacket :: startup ++ keyW)

theorem drivesJoined_driveInSession : ∃ s,
    program.run driveInSession = some s ∧
      (DrivesJoined s.log ↔ FirstSession driveInSession) ∧
      DrivesJoined s.log := by
  have hrun : program.run driveInSession = some _ := rfl
  have hiff := drivesJoined_iff hrun
  have hlast : driveInSession = (connectedThen (.net .connectPacket ::
    startup ++ [.main (.getch 119)])) ++ [.main .drive] := rfl
  refine ⟨_, hrun, hiff, hiff.mpr ?_⟩
  rw [FirstSession, hlast, throughout_snoc]
  refine ⟨?_, ?_⟩
  · intro before a after heq hdrives
    have hmem : a ∈ connectedThen (.net .connectPacket :: startup ++
        [.main (.getch 119)]) := by
      rw [heq]
      exact List.mem_append_right _ List.mem_cons_self
    rcases hdrives with rfl | rfl
    · simp [connectedThen, startup] at hmem
    · simp [connectedThen, startup] at hmem
  · intro _
    refine ⟨connectedThen [.net .connectPacket], [.main .joinRoom2,
      .main .bindJoinGame, .main .bindTicktackPlayer, .main (.getch 119)],
      rfl, rfl, ?_⟩
    simp [Act.session]

end Codefest
