import Codefest.Proofs.Quitting
import Codefest.Proofs.Mutex
import Codefest.Proofs.Ticktack

/-!
# What a payload can do to a run

Between the packet that brings an event and the body of its listener, nothing
that either thread does touches the event or the game. So a run owes to its
payloads exactly what the two bodies owe to theirs, whatever comes in between.

An event with a null where the listener looks is fatal: once it has come, the
network thread goes nowhere but into it, the connection cannot end in the
meantime, and nothing else stops the program. A greeting, an answer or an event
may also be fatal to the client before any listener is called, as is a payload
that the manager throws at, and a ping that comes when `m_con` refers to
nothing. Without any of these the program is never stopped by a null pointer or
by an exception.
-/

namespace Codefest

open Sio Sequence Transition System Listening

/-- The listener whose body the thread has still ahead of it. -/
def NetPc.ahead : NetPc → Option Listener
  | joinLock | joinBody => some .joinGame
  | tickLock | tickMap => some .ticktackPlayer
  | _ => none

/-- Neither an event nor a body. -/
structure Framed (s t : State) : Prop where
  ahead : t.net.ahead = s.net.ahead
  event : t.event = s.event
  game : t.game = s.game
  status : t.status = .crashed → s.status = .crashed

theorem framed_callback {s : State} (r : Client Listener × Callback)
    (hnet : s.net = .idle) : Framed s (s.callback r) := by
  unfold State.callback
  split
  · exact ⟨rfl, rfl, rfl, id⟩
  · exact ⟨by rw [hnet]; rfl, rfl, rfl, id⟩
  · exact ⟨rfl, rfl, rfl, fun h => by cases h⟩
  · exact ⟨rfl, rfl, rfl, fun h => by cases h⟩

theorem framed_main {s : State} (a : MainAct) : Framed s (a.effect s) := by
  refine ⟨by rw [main_net], ?_, ?_, ?_⟩
  all_goals
    cases a with
    | drive =>
        rw [MainAct.effect]
        split
        · first | rfl | exact id
        · first | rfl | exact id
    | finish => first | rfl | exact fun h => by cases h
    | _ => first | rfl | exact id

/-- There are three steps that matter. -/
theorem framed_effect {s : State} {a : Act} (h : a.enabled s = true) :
    (∃ msg packId, a = .net (.eventPacket msg packId)) ∨ a = .net .joinBody ∨
      a = .net .tickMap ∨ a.event? = none ∧ Framed s (a.effect s) := by
  cases a with
  | main a => exact .inr (.inr (.inr ⟨rfl, framed_main a⟩))
  | net a =>
      cases a with
      | eventPacket msg packId => exact .inl ⟨msg, packId, rfl⟩
      | joinBody => exact .inr (.inl rfl)
      | tickMap => exact .inr (.inr (.inl rfl))
      | «open» | fail =>
          have hat := by simpa [Act.enabled, NetAct.enabled] using h
          exact .inr (.inr (.inr ⟨rfl, framed_callback _ hat.1⟩))
      | close normal =>
          have hat := by simpa [Act.enabled, NetAct.enabled] using h
          have hcallback := framed_callback (s := { s with
            log := s.log ++ [.closed] }) (s.client.onClose normal) hat.1
          exact .inr (.inr (.inr ⟨rfl, hcallback.ahead, hcallback.event,
            hcallback.game, hcallback.status⟩))
      | tickCount =>
          have hat : s.net = .tickCount := by
            simpa [Act.enabled, NetAct.enabled] using h
          refine .inr (.inr (.inr ⟨rfl, ?_, rfl, rfl, id⟩))
          rw [hat, Act.effect, NetAct.effect]
          dsimp only
          split <;> rfl
      | reconnect | connectPacket =>
          exact .inr (.inr (.inr ⟨rfl, rfl, rfl, rfl, id⟩))
      | openLock | openNotify | openSet | openUnlock | joinLock | joinUnlock
      | tickLock | tickEmit | tickReset | tickUnlock | ack =>
          have hat := by simpa [Act.enabled, NetAct.enabled] using h
          refine .inr (.inr (.inr ⟨rfl, ?_, rfl, rfl, id⟩))
          simp [hat, Act.effect, NetAct.effect, State.emit, NetPc.ahead]

/-! ## Payloads with a null in them -/

/-- No pointer that the `join game` listener follows is null. -/
def JoinReads (data : Ptr) : Prop :=
  ∃ d gameId playerId, data = some d ∧ index d.getMap "game_id" = some gameId ∧
    index d.getMap "player_id" = some playerId

theorem onJoinGame_ok_iff (data : Ptr) :
    (∃ r, onJoinGame data = .ok r) ↔ JoinReads data := by
  simp only [onJoinGame, bind_eq_ok, deref_eq_ok]
  refine ⟨fun h => ?_, fun h => ?_⟩
  · obtain ⟨-, d, hd, gameId, hgame, playerId, hplayer, -⟩ := h
    exact ⟨d, gameId, playerId, hd, hgame, hplayer⟩
  · obtain ⟨d, gameId, playerId, hd, hgame, hplayer⟩ := h
    exact ⟨_, d, hd, gameId, hgame, playerId, hplayer, rfl⟩

/-- The listener gets through the event. -/
def Sio.Event.Harmless (ev : Event) : Option Listener → Prop
  | some .joinGame => JoinReads ev.getMessage
  | some .ticktackPlayer => NoNull ev.getMessage
  | none => True

theorem update_ok_iff (data : Ptr) (g : Game) :
    (exec (updateFromPayload data) g).1 = .ok () ↔ NoNull data := by
  rw [← onTicktackPlayer_safe_iff data ⟨g, 0, []⟩,
    (onTicktackPlayer_game data _).1]

/-- A body ends in a fault exactly when the event is not harmless to it. -/
theorem crashed_body {s : State} {a : NetAct} (hstatus : s.status = .running)
    (h : a.enabled s = true) (ha : a = .joinBody ∨ a = .tickMap) :
    (a.effect s).event = s.event ∧
      (s.event.Harmless s.net.ahead →
        (a.effect s).status = .running ∧ (a.effect s).net.ahead = none) ∧
      (¬ s.event.Harmless s.net.ahead →
        (a.effect s).status = .crashed ∧ (a.effect s).net = s.net) := by
  rcases ha with rfl | rfl
  · have hat : s.net = .joinBody := by simpa [NetAct.enabled] using h
    have hiff := onJoinGame_ok_iff s.event.getMessage
    rw [NetAct.effect, hat]
    cases hbody : onJoinGame s.event.getMessage with
    | ok r =>
        refine ⟨rfl, fun _ => ⟨hstatus, rfl⟩, fun hno => ?_⟩
        exact absurd (hiff.mp ⟨r, hbody⟩) hno
    | error e =>
        refine ⟨rfl, fun hyes => ?_, fun _ => ⟨rfl, rfl⟩⟩
        obtain ⟨r, hr⟩ := hiff.mpr hyes
        rw [hbody] at hr
        cases hr
  · have hat : s.net = .tickMap := by simpa [NetAct.enabled] using h
    have hiff := update_ok_iff s.event.getMessage s.game
    rw [NetAct.effect, hat]
    rcases hbody : exec (updateFromPayload s.event.getMessage) s.game with
      ⟨e | u, game⟩
    · refine ⟨rfl, fun hyes => ?_, fun _ => ⟨rfl, rfl⟩⟩
      rw [hbody] at hiff
      cases hiff.mpr hyes
    · refine ⟨rfl, fun _ => ⟨hstatus, rfl⟩, fun hno => ?_⟩
      rw [hbody] at hiff
      exact absurd (hiff.mp rfl) hno

/-- An event comes to an idle thread, which then has its listener ahead. -/
theorem deliver_ahead {s : State} {msg : Ptr} {packId : Int} {ev : Event}
    (hev : unpackEvent msg packId = .ok (some ev)) :
    (s.deliver msg packId).event = ev ∧
      (s.deliver msg packId).status = s.status ∧
      (s.deliver msg packId).net.ahead = s.client.listener ev.name := by
  rw [State.deliver, hev]
  refine ⟨rfl, rfl, ?_⟩
  dsimp only
  cases s.client.listener ev.name with
  | none => rfl
  | some listener => cases listener <;> rfl

/-! ## Without one -/

/-- What one step does to the events and the game. -/
theorem ProcessStep.framed {s t : Process} {a : ProcessAct}
    (h : ProcessStep s a t) :
    (∃ p ev, a = .packet p ∧ a.event? = some ev ∧
      unpackEvent p.message p.packId = .ok (some ev) ∧
      s.program.net = .idle ∧
      t.program = s.program.deliver p.message p.packId) ∨
    (∃ b : NetAct, (b = .joinBody ∨ b = .tickMap) ∧ a.event? = none ∧
      b.enabled s.program = true ∧ t.program = b.effect s.program) ∨
    (s.program.client.socket.isSome = true → a.event? = none) ∧
      (s.Fatal a ∧ s.program.net = .idle ∧ t = s.crash ∨
        Framed s.program t.program) := by
  cases h with
  | @step _ b hen hlost hlabel hevent =>
      have hprogram := Process.act_program hlost
      rcases framed_effect hen with ⟨msg, packId, rfl⟩ | rfl | rfl |
        ⟨hnone, hframe⟩
      · obtain ⟨p, rfl, hmsg, ev, hev⟩ : ∃ p, a = .packet p ∧
            (Act.net (.eventPacket msg packId) =
                .net (.eventPacket p.message p.packId)) ∧
              ∃ ev, unpackEvent p.message p.packId = .ok (some ev) := by
          rcases hlabel with ⟨-, hpacket⟩ | ⟨p, rfl, hconnect | hbrings⟩
          · cases hpacket
          · cases hconnect
          · exact ⟨p, rfl, hbrings⟩
        cases hmsg
        have hat := by simpa [Act.enabled, NetAct.enabled] using hen
        refine .inl ⟨p, ev, rfl, ?_, hev, hat.1, hprogram⟩
        rw [hevent, Act.event?, hev]
      · exact .inr (.inl ⟨_, .inl rfl, hevent, hen, hprogram⟩)
      · exact .inr (.inl ⟨_, .inr rfl, hevent, hen, hprogram⟩)
      · rw [← hprogram] at hframe
        exact .inr (.inr ⟨fun _ => hevent.trans hnone, .inr hframe⟩)
  | @aside b k hk hb hen =>
      refine .inr (.inr ⟨fun _ => rfl, .inr ?_⟩)
      have hcurrent := Process.current_eq hk
      rcases framed_effect hen with ⟨msg, packId, rfl⟩ | rfl | rfl |
        ⟨-, hframe⟩
      · cases hb
      · cases hb
      · cases hb
      · refine ⟨hframe.ahead.trans ?_, hframe.event.trans ?_,
          hframe.game.trans ?_, fun hcrash => ?_⟩
        · rw [hcurrent]
        · rw [hcurrent]
        · rw [hcurrent]
        · have hold := hframe.status hcrash
          rwa [hcurrent] at hold
  | lose due _ _ hnone =>
      exact .inr (.inr ⟨fun _ => hnone, .inr ⟨rfl, rfl, rfl, id⟩⟩)
  | crash hidle hfatal hnone =>
      exact .inr (.inr ⟨fun hs => (hnone hs).1, .inl ⟨hfatal, hidle, rfl⟩⟩)
  | quiet hprogram _ _ _ _ hnone =>
      refine .inr (.inr ⟨fun hs => (hnone hs).1, .inr ?_⟩)
      rw [hprogram]
      exact ⟨rfl, rfl, rfl, id⟩

/-- A tick of the game, with an empty map and no players. -/
def tickPacket : RawPacket :=
  { Packet.raw [47] (.event (.array [some (.string "ticktack player"),
      some (.object [("map_info", some (.object
        [("map", some (.array [])), ("players", some (.array []))]))])])) with
    packId := 7 }

/-- A tick comes into the key loop, a ping, and the end of the namespace. -/
def tickAndPing : List ProcessAct :=
  (connectedThen startup).map .act ++
    [.packet tickPacket, .act (.net .tickLock), .act (.net .tickMap),
      .act (.net .tickCount), .act (.net .tickUnlock), .act (.net .ack),
      .packet { frame := .ping }, .packet (Packet.raw [47] .disconnect)]

/-- On the way to the fault, or there. -/
def Doomed (s : State) : Prop :=
  s.status ≠ .exited ∧ ¬ s.event.Harmless s.net.ahead

theorem Doomed.net {s : State} (h : Doomed s) :
    s.net ≠ .idle ∧ s.net ≠ .ack ∧ s.current = some s.event := by
  obtain ⟨-, hharm⟩ := h
  cases hnet : s.net with
  | joinLock | joinBody | tickLock | tickMap =>
      simp [State.current, hnet, NetPc.handles]
  | _ =>
      rw [hnet] at hharm
      exact absurd trivial hharm

theorem doomed_step {as : List Act} {s t : State} {a : Act}
    (h : program.run as = some s) (hs : Doomed s)
    (hstep : program.step s a = some t) : Doomed t := by
  obtain ⟨⟨hstatus, hen⟩, rfl⟩ := step_eq_some.mp hstep
  obtain ⟨hidle, -, hcurrent⟩ := hs.net
  have hup := (handling_run h _ hcurrent).2
  have hexit : (a.effect s).status ≠ .exited := by
    intro hexit
    rcases status_effect hstatus hexit with rfl | rfl | rfl | ⟨normal, rfl⟩
    · have hat := by simpa [Act.enabled, MainAct.enabled] using hen
      rw [hup] at hat
      cases hat.2.1
    all_goals
      have hat := by simpa [Act.enabled, NetAct.enabled] using hen
      exact hidle hat.1
  refine ⟨hexit, ?_⟩
  rcases framed_effect hen with ⟨msg, packId, rfl⟩ | rfl | rfl | ⟨-, hframe⟩
  · have hat := by simpa [Act.enabled, NetAct.enabled] using hen
    exact absurd hat.1 hidle
  · have hbody : NetAct.enabled s .joinBody = true := hen
    obtain ⟨hevent, -, hcrash⟩ := crashed_body hstatus hbody (.inl rfl)
    rw [Act.effect, hevent, (hcrash hs.2).2]
    exact hs.2
  · have hbody : NetAct.enabled s .tickMap = true := hen
    obtain ⟨hevent, -, hcrash⟩ := crashed_body hstatus hbody (.inr rfl)
    rw [Act.effect, hevent, (hcrash hs.2).2]
    exact hs.2
  · rw [hframe.event, hframe.ahead]
    exact hs.2

/-- A packet that its listener does not get through is the last one: whatever
the threads do, no other packet is looked at and none is answered, the program
does not end in another way, and where nothing can be done without a key or the
network, it has crashed. -/
theorem fatal_run {as bs : List Act} {s t u : State} {msg : Ptr} {packId : Int}
    {ev : Event} (h : program.run as = some s)
    (hstep : program.step s (.net (.eventPacket msg packId)) = some t)
    (hev : unpackEvent msg packId = .ok (some ev))
    (hharm : ¬ ev.Harmless (s.client.listener ev.name))
    (hbs : program.runFrom t bs = some u) :
    (∀ b ∈ bs, b ≠ .net .ack ∧ b ≠ .net .connectPacket ∧
      ∀ msg packId, b ≠ .net (.eventPacket msg packId)) ∧
    u.status ≠ .exited ∧
    ((∀ b : Act, b.internal = true → program.step u b = none) →
      u.status = .crashed) := by
  have ht : program.run (as ++ [.net (.eventPacket msg packId)]) = some t :=
    run_snoc.mpr ⟨s, h, hstep⟩
  have hdoomed : Doomed t := by
    obtain ⟨⟨hstatus, -⟩, rfl⟩ := step_eq_some.mp hstep
    obtain ⟨hevent, hst, hahead⟩ := deliver_ahead (s := s) hev
    refine ⟨?_, ?_⟩
    · rw [Act.effect, NetAct.effect, hst, hstatus]
      simp
    · rw [Act.effect, NetAct.effect, hevent, hahead]
      exact hharm
  have hafter : ∀ cs v, program.runFrom t cs = some v →
      (∃ as, program.run as = some v) ∧ Doomed v := by
    intro cs v hv
    refine runFrom_invariant
      (I := fun v => (∃ as, program.run as = some v) ∧ Doomed v)
      (fun v a w hI ha => ?_) ⟨⟨_, ht⟩, hdoomed⟩ hv
    obtain ⟨⟨as, hrun⟩, hd⟩ := hI
    exact ⟨⟨_, run_snoc.mpr ⟨v, hrun, ha⟩⟩, doomed_step hrun hd ha⟩
  obtain ⟨⟨cs, hu⟩, hlast⟩ := hafter bs u hbs
  refine ⟨fun b hb => ?_, hlast.1, fun hstuck => ?_⟩
  · obtain ⟨before, after, rfl⟩ := List.append_of_mem hb
    rw [runFrom_append] at hbs
    obtain ⟨v, hv, hrest⟩ := Option.bind_eq_some_iff.mp hbs
    obtain ⟨w, hw, -⟩ := Option.bind_eq_some_iff.mp hrest
    obtain ⟨hidle, hack, -⟩ := (hafter before v hv).2.net
    obtain ⟨⟨-, hen⟩, -⟩ := step_eq_some.mp hw
    refine ⟨?_, ?_, ?_⟩
    · rintro rfl
      exact hack (by simpa [Act.enabled, NetAct.enabled] using hen)
    · rintro rfl
      have hat := by simpa [Act.enabled, NetAct.enabled] using hen
      exact hidle hat.1
    · rintro msg packId rfl
      have hat := by simpa [Act.enabled, NetAct.enabled] using hen
      exact hidle hat.1
  · cases hstatus : u.status with
    | crashed => rfl
    | exited => exact absurd hstatus hlast.1
    | running =>
        have hnil : ∀ b ∈ ([] : List Act), b.internal = true := by simp
        have hrest := (settles hu hnil rfl).2 hstatus hstuck
        exact absurd hrest.net hlast.net.1

/-- A tick without a payload. -/
def emptyTick : Act :=
  .net (.eventPacket (some (.array [some (.string "ticktack player")])) (-1))

theorem fatal_emptyTick : ∃ s t u,
    program.run (connectedThen startup) = some s ∧
    program.step s emptyTick = some t ∧
    program.runFrom t [.net .tickLock, .net .tickMap] = some u ∧
    (∀ b ∈ [Act.net .tickLock, .net .tickMap], b ≠ .net .ack ∧
      b ≠ .net .connectPacket ∧
      ∀ msg packId, b ≠ .net (.eventPacket msg packId)) ∧
    u.status ≠ .exited ∧
    ((∀ b : Act, b.internal = true → program.step u b = none) →
      u.status = .crashed) := by
  have hrun : program.run (connectedThen startup) = some _ := rfl
  have hev :
      unpackEvent (some (.array [some (.string "ticktack player")])) (-1) =
        .ok (some ⟨"ticktack player", [], none⟩) := rfl
  refine ⟨_, _, _, hrun, rfl, rfl, fatal_run hrun rfl hev ?_ rfl⟩
  rw [listener_run hrun]
  rintro ⟨d, -, -, -, hd, -⟩
  cases hd

end Codefest
