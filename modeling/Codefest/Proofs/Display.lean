import Codefest.Proofs.Payloads

/-!
# The grid on display

What the game shows is the last grid that could be read. Read are the tick
events that find the listener of main bound, so they come after main has bound
it, and before main's socket lets go of the client. `ticks` takes them from the
labels of a run alone. Of these every one is read before the next one comes, and
the last may still be on its way.
-/

namespace Codefest

open Sio Sequence Transition System Listening

namespace ProcessAct

/-- Main's step. -/
def does (b : MainAct) : ProcessAct → Bool
  | act (.main a) => a = b
  | _ => false

theorem does_iff {b : MainAct} {a : ProcessAct} :
    a.does b = true ↔ a = .act (.main b) := by
  unfold does
  split
  · simp
  · rename_i hne
    refine ⟨fun h => ?_, fun h => absurd h (hne b)⟩
    cases h

end ProcessAct

/-- The part of a run in which main's socket has its client. -/
def mine (as : List ProcessAct) : List ProcessAct :=
  upTo ProcessAct.closes (onward (ProcessAct.does .socket) as)

/-- The tick events that came to main's socket after main had bound its
listener. -/
def ticks (as : List ProcessAct) : List Event :=
  (heard (onward (ProcessAct.does .bindTicktackPlayer) (mine as))).filter
    (·.name = "ticktack player")

theorem any_does {as : List ProcessAct} {s : Process}
    (h : process.run as = some s) {b : MainAct} {r : Nat}
    (hb : b.rank? = some r) :
    as.any (ProcessAct.does b) = true ↔ r < s.program.main.rank := by
  rw [← mem_act_iff_rank h hb, List.any_eq_true]
  refine ⟨fun hany => ?_, fun hmem => ⟨_, hmem, ProcessAct.does_iff.mpr rfl⟩⟩
  obtain ⟨a, ha, hdoes⟩ := hany
  rwa [ProcessAct.does_iff.mp hdoes] at ha

section Steps

variable {s t : Process} {a : ProcessAct}

/-- The end of the root socket is not an event. -/
theorem ProcessStep.event_closes (h : ProcessStep s a t)
    (hsock : s.program.client.socket.isSome = true) (ha : a.closes = true) :
    a.event? = none := by
  cases h with
  | step _ _ _ _ hopen =>
      rw [hopen] at ha
      cases ha
  | aside => cases ha
  | lose due _ _ hnone => exact hnone
  | crash _ _ hnone => exact (hnone hsock).1
  | quiet _ _ _ _ _ hnone => exact (hnone hsock).1

end Steps

/-- What the labels say of main's socket. -/
structure Kept (as : List ProcessAct) (s : Process) : Prop where
  lost : s.lost.isSome =
    (onward (ProcessAct.does .socket) as).any ProcessAct.closes
  binds : s.lost = none → ((onward (ProcessAct.does .socket) as).any
    (ProcessAct.does .bindTicktackPlayer) = true ↔ 8 < s.program.main.rank)

theorem onward_socket {as : List ProcessAct} {s t : Process} {a : ProcessAct}
    (hrun : process.run as = some s) (hcases : ProcessStep s a t) :
    onward (ProcessAct.does .socket) (as ++ [a]) =
      onward (ProcessAct.does .socket) as ++
        (if 4 < t.program.main.rank then [a] else []) := by
  have hrank : (as.any (ProcessAct.does .socket) ||
      a.does .socket) = true ↔ 4 < t.program.main.rank := by
    rw [Bool.or_eq_true, any_does hrun (b := .socket) rfl,
      ProcessAct.does_iff, hcases.rank (b := .socket) rfl, or_comm]
  rw [onward_snoc]
  simp only [hrank]

theorem kept_step {as : List ProcessAct} {s t : Process} {a : ProcessAct}
    (hrun : process.run as = some s) (hcases : ProcessStep s a t)
    (h : Kept as s) : Kept (as ++ [a]) t := by
  have hs := sound_run hrun
  have hrank := hcases.rank (b := .socket) rfl
  cases hl : s.lost with
  | some k =>
      have hsome : s.lost.isSome = true := by rw [hl]; rfl
      have hlost := hcases.lost hsome
      refine ⟨?_, fun hnone => ?_⟩
      · rw [onward_socket hrun hcases, List.any_append, ← h.lost, hlost, hsome]
        rfl
      · rw [hlost, hl] at hnone
        cases hnone
  | none =>
      have hloses := hcases.loses hs hl
      have hbinds := h.binds hl
      have hclosed := h.lost
      rw [hl] at hclosed
      refine ⟨?_, fun _ => ?_⟩
      · have hlater : a.closes = true →
            (4 < t.program.main.rank ↔ 4 < s.program.main.rank) := by
          intro hcloses
          rw [hrank]
          refine or_iff_right ?_
          rintro rfl
          cases hcloses
        rw [onward_socket hrun hcases, List.any_append, ← hclosed,
          Bool.eq_iff_iff, hloses]
        cases hcloses : a.closes with
        | false => split <;> simp [hcloses]
        | true =>
            rw [← hlater hcloses]
            by_cases h4 : 4 < t.program.main.rank
            · simp only [h4, if_pos, List.any_cons, hcloses]
              simp
            · simp only [h4]
              simp
      · rw [onward_socket hrun hcases, List.any_append, Bool.or_eq_true, hbinds,
          hcases.rank (b := .bindTicktackPlayer) rfl, or_comm]
        refine or_congr_left ?_
        rw [← ProcessAct.does_iff]
        split
        · simp
        · rename_i hnot
          refine iff_of_false (by simp) fun hdoes => hnot ?_
          -- main binds only after it has its socket
          have hbound := (hcases.rank (b := .bindTicktackPlayer) rfl).mpr
            (.inl (ProcessAct.does_iff.mp hdoes))
          omega

theorem kept_run {as : List ProcessAct} {s : Process}
    (h : process.run as = some s) : Kept as s := by
  refine run_induction (R := Kept) ?_ ?_ h
  · refine ⟨rfl, fun _ => ?_⟩
    simp [onward, process, MainPc.rank]
  · intro as s a t hrun ih ha
    exact kept_step hrun (step_cases ha).2 ih

theorem heard_singleton (a : ProcessAct) : heard [a] = a.event?.toList := by
  rw [heard_cons]
  exact List.append_nil _

/-- One more step brings a tick if main has bound its listener and its socket
has its client. -/
theorem ticks_snoc {as : List ProcessAct} {s t : Process} {a : ProcessAct}
    (hrun : process.run as = some s) (hcases : ProcessStep s a t) :
    ticks (as ++ [a]) =
      ticks as ++ (if s.lost = none ∧ 8 < s.program.main.rank then
        a.event?.toList.filter (·.name = "ticktack player") else []) := by
  have hkept := kept_run hrun
  have hs := sound_run hrun
  cases hl : s.lost with
  | some k =>
      have hclosed := hkept.lost
      rw [hl] at hclosed
      have hsame : mine (as ++ [a]) = mine as := by
        rw [mine, onward_socket hrun hcases]
        split
        · rw [upTo_snoc, ← hclosed]
          exact List.append_nil _
        · rw [List.append_nil]
          rfl
      rw [ticks, hsame]
      simp [ticks]
  | none =>
      have hclosed := hkept.lost
      rw [hl] at hclosed
      have hmine : mine as = onward (ProcessAct.does .socket) as :=
        upTo_eq_self hclosed.symm
      have hbinds := hkept.binds hl
      by_cases h4 : 4 < t.program.main.rank
      · -- the step is main's, unless it ends the socket, and then is no event
        have hnew : mine (as ++ [a]) =
            mine as ++ (if a.closes then [] else [a]) := by
          rw [mine, onward_socket hrun hcases, if_pos h4, upTo_snoc, ← hclosed]
          rfl
        cases hcloses : a.closes with
        | true =>
            have hrank : 4 < s.program.main.rank := by
              rcases (hcases.rank (b := .socket) rfl).mp h4 with rfl | hlt
              · cases hcloses
              · exact hlt
            have hevent := hcases.event_closes (hs.socket hl hrank) hcloses
            rw [ticks, hnew, hcloses, hevent]
            simp [ticks]
        | false =>
            rw [ticks, hnew, hcloses, if_neg Bool.false_ne_true, onward_snoc,
              heard_append, List.filter_append, ← ticks]
            refine congrArg (ticks as ++ ·) ?_
            cases hdoes : a.does .bindTicktackPlayer with
            | true =>
                obtain rfl := ProcessAct.does_iff.mp hdoes
                simp [heard_singleton, ProcessAct.event?]
            | false =>
                rw [← hmine] at hbinds
                simp only [Bool.or_false, hbinds, true_and]
                split
                · rw [heard_singleton]
                · rfl
      · have hnew : mine (as ++ [a]) = mine as := by
          rw [mine, onward_socket hrun hcases, if_neg h4, List.append_nil]
          rfl
        have h8 : ¬ 8 < s.program.main.rank := by
          have hrank := hcases.rank (b := .socket) rfl
          omega
        rw [ticks, hnew]
        simp [ticks, h8]

/-! ## What is read of them -/

/-- The tick event that came last, as long as its payload has not been read. -/
def State.unread (s : State) : Option Event :=
  if s.status ≠ .crashed ∧ s.net.ahead = some .ticktackPlayer then some s.event
  else none

/-- The grid that `updateMap` makes of an event's payload, if it gets that
far. -/
def grid? (ev : Event) : Option (List (List Int32)) :=
  match readPayload ev.getMessage with
  | .ok r => some r.2
  | .error _ => none

/-- What is left of a number of payloads, one after the other. -/
def shown (evs : List Event) : List (List Int32) :=
  ((evs.filterMap grid?).getLast?).getD []

theorem shown_snoc (evs : List Event) (ev : Event) :
    shown (evs ++ [ev]) = (grid? ev).getD (shown evs) := by
  rw [shown, List.filterMap_append]
  cases hgrid : grid? ev <;> simp [shown, hgrid]

theorem update_grid (ev : Event) (g : Game) :
    (exec (updateFromPayload ev.getMessage) g).2.mapGame.map =
      (grid? ev).getD g.mapGame.map := by
  rw [updateFromPayload_exec, grid?]
  cases readPayload ev.getMessage <;> rfl

theorem unread_of {s : State} (h : s.net.ahead ≠ some .ticktackPlayer) :
    s.unread = none :=
  if_neg fun hboth => h hboth.2

theorem unread_eq_of {s t : State} (hs : s.status = .running)
    (h : Framed s t) : t.unread = s.unread := by
  have hcrash : t.status ≠ .crashed := fun hcrash => by
    have hold := h.status hcrash
    rw [hs] at hold
    cases hold
  simp [State.unread, h.ahead, h.event, hs, hcrash]

theorem unread_joinBody {s : State} (hat : s.net = .joinBody) :
    (NetAct.effect s .joinBody).unread = none := by
  rw [NetAct.effect]
  split
  · exact unread_of (by simp [NetPc.ahead])
  · exact unread_of (by simp [hat, NetPc.ahead])

/-- The body reads the event that was not read yet. -/
theorem game_tickMap {s : State} (hstatus : s.status = .running)
    (h : NetAct.enabled s .tickMap = true) :
    s.unread = some s.event ∧ (NetAct.effect s .tickMap).unread = none ∧
      (NetAct.effect s .tickMap).game.mapGame.map =
        (grid? s.event).getD s.game.mapGame.map := by
  have hat : s.net = .tickMap := by simpa [NetAct.enabled] using h
  refine ⟨?_, ?_, ?_⟩
  · rw [State.unread, hat, hstatus]
    rfl
  · rw [NetAct.effect]
    split
    · exact unread_of (by simp [NetPc.ahead])
    · exact if_neg (by simp)
  · rw [← update_grid, NetAct.effect]
    split <;> simp [*]

/-- An event is on its way to be read if its listener is the tick listener. -/
theorem unread_deliver {s : State} {msg : Ptr} {packId : Int} {ev : Event}
    (hev : unpackEvent msg packId = .ok (some ev))
    (hstatus : s.status = .running) :
    (s.deliver msg packId).unread =
      if s.client.listener ev.name = some .ticktackPlayer then some ev
      else none := by
  obtain ⟨hevent, hst, hahead⟩ := deliver_ahead (s := s) hev
  have hrunning : s.status ≠ .crashed := by simp [hstatus]
  rw [State.unread, hevent, hst, hahead]
  simp [hrunning]

/-- The listener of an event is the tick listener if it has its name and main
has come so far. -/
theorem bound_tick_iff {rank : Nat} {name : String} :
    bound rank name = some .ticktackPlayer ↔
      8 < rank ∧ name = "ticktack player" := by
  unfold bound
  split
  · rename_i hjoin
    simp [hjoin.1]
  · rename_i hjoin
    split
    · rename_i htick
      simp [htick]
    · rename_i htick
      refine ⟨fun h => ?_, fun h => absurd ⟨h.2, h.1⟩ htick⟩
      cases h

/-- What comes to no root socket is no tick of main's socket. -/
theorem ticks_silent {as : List ProcessAct} {s t : Process} {a : ProcessAct}
    (hrun : process.run as = some s) (hcases : ProcessStep s a t)
    (hnone : s.program.client.socket.isSome = true → a.event? = none) :
    ticks (as ++ [a]) = ticks as := by
  rw [ticks_snoc hrun hcases]
  split
  · rename_i hkept
    rw [hnone ((sound_run hrun).socket hkept.1 (by omega))]
    exact List.append_nil _
  · exact List.append_nil _

/-- A tick joins those that came, and is the one that is not read yet. -/
theorem ticks_deliver {as : List ProcessAct} {s t : Process} {p : RawPacket}
    {ev : Event} (hrun : process.run as = some s)
    (hstatus : s.program.status = .running)
    (hcases : ProcessStep s (.packet p) t)
    (hevent : (ProcessAct.packet p).event? = some ev)
    (hev : unpackEvent p.message p.packId = .ok (some ev)) :
    ticks (as ++ [.packet p]) = ticks as ++
      (s.program.deliver p.message p.packId).unread.toList := by
  rw [ticks_snoc hrun hcases, hevent, unread_deliver hev hstatus,
    (sound_run hrun).listener]
  refine congrArg (ticks as ++ ·) ?_
  cases s.lost with
  | some k => simp
  | none =>
      by_cases h8 : 8 < s.program.main.rank
      · by_cases hname : ev.name = "ticktack player"
        · simp [bound_tick_iff, h8, hname]
        · simp [bound_tick_iff, h8, hname]
      · simp [bound_tick_iff, h8]

/-- In every run, the game's grid is that of the last of the tick events that
have been read, among those whose payload gives one; it is empty before the
first. All that came to main's socket have been read but the last, which may be
on its way. -/
theorem game_run {as : List ProcessAct} {s : Process}
    (h : process.run as = some s) :
    ∃ read, ticks as = read ++ s.program.unread.toList ∧
      s.program.game.mapGame.map = shown read := by
  refine run_induction (R := fun as s =>
    ∃ read, ticks as = read ++ s.program.unread.toList ∧
      s.program.game.mapGame.map = shown read) ⟨[], rfl, rfl⟩ ?_ h
  intro as s a t hrun ih ha
  obtain ⟨hstatus, hcases⟩ := step_cases ha
  obtain ⟨read, hticks, hgame⟩ := ih
  rcases hcases.framed with ⟨p, ev, rfl, hevent, hev, hidle, hprogram⟩ |
    ⟨b, hb, hnone, hen, hprogram⟩ | ⟨hnone, ⟨-, hidle, rfl⟩ | hframe⟩
  · have hbefore : s.program.unread = none :=
      unread_of (by simp [hidle, NetPc.ahead])
    refine ⟨read, ?_, ?_⟩
    · rw [ticks_deliver hrun hstatus hcases hevent hev, hticks, hbefore,
        hprogram]
      simp
    · rw [← hgame, hprogram, State.deliver]
      split <;> rfl
  · rw [ticks_silent hrun hcases fun _ => hnone, hprogram]
    rcases hb with rfl | rfl
    · have hat : s.program.net = .joinBody := by
        simpa [NetAct.enabled] using hen
      have hbefore : s.program.unread = none :=
        unread_of (by simp [hat, NetPc.ahead])
      refine ⟨read, ?_, ?_⟩
      · rw [hticks, hbefore, unread_joinBody hat]
      · rw [← hgame, NetAct.effect]
        split <;> rfl
    · obtain ⟨hunread, hafter, hgrid⟩ := game_tickMap hstatus hen
      refine ⟨read ++ [s.program.event], ?_, ?_⟩
      · rw [hticks, hunread, hafter]
        simp
      · rw [hgrid, hgame, shown_snoc]
  · have hbefore : s.program.unread = none :=
      unread_of (by simp [hidle, NetPc.ahead])
    have hafter : s.crash.program.unread = none :=
      unread_of (by simp [Process.crash, hidle, NetPc.ahead])
    refine ⟨read, ?_, hgame⟩
    rw [ticks_silent hrun hcases hnone, hticks, hbefore, hafter]
  · exact ⟨read, by rw [ticks_silent hrun hcases hnone, hticks,
      unread_eq_of hstatus hframe], by rw [hframe.game, hgame]⟩

/-- Two ticks, the end of the namespace, and a tick that nobody hears. -/
def ticksAndEnd : List ProcessAct :=
  tickAndPing ++ [.act (.net (.close false)), .act (.net .reconnect),
    .act (.net .open), .act (.net .openLock), .act (.net .openNotify),
    .act (.net .openSet), .act (.net .openUnlock), .packet tickPacket]

theorem game_ticksAndEnd : ∃ s, process.run ticksAndEnd = some s ∧
    ∃ read, ticks ticksAndEnd = read ++ s.program.unread.toList ∧
      s.program.game.mapGame.map = shown read := by
  have hrun : process.run ticksAndEnd = some _ := rfl
  exact ⟨_, hrun, game_run hrun⟩

end Codefest
