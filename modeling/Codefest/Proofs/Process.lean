import Codefest.Main.Process
import Codefest.Proofs.Connection
import Codefest.Proofs.Receiver

/-!
# What a step of the process can do

A step of the process is a step of the program on the root socket, a step of
main on the socket that it has lost, the loss itself, a crash, or nothing that
the program could see. `ProcessStep` lists these five once, and everything below
goes through the list.
-/

namespace Codefest

open Sio Text Sequence Transition System

/-- What the root socket makes of a packet, when there is one. -/
def rootNotices (p : RawPacket) : List Notice :=
  match onDecode [[47]] p with
  | .ok notices => notices
  | .error _ => []

namespace ProcessAct

/-- The event that a step brings to the root socket. -/
def event? : ProcessAct → Option Event
  | packet p => (rootNotices p).findSome? fun
      | .event _ ev => some ev
      | _ => none
  | _ => none

/-- The root socket, if there is one, lets go of the client. -/
def closes : ProcessAct → Bool
  | packet p => (rootNotices p).any fun
      | .closed _ => true
      | _ => false
  | handler .connect true => false
  | handler _ _ => true
  | _ => false

end ProcessAct

/-- The events that came to the root socket. -/
def heard (as : List ProcessAct) : List Event :=
  as.filterMap ProcessAct.event?

theorem heard_cons (a : ProcessAct) (as : List ProcessAct) :
    heard (a :: as) = a.event?.toList ++ heard as := by
  rw [heard, List.filterMap_cons]
  cases a.event? <;> rfl

theorem heard_append (as bs : List ProcessAct) :
    heard (as ++ bs) = heard as ++ heard bs := List.filterMap_append

/-- The step of the program that a packet for the root socket is. -/
def Brings (p : RawPacket) (b : Act) : Prop :=
  b = .net .connectPacket ∨ b = .net (.eventPacket p.message p.packId) ∧
    ∃ ev, unpackEvent p.message p.packId = .ok (some ev)

/-- The manager throws, a null pointer is followed in the packet itself, or a
pong finds no connection in `m_con`. -/
def Process.Fatal (s : Process) : ProcessAct → Prop
  | .malformed => True
  | .packet p => (∃ e, onDecode s.namespaces p = .error e) ∨
      p.frame = .ping ∧ s.con = false
  | _ => False

/-- What a step of the process is. -/
inductive ProcessStep (s : Process) : ProcessAct → Process → Prop
  | step {a : ProcessAct} {b : Act} : b.enabled s.program = true →
      (s.lost.isSome → b.onCurrent = false) →
      (a = .act b ∧ b.isPacket = false ∨ ∃ p, a = .packet p ∧ Brings p b) →
      a.event? = b.event? → a.closes = false → ProcessStep s a (s.act b)
  | aside {b : Act} {k : Socket Listener} : s.lost = some k →
      b.onCurrent = true → b.enabled s.current = true →
      ProcessStep s (.act b) { s with program := { b.effect s.current with
        client := s.program.client } }
  | lose {a : ProcessAct} (due : List (Wait × Bool)) :
      s.program.net = .idle → a.closes = true → a.event? = none →
      ProcessStep s a ({ s with due := due }.lose)
  | crash {a : ProcessAct} : s.program.net = .idle → s.Fatal a →
      (s.program.client.socket.isSome →
        a.event? = none ∧ a.closes = false) → ProcessStep s a s.crash
  | quiet {a : ProcessAct} {t : Process} : t.program = s.program →
      t.lost = s.lost → t.con = s.con →
      (t.asked = s.asked ∨ t.asked = s.con) → (∀ b, a ≠ .act b) →
      (s.program.client.socket.isSome →
        a.event? = none ∧ a.closes = false) →
      (t.life = s.life ∨ ∃ l : LifeAct, l ≠ .onDisconnect ∧
        ∀ k, s.life = some k → l.step k = t.life) → ProcessStep s a t

theorem event?_eq_none_of_act {b : Act} (h : b.isPacket = false) :
    b.event? = none := by
  cases b with
  | main b => rfl
  | net b =>
      cases b with
      | eventPacket msg packId => cases h
      | _ => rfl

section Decode

variable {s : Process} {p : RawPacket}

theorem namespaces_isSome (h : s.program.client.socket.isSome = true) :
    s.namespaces = [[47]] := if_pos h

theorem namespaces_isNone (h : ¬ s.program.client.socket.isSome = true) :
    s.namespaces = [] := if_neg h

theorem rootNotices_eq {notices : List Notice}
    (h : onDecode [[47]] p = .ok notices) : rootNotices p = notices := by
  rw [rootNotices, h]

/-- A packet of events makes the notice of the event that it unpacks to. -/
theorem onDecode_event {sockets : List Bytes} {nsp : Bytes} {ev : Event}
    (h : onDecode sockets p = .ok [.event nsp ev]) :
    unpackEvent p.message p.packId = .ok (some ev) := by
  have hevent : ∀ {r : Except Fault (Option Event)},
      (r.map fun ev => ev.toList.map (Notice.event p.nsp)) =
        .ok [.event nsp ev] → r = .ok (some ev) := by
    intro r hr
    obtain ⟨r, rfl, hnotices⟩ := map_eq_ok.mp hr
    cases r with
    | none => cases hnotices
    | some r =>
        cases hnotices
        rfl
  unfold onDecode at h
  split at h
  · split at h
    · unfold onMessagePacket at h
      split at h
      · cases h
      · cases h
      · exact hevent h
      · exact hevent h
      · obtain ⟨_, -, hnotices⟩ := map_eq_ok.mp h
        cases hnotices
      · obtain ⟨_, -, hnotices⟩ := map_eq_ok.mp h
        cases hnotices
      · cases h
      · cases h
    · cases h
  · obtain ⟨r, -, hnotices⟩ := map_eq_ok.mp h
    cases r <;> cases hnotices
  all_goals cases h

/-- One notice of a packet is one step. -/
theorem notice_step {x : Notice} (hidle : s.program.net = .idle)
    (hup : s.program.client.transport = .up)
    (h : onDecode s.namespaces p = .ok [x])
    (hx : ∀ nsp, x.nsp? = some nsp → nsp ∈ s.namespaces) :
    ProcessStep s (.packet p) (s.notice p x) := by
  have hroot : s.program.client.socket.isSome = true →
      rootNotices p = [x] := by
    intro hs
    rw [namespaces_isSome hs] at h
    exact rootNotices_eq h
  have hsome : x.nsp? ≠ none → s.program.client.socket.isSome = true := by
    intro hnsp
    obtain ⟨nsp, hnsp⟩ := Option.ne_none_iff_exists'.mp hnsp
    by_contra hs
    have hmem := hx nsp hnsp
    rw [namespaces_isNone hs] at hmem
    cases hmem
  have hquiet : (∀ nsp ev, x ≠ .event nsp ev) → (∀ nsp, x ≠ .closed nsp) →
      s.program.client.socket.isSome = true →
        (ProcessAct.packet p).event? = none ∧
          (ProcessAct.packet p).closes = false := by
    intro hev hcl hs
    rw [ProcessAct.event?, ProcessAct.closes, hroot hs]
    cases x with
    | event nsp ev => exact absurd rfl (hev nsp ev)
    | closed nsp => exact absurd rfl (hcl nsp)
    | _ => exact ⟨rfl, rfl⟩
  cases x with
  | greeted | endByServer | answer | error =>
      exact .quiet rfl rfl rfl (.inl rfl) (by simp)
        (hquiet (by simp) (by simp)) (.inl rfl)
  | handshakeError =>
      exact .quiet rfl rfl rfl (.inr rfl) (by simp)
        (hquiet (by simp) (by simp)) (.inl rfl)
  | pong =>
      rw [Process.notice]
      split
      · exact .quiet rfl rfl rfl (.inl rfl) (by simp)
          (hquiet (by simp) (by simp)) (.inl rfl)
      · rename_i hcon
        refine .crash hidle (.inr ⟨?_, by simpa using hcon⟩)
          (hquiet (by simp) (by simp))
        have hpong := onDecode_pongs h
        by_contra hframe
        rw [if_neg hframe] at hpong
        cases hpong
  | connected nsp =>
      have hs := hsome (by simp [Notice.nsp?])
      obtain ⟨hev, hcl⟩ := hquiet (by simp) (by simp) hs
      exact .step (by simp [Act.enabled, NetAct.enabled, hidle, hup])
        (fun _ => rfl) (.inr ⟨p, rfl, .inl rfl⟩) hev hcl
  | closed nsp =>
      have hs := hsome (by simp [Notice.nsp?])
      refine .lose s.due hidle ?_ ?_
      · rw [ProcessAct.closes, hroot hs]
        rfl
      · rw [ProcessAct.event?, hroot hs]
        rfl
  | event nsp ev =>
      have hs := hsome (by simp [Notice.nsp?])
      refine .step (by simp [Act.enabled, NetAct.enabled, hidle, hup, hs])
        (fun _ => rfl) (.inr ⟨p, rfl, .inr ⟨rfl, ev, onDecode_event h⟩⟩) ?_ ?_
      · rw [ProcessAct.event?, hroot hs, Act.event?, onDecode_event h]
        rfl
      · rw [ProcessAct.closes, hroot hs]
        rfl

theorem decode_step (hidle : s.program.net = .idle)
    (hup : s.program.client.transport = .up) :
    ProcessStep s (.packet p) (s.decode p) := by
  rw [Process.decode]
  cases hdec : onDecode s.namespaces p with
  | error e =>
      refine .crash hidle (.inl ⟨e, hdec⟩) fun hs => ?_
      rw [namespaces_isSome hs] at hdec
      rw [ProcessAct.event?, ProcessAct.closes, rootNotices, hdec]
      exact ⟨rfl, rfl⟩
  | ok notices =>
      rcases onDecode_single hdec with rfl | ⟨x, rfl, hx⟩
      · refine .quiet rfl rfl rfl (.inl rfl) (by simp) (fun hs => ?_)
          (.inl rfl)
        rw [namespaces_isSome hs] at hdec
        rw [ProcessAct.event?, ProcessAct.closes, rootNotices_eq hdec]
        exact ⟨rfl, rfl⟩
      · exact notice_step hidle hup hdec hx

end Decode

theorem act_step {s : Process} {a : Act}
    (h : (ProcessAct.act a).enabled s = true) :
    ProcessStep s (.act a) (s.act a) := by
  obtain ⟨hpacket, hen, -⟩ := by simpa [ProcessAct.enabled] using h
  by_cases haside : s.lost.isSome = true ∧ a.onCurrent = true
  · obtain ⟨k, hk⟩ := Option.isSome_iff_exists.mp haside.1
    rw [if_pos haside.2] at hen
    rw [Process.act, if_pos haside]
    exact .aside hk haside.2 hen
  · have hlost : s.lost.isSome = true → a.onCurrent = false := by
      intro hs
      rw [← Bool.not_eq_true]
      exact fun ha => haside ⟨hs, ha⟩
    refine .step ?_ hlost (.inl ⟨rfl, hpacket⟩)
      (event?_eq_none_of_act hpacket).symm rfl
    split at hen
    · rename_i hcurrent
      have hnone : s.lost = none := by
        cases hs : s.lost with
        | none => rfl
        | some k =>
            rw [hlost (by rw [hs]; rfl)] at hcurrent
            cases hcurrent
      rwa [Process.current, hnone] at hen
    · exact hen

/-- There are no others. -/
theorem step_cases {s t : Process} {a : ProcessAct}
    (h : process.step s a = some t) :
    s.program.status = .running ∧ ProcessStep s a t := by
  obtain ⟨⟨hrun, hen⟩, rfl⟩ := process_step_eq_some.mp h
  refine ⟨hrun, ?_⟩
  cases a with
  | act a => exact act_step hen
  | packet p =>
      obtain ⟨hidle, hup⟩ := by simpa [ProcessAct.enabled] using hen
      exact decode_step hidle hup
  | malformed =>
      obtain ⟨hidle, -⟩ := by simpa [ProcessAct.enabled] using hen
      exact .crash hidle trivial fun _ => ⟨rfl, rfl⟩
  | expire =>
      refine .quiet rfl rfl rfl (.inl rfl) (by simp) (fun _ => ⟨rfl, rfl⟩)
        (.inr ⟨.expire, by simp, fun k hk => ?_⟩)
      obtain ⟨waits, hwaits⟩ := Option.isSome_iff_exists.mp hen
      obtain ⟨socket, hsock, rfl⟩ := Option.map_eq_some_iff.mp hk
      simp [LifeAct.step, ProcessAct.effect, Process.life, hsock, hwaits]
  | handler w cancelled =>
      obtain ⟨hidle, hdue⟩ := by simpa [ProcessAct.enabled] using hen
      cases w with
      | close => exact .lose _ hidle rfl rfl
      | connect =>
          cases cancelled with
          | true =>
              refine .quiet rfl rfl rfl (.inl rfl) (by simp)
                (fun _ => ⟨rfl, rfl⟩)
                (.inr ⟨.handler .connect true, by simp, fun k hk => ?_⟩)
              obtain ⟨socket, hsock, rfl⟩ := Option.map_eq_some_iff.mp hk
              simp [LifeAct.step, ProcessAct.effect, Process.life, hsock, hdue,
                Lifetime.handle, Lifetime.timeoutConnection]
          | false => exact .lose _ hidle rfl rfl

namespace Process

variable (s : Process) (a : Act)

@[simp] theorem connects_lost : (s.connects a).lost = s.lost := by
  unfold connects
  split
  · split <;> rfl
  · split <;> rfl
  · rfl
  · rfl
  · rfl

@[simp] theorem act_lost : (s.act a).lost = s.lost := by
  unfold act
  split
  · rfl
  · exact s.connects_lost a

variable {s a}

/-- A step that does not go through a socket which main has lost. -/
theorem act_eq (h : s.lost.isSome = true → a.onCurrent = false) :
    s.act a = { s.connects a with
      program := a.effect s.program
      timer := (s.lifeAfter a).bind (·.timer)
      due := ((s.lifeAfter a).map (·.due)).getD [] } := by
  have hnot : ¬ (s.lost.isSome = true ∧ a.onCurrent = true) := by
    intro hboth
    rw [h hboth.1] at hboth
    cases hboth.2
  rw [act, if_neg hnot]

theorem act_program (h : s.lost.isSome = true → a.onCurrent = false) :
    (s.act a).program = a.effect s.program := by
  rw [act_eq h]

theorem current_eq {k : Socket Listener} (h : s.lost = some k) :
    s.current = { s.program with
      client := { s.program.client with socket := some k } } := by
  rw [current, h]

end Process

theorem fetched_iff (pc : MainPc) : pc.fetched = true ↔ 4 < pc.rank := by
  cases pc <;> simp [MainPc.fetched, MainPc.rank]

/-! ## What holds of every state -/

/-- The connection, the socket that main has and what is bound to it. -/
structure Sound (s : Process) : Prop where
  consistent : Consistent s.program.client
  handling : s.program.Handling
  fetched : s.lost.isSome = true → 4 < s.program.main.rank
  socket : s.lost = none → 4 < s.program.main.rank →
    s.program.client.socket.isSome = true
  listener : ∀ name, s.program.client.listener name =
    if s.lost.isSome then none else bound s.program.main.rank name
  ticking : s.program.net.ticking = true → 8 < s.program.main.rank
  silent : s.program.main.rank ≤ 4 → outgoing s.program.log = []
  closing : ¬ 10 < s.program.main.rank →
    s.program.client.conState ≠ .closing

section Steps

variable {s : Process}

/-- The listener of a step that does not bind. -/
theorem listener_other {s : State} {a : Act} (ha : a.onCurrent = false)
    (name : String) :
    (a.effect s).client.listener name = s.client.listener name := by
  cases a with
  | net a => exact net_listener s a name
  | main a =>
      refine main_listener ?_ ?_ name
      · rintro rfl
        cases ha
      · rintro rfl
        cases ha

/-- Before main has its socket nothing is emitted. -/
theorem silent_effect {s : State} {a : Act} (hen : a.enabled s = true)
    (hticking : s.net.ticking = true → 8 < s.main.rank)
    (hs : s.main.rank ≤ 4 → outgoing s.log = [])
    (hrank : (a.effect s).main.rank ≤ 4) : outgoing (a.effect s).log = [] := by
  have hle := rank_le_effect hen
  rw [outgoing_effect, hs (by omega), List.nil_append]
  refine outgoing_obs fun hemits => ?_
  rcases hemits with rfl | rfl | rfl | rfl
  · have hat := (enabled_rank (a := .joinRoom1) hen rfl).1
    omega
  · have hat := (enabled_rank (a := .joinRoom2) hen rfl).1
    omega
  · obtain ⟨direction, hat⟩ := enabled_drive hen
    rw [hat] at hle
    have hnine : (9 : Nat) ≤ _ := hle
    omega
  · have hat := by simpa [Act.enabled, NetAct.enabled] using hen
    have hlt := hticking (by rw [hat.1]; rfl)
    omega

/-- The same of being in the tick listener. -/
theorem ticking_rank {s : State} {a : Act} (hen : a.enabled s = true)
    (hs : s.net.ticking = true → 8 < s.main.rank)
    (hlisten : ∀ name, s.client.listener name = some .ticktackPlayer →
      8 < s.main.rank)
    (ht : (a.effect s).net.ticking = true) : 8 < (a.effect s).main.rank := by
  refine Nat.lt_of_lt_of_le ?_ (rank_le_effect hen)
  rcases ticking_effect hen ht with hticking | ⟨name, hname⟩
  · exact hs hticking
  · exact hlisten name hname

theorem Sound.registered (hs : Sound s) {name : String}
    (h : s.program.client.listener name = some .ticktackPlayer) :
    8 < s.program.main.rank := by
  rw [hs.listener] at h
  split at h
  · cases h
  · exact bound_eq_ticktackPlayer h

theorem sound_step {b : Act} (hs : Sound s) (hen : b.enabled s.program = true)
    (hlost : s.lost.isSome = true → b.onCurrent = false) :
    Sound (s.act b) := by
  have hle := rank_le_effect hen
  have hprogram := Process.act_program hlost
  constructor
  · rw [hprogram]
    exact hs.consistent.change (client_change hs.handling hen)
  · rw [hprogram]
    exact handling_effect hs.handling hen
  · rw [hprogram, Process.act_lost]
    exact fun h => Nat.lt_of_lt_of_le (hs.fetched h) hle
  · rw [hprogram, Process.act_lost]
    intro hnone hrank
    rcases (rank_lt_effect hen (b := .socket) rfl).mp hrank with rfl | hlt
    · exact Client.isSome_getSocket _
    · exact isSome_effect (hs.socket hnone hlt) b
  · rw [hprogram, Process.act_lost]
    cases hsome : s.lost.isSome with
    | false =>
        have hlisten := hs.listener
        rw [hsome] at hlisten
        exact listener_effect hen hlisten
    | true =>
        intro name
        rw [listener_other (hlost hsome), hs.listener, hsome]
        rfl
  · rw [hprogram]
    exact ticking_rank hen hs.ticking fun _ => hs.registered
  · rw [hprogram]
    exact silent_effect hen hs.ticking hs.silent
  · rw [hprogram]
    exact closing_effect hen hs.closing

/-- A step on main's socket is not the beginning or the end of an event. -/
theorem current_onCurrent {s : State} {a : Act} (hen : a.enabled s = true)
    (ha : a.onCurrent = true) : (a.effect s).current = s.current := by
  rcases current_effect hen with ⟨msg, packId, rfl, -, -⟩ | ⟨rfl, -, -⟩ |
    ⟨-, -, hsame⟩
  · cases ha
  · cases ha
  · exact hsame

theorem ticking_onCurrent {s : State} {a : Act} (hen : a.enabled s = true)
    (ha : a.onCurrent = true) (ht : (a.effect s).net.ticking = true) :
    s.net.ticking = true := by
  cases a with
  | main a =>
      have hnet : (Act.effect s (.main a)).net = s.net := main_net s a
      rwa [hnet] at ht
  | net a =>
      cases a with
      | tickEmit =>
          have hat := by simpa [Act.enabled, NetAct.enabled] using hen
          rw [hat.1]
          rfl
      | _ => cases ha

/-- A step on the lost socket leaves the client alone. -/
theorem sound_aside {b : Act} {k : Socket Listener} (hs : Sound s)
    (hk : s.lost = some k) (hb : b.onCurrent = true)
    (hen : b.enabled s.current = true) :
    Sound { s with program := { b.effect s.current with
      client := s.program.client } } := by
  have hcurrent := Process.current_eq hk
  have hmain : s.current.main = s.program.main := by rw [hcurrent]
  have hle := rank_le_effect hen
  rw [hmain] at hle
  have hfour : 4 < (b.effect s.current).main.rank :=
    Nat.lt_of_lt_of_le (hs.fetched (by rw [hk]; rfl)) hle
  constructor
  · exact hs.consistent
  · intro ev hev
    have hsame : (b.effect s.current).current = s.program.current := by
      rw [current_onCurrent hen hb, hcurrent]
      rfl
    exact hs.handling ev (hsame.symm.trans hev)
  · exact fun _ => hfour
  · intro hnone
    rw [hk] at hnone
    cases hnone
  · intro name
    show s.program.client.listener name = _
    rw [hs.listener, hk]
    rfl
  · intro ht
    have hticking := ticking_onCurrent hen hb ht
    rw [hcurrent] at hticking
    exact Nat.lt_of_lt_of_le (hs.ticking hticking) hle
  · intro hrank
    exact absurd hfour (Nat.not_lt.mpr hrank)
  · intro hrank
    exact hs.closing fun hlt => hrank (Nat.lt_of_lt_of_le hlt hle)

/-- Main's socket after the loss. -/
theorem lose_lost (hs : Sound s) :
    (∃ k, s.lost = some k ∧ s.lose.lost = some k) ∨
      (∃ k, s.lost = none ∧ s.program.client.socket = some k ∧
        4 < s.program.main.rank ∧ s.lose.lost = some k.onClose) ∨
      s.lost = none ∧ s.program.main.rank ≤ 4 ∧ s.lose.lost = none := by
  cases hl : s.lost with
  | some k => exact .inl ⟨k, rfl, by simp [Process.lose, hl]⟩
  | none =>
      have hfetched := fetched_iff s.program.main
      cases hf : s.program.main.fetched with
      | true =>
          have hrank := hfetched.mp hf
          obtain ⟨k, hk⟩ := Option.isSome_iff_exists.mp (hs.socket hl hrank)
          exact .inr (.inl ⟨k, rfl, hk, hrank, by
            simp [Process.lose, hl, hf, hk]⟩)
      | false =>
          rw [hf] at hfetched
          refine .inr (.inr ⟨rfl, ?_, by simp [Process.lose, hl, hf]⟩)
          simpa using hfetched

/-- The loss comes while no event is being handled. -/
theorem sound_lose (hs : Sound s) (hidle : s.program.net = .idle) :
    Sound s.lose := by
  have hlost : s.lose.lost.isSome = true ↔ 4 < s.program.main.rank := by
    rcases lose_lost hs with ⟨k, hl, hnew⟩ | ⟨k, -, -, hrank, hnew⟩ |
      ⟨-, hrank, hnew⟩
    · have hfour := hs.fetched (by rw [hl]; rfl)
      simp [hnew, hfour]
    · simp [hnew, hrank]
    · simp [hnew, hrank]
  constructor
  · have hold := hs.consistent
    refine ⟨hold.opened, hold.opening, hold.closed, hold.timer, ?_, ?_⟩
    · intro k hk
      cases hk
    · intro k hk
      cases hk
  · intro ev hev
    have hnone : s.lose.program.current = none :=
      current_of_not (by rw [Process.lose, hidle]; rfl)
    rw [hnone] at hev
    cases hev
  · exact hlost.mp
  · intro hnone hrank
    have hsome := hlost.mpr hrank
    rw [hnone] at hsome
    cases hsome
  · intro name
    show none = _
    split
    · rfl
    · rename_i hnot
      have hrank : ¬ 4 < s.program.main.rank := fun hlt => hnot (hlost.mpr hlt)
      have h7 : ¬ 7 < s.program.main.rank := by omega
      have h8 : ¬ 8 < s.program.main.rank := by omega
      simp [Process.lose, bound, h7, h8]
  · exact hs.ticking
  · exact hs.silent
  · exact hs.closing

/-- Only the program matters, and of it not the status. -/
theorem Sound.congr {t : Process} (hs : Sound s) (status : Status)
    (hprogram : t.program = { s.program with status := status })
    (hlost : t.lost = s.lost) : Sound t := by
  obtain ⟨h₁, h₂, h₃, h₄, h₅, h₆, h₇, h₈⟩ := hs
  rw [← hlost] at h₃ h₄ h₅
  constructor <;> rw [hprogram] <;> assumption

end Steps

/-- What is lost stays lost. -/
theorem ProcessStep.lost {s t : Process} {a : ProcessAct}
    (h : ProcessStep s a t) (hsome : s.lost.isSome = true) :
    t.lost = s.lost := by
  obtain ⟨k, hk⟩ := Option.isSome_iff_exists.mp hsome
  cases h with
  | step => exact s.act_lost _
  | aside => rfl
  | lose due => simp [Process.lose, hk]
  | crash => rfl
  | quiet _ hlost => exact hlost

/-- Main's socket is lost at the first end of the root socket that comes while
main has it. -/
theorem ProcessStep.loses {s t : Process} {a : ProcessAct}
    (h : ProcessStep s a t)
    (hs : Sound s) (hl : s.lost = none) :
    t.lost.isSome = true ↔ a.closes = true ∧ 4 < s.program.main.rank := by
  have hstays : t.lost = none → (s.program.client.socket.isSome = true →
      a.closes = false) →
      (t.lost.isSome = true ↔
        a.closes = true ∧ 4 < s.program.main.rank) := by
    intro hnone hopen
    refine iff_of_false (by rw [hnone]; simp) fun ⟨hcloses, hrank⟩ => ?_
    rw [hopen (hs.socket hl hrank)] at hcloses
    cases hcloses
  cases h with
  | step _ _ _ _ hopen =>
      exact hstays ((s.act_lost _).trans hl) fun _ => hopen
  | aside hk =>
      rw [hl] at hk
      cases hk
  | lose due _ hcloses =>
      have hs' : Sound { s with due := due } := hs.congr _ rfl rfl
      rcases lose_lost hs' with ⟨k, hk, -⟩ | ⟨k, -, -, hrank, hnew⟩ |
        ⟨-, hrank, hnew⟩
      · cases hl.symm.trans hk
      · exact iff_of_true (by rw [hnew]; rfl) ⟨hcloses, hrank⟩
      · refine iff_of_false (by rw [hnew]; simp) fun hboth => ?_
        exact absurd hboth.2 (Nat.not_lt.mpr hrank)
  | crash _ _ hnone => exact hstays hl fun hsock => (hnone hsock).2
  | quiet _ hlost _ _ _ hnone =>
      exact hstays (hlost.trans hl) fun hsock => (hnone hsock).2

theorem ProcessStep.sound {s t : Process} {a : ProcessAct}
    (h : ProcessStep s a t)
    (hs : Sound s) : Sound t := by
  cases h with
  | step hen hlost => exact sound_step hs hen hlost
  | aside hk hb hen => exact sound_aside hs hk hb hen
  | lose due hidle =>
      exact sound_lose (hs.congr (t := { s with due := due }) _ rfl rfl) hidle
  | crash => exact hs.congr .crashed rfl rfl
  | quiet hprogram hlost => exact hs.congr s.program.status hprogram hlost

theorem sound_run {as : List ProcessAct} {s : Process}
    (h : process.run as = some s) : Sound s := by
  refine run_induction (R := fun _ s => Sound s) ?_ ?_ h
  · constructor
    · refine ⟨by simp [process], fun _ => rfl, by simp [process],
        by simp [process], ?_, ?_⟩
      · intro k hk
        cases hk
      · intro k hk
        cases hk
    · intro ev hev
      cases hev
    · intro hlost
      cases hlost
    · intro _ hrank
      exact absurd hrank (by decide)
    · intro name
      simp [process, bound, MainPc.rank, Client.listener]
    · intro hticking
      cases hticking
    · exact fun _ => rfl
    · simp [process]
  · intro as s a t _ ih ha
    exact (step_cases ha).2.sound ih

/-! ## How far main has come -/

/-- The steps of the program are the only ones of main. -/
theorem ProcessStep.rank {s t : Process} {a : ProcessAct}
    (h : ProcessStep s a t)
    {b : MainAct} {r : Nat} (hb : b.rank? = some r) :
    r < t.program.main.rank ↔
      a = .act (.main b) ∨ r < s.program.main.rank := by
  cases h with
  | @step _ c hen hlost hlabel =>
      rw [Process.act_program hlost, rank_lt_effect hen hb]
      refine or_congr_left ?_
      rcases hlabel with ⟨rfl, -⟩ | ⟨p, rfl, rfl | ⟨rfl, -⟩⟩
      · rw [ProcessAct.act.injEq]
      · simp
      · simp
  | @aside c k hk _ hen =>
      have hmain : s.current.main = s.program.main := by
        rw [Process.current_eq hk]
      have hrank := rank_lt_effect hen hb
      rw [hmain] at hrank
      rw [ProcessAct.act.injEq]
      exact hrank
  | lose due _ hcloses =>
      have hne : a ≠ .act (.main b) := by
        rintro rfl
        cases hcloses
      simp [Process.lose, hne]
  | crash _ hfatal =>
      have hne : a ≠ .act (.main b) := by
        rintro rfl
        exact hfatal
      simp [Process.crash, hne]
  | quiet hprogram _ _ _ hne => simp [hprogram, hne]

theorem mem_act_iff_rank {as : List ProcessAct} {s : Process}
    (h : process.run as = some s) {b : MainAct} {r : Nat}
    (hb : b.rank? = some r) :
    .act (.main b) ∈ as ↔ r < s.program.main.rank := by
  refine run_induction (R := fun as s =>
    .act (.main b) ∈ as ↔ r < s.program.main.rank) ?_ ?_ h
  · simp [process, MainPc.rank]
  · intro as s a t _ ih ha
    rw [(step_cases ha).2.rank hb, List.mem_append, List.mem_singleton, ih,
      or_comm, eq_comm]

end Codefest
