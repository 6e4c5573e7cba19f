import Codefest.Proofs.Delivery
import Codefest.Proofs.Wire

/-!
# From the key to the other end

A peer that reads with the same library sees the program through the payloads.
Everything that the program sends is of four kinds, a request to join, a drive
command, an answer and the two control packets, and each of them is a packet
that its line brings over. So the peer decodes every payload, keeps nothing
back, and unpacks the events in the order of their emission.
-/

namespace Codefest

open Sio Sequence Transition System

/-- The largest `int`, which is what ids are. -/
def maxId : Nat := 2147483647

/-- A packet of the program. -/
def Ours : Packet → Prop
  | .connect | .disconnect => True
  | .event m => (∃ playerId, m = (joinRoom gameId playerId).message) ∨
      ∃ direction, m = (drivePlayer direction).message
  | .ack msgId m => msgId ≤ maxId ∧ m = toAckMessage []

/-- The ids that come in are `int`s. -/
def IdsFit (as : List ProcessAct) : Prop :=
  ∀ p : RawPacket, .packet p ∈ as → p.packId ≤ maxId

theorem ackId_le {msg : Ptr} {packId : Int} {ev : Event} {msgId : Nat}
    (h : unpackEvent msg packId = .ok (some ev)) (hid : packId ≤ maxId)
    (hack : ev.ackId = some msgId) : msgId ≤ maxId := by
  have hev : ev.ackId = if 0 ≤ packId then some packId.toNat else none := by
    unfold unpackEvent at h
    obtain ⟨ptr, -, h⟩ := bind_eq_ok.mp h
    split at h
    · split at h
      · cases h
      · obtain ⟨namePtr, -, h⟩ := bind_eq_ok.mp h
        split at h
        · cases h
          rfl
        · cases h
    · cases h
  rw [hack] at hev
  split at hev
  · obtain rfl := Option.some.inj hev
    omega
  · cases hev

theorem event_effect (s : State) (a : Act) :
    (a.effect s).event = s.event ∨ ∃ msg packId ev,
      a = .net (.eventPacket msg packId) ∧
        unpackEvent msg packId = .ok (some ev) ∧ (a.effect s).event = ev := by
  cases a with
  | main a =>
      left
      cases a with
      | drive =>
          rw [Act.effect, MainAct.effect]
          split <;> rfl
      | _ => rfl
  | net a =>
      cases a with
      | eventPacket msg packId =>
          rw [Act.effect, NetAct.effect, State.deliver]
          split
          · exact .inl rfl
          · exact .inl rfl
          · exact .inr ⟨msg, packId, _, rfl, ‹_›, rfl⟩
      | «open» | fail | close =>
          left
          rw [Act.effect, NetAct.effect, State.callback]
          split <;> rfl
      | joinBody | tickMap =>
          left
          rw [Act.effect, NetAct.effect]
          split <;> rfl
      | _ => exact .inl rfl

/-- The event of a packet is what it unpacks to. -/
theorem event?_packet {p : RawPacket} {ev : Event}
    (h : (ProcessAct.packet p).event? = some ev) :
    unpackEvent p.message p.packId = .ok (some ev) := by
  rw [ProcessAct.event?, rootNotices] at h
  split at h
  · rename_i notices hdec
    rcases onDecode_single hdec with rfl | ⟨x, rfl, -⟩
    · cases h
    · cases x with
      | event nsp ev' =>
          obtain rfl : ev' = ev := Option.some.inj h
          exact onDecode_event hdec
      | _ => cases h
  · cases h

/-- The id of the event that the network thread is at. -/
def Fits (s : State) : Prop :=
  ∀ msgId, s.event.ackId = some msgId → msgId ≤ maxId

theorem ours_packets {s : State} {a : Act} (hids : Fits s) :
    ∀ p ∈ a.packets s, Ours p := by
  intro p hp
  unfold Act.packets at hp
  split at hp
  · obtain ⟨msgId, hmem, rfl⟩ := List.mem_map.mp hp
    exact ⟨hids msgId (Option.mem_toList.mp hmem), rfl⟩
  · obtain ⟨e, he, rfl⟩ := List.mem_map.mp hp
    obtain ⟨o, ho, hoe⟩ := List.mem_filterMap.mp he
    rcases mem_obs.mp ho with ⟨-, rfl⟩ | ⟨-, rfl⟩ | ⟨-, d, -, rfl⟩ |
      ⟨-, rfl⟩ | ⟨-, -, rfl⟩ | ⟨-, rfl⟩ | ⟨_, _, _, -, -, rfl⟩
    · cases hoe
      exact .inl ⟨playerId1, rfl⟩
    · cases hoe
      exact .inl ⟨playerId2, rfl⟩
    · cases hoe
      exact .inr ⟨d, rfl⟩
    · cases hoe
      exact .inr ⟨autoDirection, rfl⟩
    all_goals cases hoe

section Steps

variable {s t : Process} {a : ProcessAct}

theorem ProcessStep.fits (h : ProcessStep s a t) (hs : Fits s.program)
    (hids : ∀ p : RawPacket, a = .packet p → p.packId ≤ maxId) :
    Fits t.program := by
  cases h with
  | @step _ b hen hlost hlabel hevent =>
      rw [Process.act_program hlost]
      rcases event_effect s.program b with hsame |
        ⟨msg, packId, ev, rfl, hev, hnew⟩
      · rw [Fits, hsame]
        exact hs
      · obtain ⟨p, rfl⟩ : ∃ p, a = .packet p := by
          rcases hlabel with ⟨-, hpacket⟩ | ⟨p, hp, -⟩
          · cases hpacket
          · exact ⟨p, hp⟩
        rw [Act.event?, hev] at hevent
        rw [Fits, hnew]
        exact fun msgId hack =>
          ackId_le (event?_packet hevent) (hids p rfl) hack
  | @aside b k hk hb =>
      have hsame : (b.effect s.current).event = s.program.event := by
        rcases event_effect s.current b with hsame | ⟨_, _, _, rfl, -⟩
        · rw [hsame, Process.current_eq hk]
        · cases hb
      show ∀ msgId, (b.effect s.current).event.ackId = some msgId → _
      rw [hsame]
      exact hs
  | lose due => exact hs
  | crash => exact hs
  | quiet hprogram =>
      rw [Fits, hprogram]
      exact hs

theorem ours_lose (hs : Sound s) (hours : All Ours s.packets) :
    All Ours s.lose.packets := by
  rcases lose_lost hs with ⟨k, hl, hnew⟩ | ⟨k, hl, hk, -, hnew⟩ |
    ⟨-, -, hnew⟩
  · rw [packets_lost hl] at hours
    rwa [packets_lost hnew]
  · rw [packets_kept hl, Client.packets, hk] at hours
    rw [packets_lost hnew]
    intro p hp
    refine hours p (List.mem_append_left _ ?_)
    simpa [Socket.packets, Socket.onClose] using hp
  · rw [packets_kept hnew]
    intro p hp
    cases hp

theorem ProcessStep.ours (h : ProcessStep s a t) (hs : Sound s)
    (hids : Fits s.program) (hours : All Ours s.packets) :
    All Ours t.packets := by
  cases h with
  | @step _ b hen hlost =>
      have hprogram := Process.act_program hlost
      cases hl : s.lost with
      | some k =>
          rw [packets_lost hl] at hours
          rwa [packets_lost ((s.act_lost b).trans hl)]
      | none =>
          rw [packets_kept hl] at hours
          rw [packets_kept ((s.act_lost b).trans hl), hprogram]
          exact (client_change hs.handling hen).all trivial trivial
            (ours_packets hids) hours
  | aside hk =>
      rw [packets_lost hk] at hours
      exact (congrArg (All Ours) (packets_lost hk)).mpr hours
  | lose due =>
      exact ours_lose (s := { s with due := due }) (hs.congr _ rfl rfl) hours
  | crash => exact hours
  | quiet hprogram hlost =>
      rw [Process.packets, hlost, hprogram]
      exact hours

end Steps

theorem ours_run {as : List ProcessAct} {s : Process}
    (h : process.run as = some s) (hids : IdsFit as) :
    Fits s.program ∧ All Ours s.packets := by
  refine run_induction (R := fun as s => IdsFit as →
    Fits s.program ∧ All Ours s.packets) ?_ ?_ h hids
  · intro _
    refine ⟨?_, ?_⟩
    · intro msgId hack
      cases hack
    · intro p hp
      cases hp
  · intro as s a t hrun ih ha hids
    obtain ⟨hfits, hours⟩ := ih fun p hmem =>
      hids p (List.mem_append_left _ hmem)
    have hcases := (step_cases ha).2
    refine ⟨hcases.fits hfits fun p hp => ?_,
      hcases.ours (sound_run hrun) hfits hours⟩
    subst hp
    exact hids p (by simp)

/-! ## Each of them comes over -/

/-- The JSON value that a packet's message is written as. -/
def Sio.Packet.json? (p : Packet) : Option Json :=
  (p.raw []).message.bind fun m => (acceptMessage m []).toOption.map (·.1)

/-- A message without buffers that comes back as it is. -/
def Plain (m : Message) : Prop :=
  ∃ v, acceptMessage m [] = .ok (v, []) ∧ m.Everywhere KeysDistinct ∧
    m.Everywhere Unmarked

theorem plain_drivePlayer (direction : String) :
    Plain (drivePlayer direction).message := by
  have hfields : (drivePlayer direction).message = .array
      [some (.string "drive player"),
        some (.object [("direction", some (.string direction))])] := rfl
  refine ⟨_, rfl, ?_, ?_⟩ <;>
    simp [hfields, Message.Everywhere, EverywhereArray, EverywhereFields,
      KeysDistinct, Unmarked, index, List.lookup_cons]

theorem plain_joinRoom (gameId playerId : String) :
    Plain (joinRoom gameId playerId).message := by
  have hfields : (joinRoom gameId playerId).message = .array
      [some (.string "join game"),
        some (.object [("game_id", some (.string gameId)),
          ("player_id", some (.string playerId))])] := rfl
  refine ⟨_, rfl, ?_, ?_⟩ <;>
    simp [hfields, Message.Everywhere, EverywhereArray, EverywhereFields,
      KeysDistinct, Unmarked, index, List.lookup_cons]

theorem plain_toAckMessage : Plain (toAckMessage []) :=
  ⟨.array [], rfl, by simp [toAckMessage, Message.Everywhere, EverywhereArray],
    by simp [toAckMessage, Message.Everywhere, EverywhereArray]⟩

theorem plain_event {m : Message} (h : Ours (.event m)) : Plain m := by
  rcases h with ⟨playerId, rfl⟩ | ⟨direction, rfl⟩
  · exact plain_joinRoom gameId playerId
  · exact plain_drivePlayer direction

theorem deliverable_plain {J : JsonText} {getInt : Option Json → Int}
    {p : RawPacket} {m : Message} (hp : Sendable p)
    (hm : p.message = some m) (hplain : Plain m)
    (hJ : ∀ v, acceptMessage m [] = .ok (v, []) → J.Exact v) :
    Deliverable J getInt p := by
  obtain ⟨v, hv, hkeys, hun⟩ := hplain
  refine ⟨hp, fun m' hm' => ?_⟩
  obtain rfl : m = m' := Option.some.inj (hm.symm.trans hm')
  refine ⟨v, [], ⟨hv, hJ v hv, hkeys, ?_, by simp, fun h => absurd rfl h⟩, hun,
    ?_⟩
  · intro n hn
    cases hn
  · intro b hb
    cases hb

theorem deliverable_ours {J : JsonText} {getInt : Option Json → Int}
    {p : Packet} (hp : Ours p) (hJ : ∀ v, p.json? = some v → J.Exact v) :
    Deliverable J getInt (p.raw [47]) := by
  have hroot : NspOk [47] := .inr ⟨[], rfl, by simp⟩
  cases p with
  | connect | disconnect =>
      refine ⟨⟨rfl, ⟨_, rfl, rfl⟩, hroot, by decide, fun _ => rfl⟩,
        fun m hm => by cases hm⟩
  | event m =>
      have hint : (-1 : Int) ≤ -1 ∧ (-1 : Int) ≤ 2147483647 := by decide
      refine deliverable_plain (m := m)
        ⟨rfl, ⟨_, rfl, rfl⟩, hroot, hint, fun _ => rfl⟩ rfl
        (plain_event hp) fun v hv => hJ v ?_
      simp [Packet.json?, Packet.raw, hv, Except.toOption]
  | ack msgId m =>
      obtain ⟨hid, rfl⟩ := hp
      have hint : (-1 : Int) ≤ msgId ∧ (msgId : Int) ≤ 2147483647 := by
        rw [maxId] at hid
        omega
      refine deliverable_plain (m := toAckMessage [])
        ⟨rfl, ⟨_, rfl, rfl⟩, hroot, hint, fun h => by cases h⟩ rfl
        plain_toAckMessage fun v hv => hJ v ?_
      simp [Packet.json?, Packet.raw, hv, Except.toOption]

/-! ## What the peer unpacks -/

/-- The event of a packet, as `on_message_packet` unpacks it. -/
def readEvent (q : RawPacket) : Option Event :=
  if q.type.map PacketType.plain = some .event then
    match unpackEvent q.message q.packId with
    | .ok (some ev) => some ev
    | _ => none
  else none

/-- The event that an emission is. -/
def Emission.event (e : Emission) : Event := ⟨e.name, e.messages, none⟩

theorem readEvent_arrived {p q : RawPacket} (hp : Sendable p)
    (h : Arrived p q) : readEvent q = readEvent p := by
  obtain ⟨t, ht, hbin⟩ := hp.type
  have hplain : p.type.map PacketType.plain = p.type := by
    rw [ht]
    cases t <;> first | rfl | cases hbin
  rw [readEvent, readEvent, h.type, hplain, h.message, h.packId]

/-- The event of a message on its own. -/
def messageEvent (m : Message) : Option Event :=
  readEvent (Packet.raw [47] (.event m))

theorem messageEvent_message (e : Emission) :
    messageEvent e.message = some e.event := by
  have hunpack : unpackEvent (some e.message) (-1) = .ok (some e.event) := by
    have harray := unpackEvent_array e.name (e.messages.map some) (-1)
    rw [List.filterMap_map, Function.id_comp, List.filterMap_some] at harray
    exact harray
  simp [messageEvent, readEvent, Packet.raw, PacketType.plain, hunpack]

theorem readEvent_raw (p : Packet) :
    readEvent (p.raw [47]) = p.event?.bind messageEvent := by
  cases p <;> rfl

theorem readEvents_raw (ps : List Packet) :
    (ps.map (Packet.raw [47])).filterMap readEvent =
      (events ps).filterMap messageEvent := by
  rw [List.filterMap_map, events, List.filterMap_filterMap]
  exact congrArg (List.filterMap · ps) (funext readEvent_raw)

theorem readEvents_arrived {ps qs : List RawPacket}
    (hps : ∀ p ∈ ps, Sendable p) (h : List.Forall₂ Arrived ps qs) :
    qs.filterMap readEvent = ps.filterMap readEvent := by
  induction h with
  | nil => rfl
  | cons hrec _ ih =>
      rw [List.forall_mem_cons] at hps
      rw [List.filterMap_cons, List.filterMap_cons,
        readEvent_arrived hps.1 hrec, ih hps.2]

/-- In every run, a peer that reads what main's socket handed over with the
same library decodes all of it, and the events that it unpacks are the program's
emissions in their order: with what is queued behind them as long as the socket
has its client, and the first ones of them ever after. -/
theorem wire_run {J : JsonText} {getInt : Option Json → Int}
    {as : List ProcessAct} {s : Process} (h : process.run as = some s)
    (hids : IdsFit as)
    (hJ : ∀ p ∈ s.packets.1, ∀ v, p.json? = some v → J.Exact v) :
    ∃ payloads qs,
      encodeAll J (s.packets.1.map (Packet.raw [47])) = .ok payloads ∧
      putPayloads J getInt none payloads = .ok (none, qs) ∧
      (s.lost = none → qs.filterMap readEvent ++
          (events s.packets.2).filterMap messageEvent =
        (outgoing s.program.log).map Emission.event) ∧
      qs.filterMap readEvent <+:
        (outgoing s.program.log).map Emission.event := by
  have hours := (ours_run h hids).2
  have hemitted := emitted_run h
  have hdeliver : ∀ q ∈ s.packets.1.map (Packet.raw [47]),
      Deliverable J getInt q := by
    intro q hq
    obtain ⟨p, hp, rfl⟩ := List.mem_map.mp hq
    exact deliverable_ours (hours p (List.mem_append_left _ hp)) (hJ p hp)
  obtain ⟨payloads, qs, henc, hput, hall⟩ := putPayloads_encodeAll hdeliver
  have hevents : s.emitted.filterMap messageEvent =
      (outgoing s.program.log).map Emission.event := by
    have hcomp : messageEvent ∘ Emission.message = some ∘ Emission.event :=
      funext messageEvent_message
    rw [Process.emitted, List.filterMap_map, hcomp, List.filterMap_eq_map]
  have hread : qs.filterMap readEvent =
      (events s.packets.1).filterMap messageEvent := by
    rw [readEvents_arrived (fun q hq => (hdeliver q hq).sendable) hall,
      readEvents_raw]
  refine ⟨payloads, qs, henc, hput, fun hl => ?_, ?_⟩
  · rw [hread, ← List.filterMap_append, hemitted.kept hl, hevents]
  · rw [hread, ← hevents]
    refine List.IsPrefix.filterMap messageEvent ?_
    cases hl : s.lost with
    | none =>
        rw [← hemitted.kept hl]
        exact List.prefix_append _ _
    | some k => exact (hemitted.lost (by rw [hl]; rfl)).1

/-- The first request to join, and the namespace connects. -/
def joined : List ProcessAct :=
  (connectedThen [.main .joinRoom1]).map .act ++
    [.packet (Packet.raw [47] .connect)]

def joinJson : Json :=
  .array [.string "join game",
    .object [("game_id", .string gameId), ("player_id", .string playerId1)]]

theorem wire_joined : ∃ s, process.run joined = some s ∧
    ∃ payloads qs,
      encodeAll (JsonText.on joinJson)
          (s.packets.1.map (Packet.raw [47])) = .ok payloads ∧
        putPayloads (JsonText.on joinJson) getNum none payloads =
          .ok (none, qs) ∧
        (s.lost = none → qs.filterMap readEvent ++
            (events s.packets.2).filterMap messageEvent =
          (outgoing s.program.log).map Emission.event) ∧
        qs.filterMap readEvent <+:
          (outgoing s.program.log).map Emission.event := by
  have hrun : process.run joined = some _ := rfl
  have hids : IdsFit joined := by
    intro p hp
    obtain rfl : p = Packet.raw [47] .connect := by
      simpa [joined, connectedThen] using hp
    decide
  refine ⟨_, hrun, wire_run hrun hids ?_⟩
  intro p hp v hv
  have hsent : p ∈ [Packet.connect,
      .event (joinRoom gameId playerId1).message] := hp
  rw [List.mem_cons, List.mem_singleton] at hsent
  rcases hsent with rfl | rfl
  · cases hv
  · cases hv
    exact JsonText.exact_array _

end Codefest
