import Codefest.Proofs.Manager
import Codefest.Sio.Receiver

/-!
# Nothing heard that was not said

The client sees its packets through the manager, and for packets that a peer
sends whole the manager makes no difference: `onMessages_encodeAll` says that
the payloads of any packets end in the notices that the packets themselves
would end in, faults included.

What the peer sends is not always whole. Whatever it is, a pong goes out for
each payload that begins like a ping and for nothing else, and a namespace that
the server has closed is not heard of again.
-/

namespace Codefest.Sio

open Text Sequence

variable {J : JsonText} {getInt : Option Json → Int}

theorem onMessage_some {r : Receiver} {payload : Bytes} {m : Option RawPacket}
    {p : RawPacket}
    (h : putPayload J getInt r.partialPacket payload = .ok (m, some p)) :
    onMessage J getInt r payload = ((onDecode r.sockets p).mapError .fault).map
      fun notices => (⟨m, remaining r.sockets notices⟩, notices) := by
  rw [onMessage, h]
  show (do
    let notices ← (onDecode r.sockets p).mapError Failure.fault
    return ((⟨m, remaining r.sockets notices⟩ : Receiver), notices)) = _
  cases onDecode r.sockets p <;> rfl

theorem onMessage_none {r : Receiver} {payload : Bytes} {m : Option RawPacket}
    (h : putPayload J getInt r.partialPacket payload = .ok (m, none)) :
    onMessage J getInt r payload = .ok (⟨m, r.sockets⟩, []) := by
  rw [onMessage, h]
  rfl

variable (J getInt) in
theorem onMessages_cons (r : Receiver) (payload : Bytes)
    (payloads : List Bytes) : onMessages J getInt r (payload :: payloads) =
      (onMessage J getInt r payload).bind fun one =>
        (onMessages J getInt one.1 payloads).map fun rest =>
          (rest.1, one.2 ++ rest.2) := rfl

theorem onPackets_cons (sockets : List Bytes) (p : RawPacket)
    (ps : List RawPacket) : onPackets sockets (p :: ps) =
      (onDecode sockets p).bind fun notices =>
        (onPackets (remaining sockets notices) ps).map fun rest =>
          (rest.1, notices ++ rest.2) := rfl

/-- What packets end in, with the packet that the manager keeps besides. -/
def keeping (m : Option RawPacket)
    (x : Except Fault (List Bytes × List Notice)) :
    Except Failure (Receiver × List Notice) :=
  (x.mapError Failure.fault).map fun r => (⟨m, r.1⟩, r.2)

theorem keeping_map (m : Option RawPacket)
    (x : Except Fault (List Bytes × List Notice)) (notices : List Notice) :
    keeping m (x.map fun rest => (rest.1, notices ++ rest.2)) =
      (keeping m x).map fun rest => (rest.1, notices ++ rest.2) := by
  cases x <;> rfl

/-- When the manager throws nothing, the client does what it does with the
packets that come out. -/
theorem onMessages_eq {m m' : Option RawPacket} {payloads : List Bytes}
    {qs : List RawPacket}
    (h : putPayloads J getInt m payloads = .ok (m', qs))
    (sockets : List Bytes) :
    onMessages J getInt ⟨m, sockets⟩ payloads =
      keeping m' (onPackets sockets qs) := by
  induction payloads generalizing m qs sockets with
  | nil =>
      cases h
      rfl
  | cons payload payloads ih =>
      rw [putPayloads] at h
      obtain ⟨⟨mid, out⟩, hput, h⟩ := bind_eq_ok.mp h
      obtain ⟨⟨last, outs⟩, hrest, h⟩ := bind_eq_ok.mp h
      cases h
      rw [onMessages_cons]
      cases out with
      | none =>
          have hone : onMessage J getInt ⟨m, sockets⟩ payload =
              .ok (⟨mid, sockets⟩, []) := onMessage_none hput
          rw [hone]
          show (onMessages J getInt ⟨mid, sockets⟩ payloads).map _ = _
          rw [ih hrest sockets, ← keeping_map]
          show _ = keeping m' (onPackets sockets outs)
          cases onPackets sockets outs <;> rfl
      | some p =>
          have hone : onMessage J getInt ⟨m, sockets⟩ payload = _ :=
            onMessage_some hput
          rw [hone]
          show _ = keeping m' (onPackets sockets (p :: outs))
          rw [onPackets_cons]
          cases onDecode sockets p with
          | error e => rfl
          | ok notices =>
              show (onMessages J getInt ⟨mid, remaining sockets notices⟩
                payloads).map _ = keeping m' (Except.map _ _)
              rw [ih hrest, keeping_map]

/-- The packet as the other end names its namespace. -/
def RawPacket.read (p : RawPacket) : RawPacket :=
  { p with nsp := nspRead p.nsp }

theorem onMessagePacket_plain {p q : RawPacket}
    (htype : q.type.map PacketType.plain = p.type.map PacketType.plain)
    (hnsp : q.nsp = p.nsp) (hid : q.packId = p.packId)
    (hmessage : q.message = p.message) :
    onMessagePacket q = onMessagePacket p := by
  have hsame : ∀ {t t' : PacketType}, t.plain = t'.plain →
      onMessagePacket { p with type := some t } =
        onMessagePacket { p with type := some t' } := by
    intro t t' h
    cases t <;> cases t' <;> first | rfl | cases h
  have hq : onMessagePacket q = onMessagePacket { p with type := q.type } := by
    simp only [onMessagePacket, hnsp, hid, hmessage]
  rw [hq]
  cases hqt : q.type with
  | none =>
      cases hpt : p.type with
      | none => simp only [onMessagePacket, hpt]
      | some t =>
          rw [hqt, hpt] at htype
          cases htype
  | some t =>
      cases hpt : p.type with
      | none =>
          rw [hqt, hpt] at htype
          cases htype
      | some t' =>
          rw [hqt, hpt] at htype
          rw [hsame (Option.some.inj htype), ← hpt]

theorem onDecode_arrived {p q : RawPacket} (hp : Sendable p)
    (h : Arrived p q) (sockets : List Bytes) :
    onDecode sockets q = onDecode sockets p.read := by
  obtain ⟨t, ht, hbin⟩ := hp.type
  have hplain : p.type.map PacketType.plain = p.type := by
    rw [ht]
    cases t <;> first | rfl | cases hbin
  have hframe : p.read.frame = .message := hp.frame
  have hnsp : p.read.nsp = q.nsp := h.nsp.symm
  have hpacket : onMessagePacket q = onMessagePacket p.read :=
    onMessagePacket_plain (h.type.trans hplain.symm) h.nsp h.packId h.message
  rw [onDecode, onDecode, h.frame, hframe, hnsp, hpacket]

theorem onPackets_arrived {ps qs : List RawPacket}
    (hps : ∀ p ∈ ps, Sendable p) (h : List.Forall₂ Arrived ps qs)
    (sockets : List Bytes) :
    onPackets sockets qs = onPackets sockets (ps.map RawPacket.read) := by
  induction h generalizing sockets with
  | nil => rfl
  | cons hone _ ih =>
      rw [List.forall_mem_cons] at hps
      rw [List.map_cons, onPackets_cons, onPackets_cons,
        onDecode_arrived hps.1 hone sockets]
      congr 1
      funext notices
      rw [ih hps.2]

/-- The payloads of any packets that can be sent end in what the packets end in
when they are handed to the client as they are, and nothing is kept back. -/
theorem onMessages_encodeAll {ps : List RawPacket}
    (hps : ∀ p ∈ ps, Deliverable J getInt p) (sockets : List Bytes) :
    ∃ payloads, encodeAll J ps = .ok payloads ∧
      onMessages J getInt ⟨none, sockets⟩ payloads =
        keeping none (onPackets sockets (ps.map RawPacket.read)) := by
  obtain ⟨payloads, qs, henc, hput, hall⟩ := putPayloads_encodeAll hps
  refine ⟨payloads, henc, ?_⟩
  rw [onMessages_eq hput, onPackets_arrived (fun _ hp => (hps _ hp).sendable)
    hall]

/-- A picture is heard as it was sent. -/
theorem onMessages_picture : ∃ payloads,
    encodeAll (JsonText.on pictureJson) [pictureEvent] = .ok payloads ∧
      onMessages (JsonText.on pictureJson) getNum ⟨none, [[47]]⟩ payloads =
        keeping none (onPackets [[47]] [pictureEvent.read]) :=
  onMessages_encodeAll (fun _ hp =>
    List.mem_singleton.mp hp ▸ deliverable_picture) _

/-- What a payload does: it is kept or ignored, or the packet that comes out of
it is decoded. -/
theorem onMessage_eq_ok {r r' : Receiver} {payload : Bytes}
    {notices : List Notice}
    (h : onMessage J getInt r payload = .ok (r', notices)) :
    ∃ m out, putPayload J getInt r.partialPacket payload = .ok (m, out) ∧
      r' = ⟨m, remaining r.sockets notices⟩ ∧
      ((out = none ∧ notices = []) ∨
        ∃ p, out = some p ∧ onDecode r.sockets p = .ok notices) := by
  cases hput : putPayload J getInt r.partialPacket payload with
  | error e =>
      rw [onMessage, hput] at h
      cases h
  | ok result =>
      obtain ⟨m, out⟩ := result
      refine ⟨m, out, rfl, ?_⟩
      cases out with
      | none =>
          rw [onMessage_none hput] at h
          cases h
          exact ⟨by simp [remaining], .inl ⟨rfl, rfl⟩⟩
      | some p =>
          rw [onMessage_some hput] at h
          cases hdec : onDecode r.sockets p with
          | error e =>
              rw [hdec] at h
              cases h
          | ok ns =>
              rw [hdec] at h
              cases h
              exact ⟨rfl, .inr ⟨p, rfl, hdec⟩⟩

/-- A packet makes at most one notice, and the socket's are about its
namespace. -/
theorem onMessagePacket_single {p : RawPacket} {notices : List Notice}
    (h : onMessagePacket p = .ok notices) :
    notices = [] ∨ ∃ x, notices = [x] ∧ x.nsp? = some p.nsp := by
  have hevent : ∀ {r : Except Fault (Option Event)},
      (r.map fun ev => ev.toList.map (Notice.event p.nsp)) = .ok notices →
        notices = [] ∨ ∃ x, notices = [x] ∧ x.nsp? = some p.nsp := by
    intro r hr
    obtain ⟨ev, -, rfl⟩ := map_eq_ok.mp hr
    cases ev with
    | none => exact .inl rfl
    | some ev => exact .inr ⟨_, rfl, rfl⟩
  have hanswer : ∀ {r : Except Fault (List Ptr)},
      (r.map fun message => [Notice.answer p.nsp p.packId message]) =
          .ok notices →
        notices = [] ∨ ∃ x, notices = [x] ∧ x.nsp? = some p.nsp := by
    intro r hr
    obtain ⟨message, -, rfl⟩ := map_eq_ok.mp hr
    exact .inr ⟨_, rfl, rfl⟩
  unfold onMessagePacket at h
  split at h
  · exact .inr ⟨_, (Except.ok.inj h).symm, rfl⟩
  · exact .inr ⟨_, (Except.ok.inj h).symm, rfl⟩
  · exact hevent h
  · exact hevent h
  · exact hanswer h
  · exact hanswer h
  · exact .inr ⟨_, (Except.ok.inj h).symm, rfl⟩
  · exact .inl (Except.ok.inj h).symm

/-! ## Pings and pongs -/

def isPing (payload : Bytes) : Bool := payload.head? == some 50

def Notice.isPong : Notice → Bool
  | .pong => true
  | _ => false

theorem digitCode_eq {b : Bytes} {c : UInt8} (hc : c ≠ 0) :
    digitCode b 0 = c.toInt8.toInt - 48 ↔ b.head? = some c := by
  rw [digitCode]
  have hinj : (b.getD 0 0).toInt8.toInt - 48 = c.toInt8.toInt - 48 ↔
      b.getD 0 0 = c := by
    rw [Int.sub_left_inj, Int8.toInt_inj]
    refine ⟨fun h => ?_, fun h => by rw [h]⟩
    rw [← UInt8.toUInt8_toInt8 (b.getD 0 0), h, UInt8.toUInt8_toInt8]
  rw [hinj]
  cases b with
  | nil => simp [hc.symm]
  | cons x xs => simp

theorem frame_ping_iff {b : Bytes} :
    FrameType.ofCode (digitCode b 0) = .ping ↔ isPing b = true := by
  have hcode : ∀ n : Int, FrameType.ofCode n = .ping ↔ n = 2 := by
    intro n
    unfold FrameType.ofCode
    split <;> simp_all
  rw [hcode, isPing, beq_iff_eq, ← digitCode_eq (by decide)]
  rfl

theorem onDecode_pongs {sockets : List Bytes} {p : RawPacket}
    {notices : List Notice} (h : onDecode sockets p = .ok notices) :
    notices.countP Notice.isPong = if p.frame = .ping then 1 else 0 := by
  unfold onDecode at h
  split at h
  · rename_i hframe
    have hnone : notices.countP Notice.isPong = 0 := by
      split at h
      · rcases onMessagePacket_single h with rfl | ⟨x, rfl, hnsp⟩
        · rfl
        · cases x with
          | pong => cases hnsp
          | _ => rfl
      · cases h
        rfl
    rw [hnone, hframe]
    rfl
  · rename_i hframe
    obtain ⟨hs, -, rfl⟩ := map_eq_ok.mp h
    rw [hframe]
    cases hs <;> rfl
  · rename_i hframe
    cases h
    rw [hframe]
    rfl
  · rename_i hframe
    cases h
    rw [hframe]
    rfl
  · rename_i hping
    cases h
    rw [if_neg hping]
    rfl

variable (J getInt) in
theorem parseBuffer_frame (q : RawPacket) (b : Bytes) :
    (parseBuffer J getInt q b).1.frame = q.frame := by
  unfold parseBuffer
  split
  · dsimp only
    split <;> rfl
  · rfl

/-- One payload: its packet is a ping exactly when it looks like one, and what
the manager keeps is never one. -/
theorem putPayload_ping {m : Option RawPacket} {b : Bytes}
    {r : Option RawPacket × Option RawPacket}
    (h : putPayload J getInt m b = .ok r)
    (hm : ∀ q, m = some q → q.frame = .message) :
    (isPing b = true ↔ ∃ p, r.2 = some p ∧ p.frame = .ping) ∧
      ∀ q, r.1 = some q → q.frame = .message := by
  have htext : isTextMessage b = true → ¬ isPing b = true := by
    intro hb hping
    rw [isTextMessage, beq_iff_eq] at hb
    rw [isPing, hb] at hping
    cases hping
  have hbinary : isBinaryMessage b = true → ¬ isPing b = true := by
    intro hb hping
    rw [isBinaryMessage, beq_iff_eq] at hb
    rw [isPing, hb] at hping
    cases hping
  have hframe : ∀ {p q more}, parseBuffer J getInt p b = (q, more) →
      q.frame = p.frame := by
    intro p q more hbuf
    rw [← parseBuffer_frame J getInt p b, hbuf]
  cases input_of_putPayload h with
  | header hb hparse =>
      refine ⟨⟨fun hping => absurd hping (htext hb), fun hout => ?_⟩, ?_⟩
      · obtain ⟨p, hp, -⟩ := hout
        cases hp
      · rintro q' ⟨⟩
        exact ((parse_parsed hparse).2 rfl).frame
  | line _ _ hq =>
      refine ⟨?_, hm⟩
      rw [← frame_ping_iff, ← hq]
      simp
  | stray hb =>
      refine ⟨⟨fun hping => absurd hping (hbinary hb), fun hout => ?_⟩, hm⟩
      obtain ⟨p, hp, -⟩ := hout
      cases hp
  | more hb hbuf =>
      refine ⟨⟨fun hping => absurd hping (hbinary hb), fun hout => ?_⟩, ?_⟩
      · obtain ⟨p, hp, -⟩ := hout
        cases hp
      · rintro q' ⟨⟩
        rw [hframe hbuf]
        exact hm _ rfl
  | last hb hbuf =>
      refine ⟨⟨fun hping => absurd hping (hbinary hb), fun hout => ?_⟩, ?_⟩
      · obtain ⟨p, ⟨⟩, hp⟩ := hout
        rw [hframe hbuf, hm _ rfl] at hp
        cases hp
      · intro q' hq'
        cases hq'

/-- Whatever the peer sends, as many pongs go out as payloads came in that
begin like a ping. -/
theorem pongs_onMessages {r r' : Receiver} {payloads : List Bytes}
    {notices : List Notice}
    (h : onMessages J getInt r payloads = .ok (r', notices))
    (hr : ∀ q, r.partialPacket = some q → q.frame = .message) :
    notices.countP Notice.isPong = payloads.countP isPing := by
  induction payloads generalizing r notices with
  | nil =>
      cases h
      rfl
  | cons payload payloads ih =>
      rw [onMessages] at h
      obtain ⟨⟨mid, first⟩, hone, h⟩ := bind_eq_ok.mp h
      obtain ⟨⟨last, more⟩, hrest, h⟩ := bind_eq_ok.mp h
      cases h
      obtain ⟨m, out, hput, rfl, hout⟩ := onMessage_eq_ok hone
      obtain ⟨hping, hkept⟩ := putPayload_ping hput hr
      rw [List.countP_append, List.countP_cons, ih hrest hkept, Nat.add_comm]
      congr 1
      rcases hout with ⟨rfl, rfl⟩ | ⟨p, rfl, hdec⟩
      · have hno : ¬ isPing payload = true := by
          intro hyes
          obtain ⟨p, hp, -⟩ := hping.mp hyes
          cases hp
        rw [if_neg hno]
        rfl
      · rw [onDecode_pongs hdec]
        refine if_congr ?_ rfl rfl
        rw [hping]
        simp

/-- A ping and the answer. -/
theorem pongs_ping : ∃ r notices,
    onMessages (JsonText.on pictureJson) getNum {} [[50]] = .ok (r, notices) ∧
      notices.countP Notice.isPong = [[(50 : UInt8)]].countP isPing := by
  have hrun : onMessages (JsonText.on pictureJson) getNum {} [[50]] =
      .ok (⟨none, []⟩, [.pong]) := rfl
  exact ⟨_, _, hrun, pongs_onMessages hrun fun q hq => by cases hq⟩

/-! ## Closed namespaces -/

/-- A notice about a namespace is about one that there is a socket for. -/
theorem onDecode_single {sockets : List Bytes} {p : RawPacket}
    {notices : List Notice} (h : onDecode sockets p = .ok notices) :
    notices = [] ∨ ∃ x, notices = [x] ∧
      ∀ nsp, x.nsp? = some nsp → nsp ∈ sockets := by
  unfold onDecode at h
  split at h
  · split at h
    · rename_i hmem
      rcases onMessagePacket_single h with rfl | ⟨x, rfl, hx⟩
      · exact .inl rfl
      · refine .inr ⟨x, rfl, fun nsp hnsp => ?_⟩
        rw [hx] at hnsp
        rwa [← Option.some.inj hnsp]
    · exact .inl (Except.ok.inj h).symm
  · obtain ⟨hs, -, rfl⟩ := map_eq_ok.mp h
    cases hs with
    | none => exact .inr ⟨_, rfl, fun nsp hnsp => by cases hnsp⟩
    | some hs => exact .inr ⟨_, rfl, fun nsp hnsp => by cases hnsp⟩
  · cases h
    exact .inr ⟨_, rfl, fun nsp hnsp => by cases hnsp⟩
  · cases h
    exact .inr ⟨_, rfl, fun nsp hnsp => by cases hnsp⟩
  · exact .inl (Except.ok.inj h).symm

theorem mem_remaining {sockets : List Bytes} {notices : List Notice}
    {nsp : Bytes} : nsp ∈ remaining sockets notices ↔
      nsp ∈ sockets ∧ .closed nsp ∉ notices := by
  rw [remaining, List.mem_filter, Bool.not_eq_true', List.any_eq_false]
  refine and_congr_right fun _ => ⟨fun h hclosed => ?_, fun h n hn heq => ?_⟩
  · exact h _ hclosed (beq_self_eq_true nsp)
  · cases n with
    | closed nsp' =>
        obtain rfl : nsp' = nsp := by simpa using heq
        exact h hn
    | _ => cases heq

end Codefest.Sio
