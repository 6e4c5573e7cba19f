import Codefest.Proofs.Line
import Codefest.Proofs.RoundTrip

/-!
# Packets through the manager

A packet without buffers is its line. One with buffers is a line and then the
buffers, and until the last of them is there the manager keeps it as its
partial packet. `putPayloads_encode` says that the payloads of one packet bring
that packet out and leave the manager as empty as it was, so that the payloads
of any number of packets bring out those packets.

A buffer is told from a line by its first byte, and `encode` sends the buffers
as they are. A packet therefore arrives with its buffers only if the
application began each of them with the byte 4.
-/

namespace Codefest.Sio

open Text

variable {J : JsonText} {getInt : Option Json → Int}

theorem isTextMessage_of_isBinaryMessage {payload : Bytes}
    (h : isBinaryMessage payload = true) : isTextMessage payload = false := by
  rw [isBinaryMessage, beq_iff_eq] at h
  rw [isTextMessage, h]
  rfl

/-- The packet, when all that it waits for has come. -/
def RawPacket.completed (J : JsonText) (getInt : Option Json → Int)
    (p : RawPacket) (bs : List Bytes) : RawPacket :=
  { p with
    pendingBuffers := 0
    buffers := []
    message := fromJson getInt ((p.buffers ++ bs).tail.map bytesBuffer)
      (J.parse ((p.buffers ++ bs).headD [])) }

theorem putPayloads_cons {m m' out : Option RawPacket} {payload : Bytes}
    (h : putPayload J getInt m payload = .ok (m', out))
    (payloads : List Bytes) :
    putPayloads J getInt m (payload :: payloads) =
      (putPayloads J getInt m' payloads).map fun r =>
        (r.1, out.toList ++ r.2) := by
  rw [putPayloads, h]
  show (putPayloads J getInt m' payloads >>= fun r => _) = _
  cases putPayloads J getInt m' payloads <;> rfl

theorem putPayload_buffer {q q' : RawPacket} {more : Bool} {b : Bytes}
    (hb : isBinaryMessage b = true)
    (h : parseBuffer J getInt q b = (q', more)) :
    putPayload J getInt (some q) b =
      .ok (if more then (some q', none) else (none, some q')) := by
  rw [putPayload, isTextMessage_of_isBinaryMessage hb, hb]
  dsimp only
  rw [h]
  rfl

theorem putPayloads_buffers {q : RawPacket} {bs : List Bytes} (hne : bs ≠ [])
    (hbs : ∀ b ∈ bs, isBinaryMessage b = true)
    (hpending : q.pendingBuffers = bs.length) :
    putPayloads J getInt (some q) bs =
      .ok (none, [q.completed J getInt bs]) := by
  induction bs generalizing q with
  | nil => exact absurd rfl hne
  | cons b bs ih =>
      rw [List.forall_mem_cons] at hbs
      cases bs with
      | nil =>
          have hlast : parseBuffer J getInt q b =
              (q.completed J getInt [b], false) := by
            simp [parseBuffer, hpending, RawPacket.completed]
          have hstep : putPayload J getInt (some q) b =
              .ok (none, some (q.completed J getInt [b])) :=
            putPayload_buffer hbs.1 hlast
          rw [putPayloads_cons hstep]
          rfl
      | cons b' bs =>
          have hmore : parseBuffer J getInt q b =
              ({ q with
                buffers := q.buffers ++ [b]
                pendingBuffers := bs.length + 1 }, true) := by
            simp [parseBuffer, hpending]
          have hstep : putPayload J getInt (some q) b = .ok (some { q with
                buffers := q.buffers ++ [b]
                pendingBuffers := bs.length + 1 }, none) :=
            putPayload_buffer hbs.1 hmore
          rw [putPayloads_cons hstep, ih (by simp) hbs.2 rfl]
          simp [Except.map, RawPacket.completed]

theorem bytesBuffer_bufferBytes (b : ByteArray) :
    bytesBuffer (bufferBytes b) = b := by
  simp [bytesBuffer, bufferBytes]

theorem bytesBuffer_comp : bytesBuffer ∘ bufferBytes = id :=
  funext bytesBuffer_bufferBytes

/-- The JSON library gives the value back, and its text begins as such texts
do. -/
structure JsonText.Exact (J : JsonText) (v : Json) : Prop where
  text : TextOk (J.write v)
  parse : J.parse (J.write v) = v

/-- A packet's message and what it is written as. Only events and answers have
a type for when there are buffers. -/
structure Carried (J : JsonText) (getInt : Option Json → Int) (p : RawPacket)
    (m : Message) (v : Json) (buffers : List ByteArray) : Prop where
  accepted : acceptMessage m [] = .ok (v, buffers)
  exact : J.Exact v
  keys : m.Everywhere KeysDistinct
  counts : Counts getInt buffers.length
  fits : buffers.length < 4294967296
  type : buffers ≠ [] → p.type = some .event ∨ p.type = some .ack

/-- The type, there being buffers or not. -/
def PacketType.plain : PacketType → PacketType
  | binaryEvent => event
  | binaryAck => ack
  | type => type

/-- The packet that came out is the one that went in. -/
structure Arrived (p q : RawPacket) : Prop where
  frame : q.frame = .message
  type : q.type.map PacketType.plain = p.type
  nsp : q.nsp = nspRead p.nsp
  packId : q.packId = p.packId
  message : q.message = p.message
  complete : q.pendingBuffers = 0 ∧ q.buffers = []

theorem plain_sent {t : PacketType} (ht : t.isBinary = false)
    (hasBinary : Bool) : (t.sent hasBinary).plain = t := by
  cases t <;> cases hasBinary <;> first | rfl | cases ht

theorem header_type {p : RawPacket} (hp : Sendable p) (n : Nat) :
    (p.header n).type.map PacketType.plain = p.type := by
  obtain ⟨t, ht, hbin⟩ := hp.type
  simp [RawPacket.header, ht, plain_sent hbin]

theorem header_isBinary {p : RawPacket} (hp : Sendable p) {n : Nat}
    (htype : n ≠ 0 → p.type = some .event ∨ p.type = some .ack) :
    (p.header n).type.any PacketType.isBinary = true ↔ n ≠ 0 := by
  obtain ⟨t, ht, hbin⟩ := hp.type
  rw [RawPacket.header, ht]
  exact isBinary_sent hbin fun hne => by simpa [ht] using htype hne

theorem putPayload_line {m : Option RawPacket} {q : RawPacket} {more : Bool}
    {line : Bytes} (hline : isTextMessage line = true)
    (h : parse J getInt line = .ok (q, more)) :
    putPayload J getInt m line =
      .ok (if more then (some q, none) else (m, some q)) := by
  unfold putPayload
  rw [if_pos hline, h]
  rfl

theorem encode_none {p : RawPacket} (hframe : p.frame = .message)
    (hm : p.message = none) :
    p.encode J = .ok [messageLine p none 0] := by
  rw [RawPacket.encode, RawPacket.accept, if_pos hframe, hm]
  rfl

theorem encode_some {p : RawPacket} {m : Message} {v : Json}
    {buffers : List ByteArray} (hframe : p.frame = .message)
    (hm : p.message = some m) (h : acceptMessage m [] = .ok (v, buffers)) :
    p.encode J = .ok (messageLine p (some (J.write v)) buffers.length ::
      buffers.map bufferBytes) := by
  rw [RawPacket.encode, RawPacket.accept, if_pos hframe, hm]
  dsimp only
  rw [h]
  rfl

/-- A packet with no buffers is its line. -/
theorem putPayloads_line {p : RawPacket} (hp : Sendable p) {m : Message}
    {v : Json} (hm : p.message = some m)
    (hc : Carried J getInt p m v []) (hun : m.Everywhere Unmarked)
    (before : Option RawPacket) :
    ∃ q, putPayloads J getInt before [messageLine p (some (J.write v)) 0] =
      .ok (before, [q]) ∧ Arrived p q := by
  have hmessage : fromJson getInt [] v = some m :=
    (fromJson_acceptMessage hc.counts hc.accepted hc.keys
      (List.prefix_refl [])).mpr hun
  have hparse := parse_messageLine J getInt hp (n := 0)
    (some (J.write v)) (by simp) (by simp)
    (fun text htext => Option.some.inj htext ▸ hc.exact.text) (by simp)
  have hplain : ¬ ((p.header 0).frame = .message ∧
      (p.header 0).type.any PacketType.isBinary) := by
    intro h
    exact (header_isBinary hp (by simp)).mp h.2 rfl
  rw [withText, if_neg hplain, hc.exact.parse, hmessage] at hparse
  have hstep : putPayload J getInt before
      (messageLine p (some (J.write v)) 0) =
        .ok (before, some { p.header 0 with message := some m }) :=
    putPayload_line rfl hparse
  refine ⟨{ p.header 0 with message := some m }, ?_, ?_⟩
  · rw [putPayloads_cons hstep]
    rfl
  · exact ⟨rfl, header_type hp 0, rfl, rfl, hm.symm, rfl, rfl⟩

/-- The line of a packet with buffers makes the manager wait for them. -/
theorem putPayload_header {p : RawPacket} (hp : Sendable p) {m : Message}
    {v : Json} {buffers : List ByteArray} (hc : Carried J getInt p m v buffers)
    (hne : buffers ≠ []) (before : Option RawPacket) :
    putPayload J getInt before
        (messageLine p (some (J.write v)) buffers.length) =
      .ok (some { p.header buffers.length with buffers := [J.write v] },
        none) := by
  have htype : buffers.length ≠ 0 →
      p.type = some .event ∨ p.type = some .ack := fun _ => hc.type hne
  have hparse := parse_messageLine J getInt hp (some (J.write v)) hc.fits
    htype (fun text htext => Option.some.inj htext ▸ hc.exact.text) (by simp)
  have hbinary : (p.header buffers.length).frame = .message ∧
      (p.header buffers.length).type.any PacketType.isBinary :=
    ⟨rfl, (header_isBinary hp htype).mpr (by simpa using hne)⟩
  rw [withText, if_pos hbinary] at hparse
  exact putPayload_line rfl hparse

/-- A packet with buffers comes out with the last of them. -/
theorem putPayloads_packet {p : RawPacket} (hp : Sendable p) {m : Message}
    {v : Json} {buffers : List ByteArray} (hm : p.message = some m)
    (hc : Carried J getInt p m v buffers) (hun : m.Everywhere Unmarked)
    (hne : buffers ≠ [])
    (hfour : ∀ b ∈ buffers, isBinaryMessage (bufferBytes b) = true)
    (before : Option RawPacket) :
    ∃ q, putPayloads J getInt before
      (messageLine p (some (J.write v)) buffers.length ::
        buffers.map bufferBytes) = .ok (none, [q]) ∧ Arrived p q := by
  let q : RawPacket :=
    { p.header buffers.length with buffers := [J.write v] }
  have hmessage : fromJson getInt buffers v = some m :=
    (fromJson_acceptMessage hc.counts hc.accepted hc.keys
      (List.prefix_refl buffers)).mpr hun
  have hdone : (q.completed J getInt (buffers.map bufferBytes)).message =
      some m := by
    simp [RawPacket.completed, q, bytesBuffer_comp, hc.exact.parse, hmessage]
  refine ⟨q.completed J getInt (buffers.map bufferBytes), ?_, ?_⟩
  · rw [putPayloads_cons (putPayload_header hp hc hne before),
      putPayloads_buffers (by simpa using hne) (by simpa using hfour)
        (List.length_map bufferBytes).symm]
    rfl
  · exact ⟨rfl, header_type hp buffers.length, rfl, rfl, hdone.trans hm.symm,
      rfl, rfl⟩

/-! ## A stream of packets -/

/-- A packet that its payloads bring over. -/
structure Deliverable (J : JsonText) (getInt : Option Json → Int)
    (p : RawPacket) : Prop where
  sendable : Sendable p
  carried : ∀ m, p.message = some m → ∃ v buffers,
    Carried J getInt p m v buffers ∧ m.Everywhere Unmarked ∧
      ∀ b ∈ buffers, isBinaryMessage (bufferBytes b) = true

theorem putPayloads_encode {p : RawPacket} (hp : Deliverable J getInt p)
    (before : Option RawPacket) :
    ∃ payloads after q, p.encode J = .ok payloads ∧
      putPayloads J getInt before payloads = .ok (after, [q]) ∧
      Arrived p q ∧ (before = none → after = none) := by
  obtain ⟨hs, hcarried⟩ := hp
  cases hm : p.message with
  | none =>
      have hparse := parse_messageLine J getInt hs (n := 0) none (by simp)
        (by simp) (by simp) fun _ => hs.answer hm
      have hstep : putPayload J getInt before (messageLine p none 0) =
          .ok (before, some (p.header 0)) := putPayload_line rfl hparse
      refine ⟨_, before, p.header 0, encode_none hs.frame hm, ?_, ?_, id⟩
      · rw [putPayloads_cons hstep]
        rfl
      · exact ⟨rfl, header_type hs 0, rfl, rfl, hm.symm, rfl, rfl⟩
  | some m =>
      obtain ⟨v, buffers, hc, hun, hfour⟩ := hcarried m hm
      have henc := encode_some (J := J) hs.frame hm hc.accepted
      by_cases hne : buffers = []
      · subst hne
        obtain ⟨q, hq, hrec⟩ := putPayloads_line hs hm hc hun before
        exact ⟨_, before, q, henc, hq, hrec, id⟩
      · obtain ⟨q, hq, hrec⟩ := putPayloads_packet hs hm hc hun hne hfour before
        exact ⟨_, none, q, henc, hq, hrec, fun _ => rfl⟩

/-- The payloads of packets sent one after the other. -/
def encodeAll (J : JsonText) (ps : List RawPacket) :
    Except Fault (List Bytes) :=
  (ps.mapM (RawPacket.encode J)).map List.flatten

theorem encodeAll_cons {p : RawPacket} {ps : List RawPacket}
    {xs ys : List Bytes} (h : p.encode J = .ok xs)
    (h' : encodeAll J ps = .ok ys) :
    encodeAll J (p :: ps) = .ok (xs ++ ys) := by
  rw [encodeAll] at h' ⊢
  rw [List.mapM_cons, h]
  cases hrest : ps.mapM (RawPacket.encode J) with
  | error e =>
      rw [hrest] at h'
      cases h'
  | ok yss =>
      rw [hrest] at h'
      cases h'
      rfl

/-- The manager goes on from where it is. -/
theorem putPayloads_append {before after : Option RawPacket}
    {xs : List Bytes} {qs : List RawPacket}
    (h : putPayloads J getInt before xs = .ok (after, qs)) (ys : List Bytes) :
    putPayloads J getInt before (xs ++ ys) =
      (putPayloads J getInt after ys).map fun r => (r.1, qs ++ r.2) := by
  induction xs generalizing before qs with
  | nil =>
      cases h
      rw [List.nil_append]
      cases putPayloads J getInt after ys <;> rfl
  | cons x xs ih =>
      cases hx : putPayload J getInt before x with
      | error e =>
          rw [putPayloads, hx] at h
          cases h
      | ok r =>
          obtain ⟨mid, out⟩ := r
          rw [putPayloads_cons hx] at h
          cases hxs : putPayloads J getInt mid xs with
          | error e =>
              rw [hxs] at h
              cases h
          | ok r =>
              rw [hxs] at h
              cases h
              rw [List.cons_append, putPayloads_cons hx, ih hxs]
              cases putPayloads J getInt r.1 ys with
              | error e => rfl
              | ok r' => simp [Except.map]

/-- Any packets that can be sent, one after the other, come out as they went
in, each once and in order, and nothing is kept back. -/
theorem putPayloads_encodeAll {ps : List RawPacket}
    (hps : ∀ p ∈ ps, Deliverable J getInt p) :
    ∃ payloads qs, encodeAll J ps = .ok payloads ∧
      putPayloads J getInt none payloads = .ok (none, qs) ∧
      List.Forall₂ Arrived ps qs := by
  induction ps with
  | nil => exact ⟨[], [], rfl, rfl, .nil⟩
  | cons p ps ih =>
      rw [List.forall_mem_cons] at hps
      obtain ⟨xs, after, q, hxs, hq, hrec, hafter⟩ :=
        putPayloads_encode hps.1 none
      obtain rfl := hafter rfl
      obtain ⟨ys, qs, hys, hqs, hall⟩ := ih hps.2
      refine ⟨xs ++ ys, q :: qs, encodeAll_cons hxs hys, ?_, .cons hrec hall⟩
      rw [putPayloads_append hq, hqs]
      rfl

mutual

/-- What the library writes when no string needs an escape. -/
def compact : Json → Bytes
  | .int64 v => ascii (toString v.toInt)
  | .uint64 v => ascii (toString v.toNat)
  | .double v => ascii (toString v)
  | .string v => 34 :: ascii v ++ [34]
  | .bool v => ascii (toString v)
  | .null => ascii "null"
  | .array v => 91 :: compactArray v ++ [93]
  | .object v => 123 :: compactObject v ++ [125]

def compactArray : List Json → Bytes
  | [] => []
  | [v] => compact v
  | v :: vs => compact v ++ 44 :: compactArray vs

def compactObject : List (String × Json) → Bytes
  | [] => []
  | [(name, v)] => 34 :: ascii name ++ 34 :: 58 :: compact v
  | (name, v) :: members =>
      34 :: ascii name ++ 34 :: 58 :: compact v ++ 44 :: compactObject members

end

/-- The library, as far as it is used on one value. -/
def JsonText.on (v : Json) : JsonText where
  write := compact
  parse text := if text = compact v then v else .null

theorem JsonText.exact_array (vs : List Json) :
    (JsonText.on (.array vs)).Exact (.array vs) := by
  refine ⟨⟨91, by decide, compactArray vs ++ [93], ?_⟩, if_pos rfl⟩
  show compact (.array vs) = _
  rw [compact, List.cons_append]

def picture : ByteArray := ⟨#[4, 1]⟩

def pictureMessage : Message := toArrayMessage "map" [.binary picture]

def pictureJson : Json := .array [.string "map", placeholder 0]

def pictureEvent : RawPacket := Packet.raw [47] (.event pictureMessage)

theorem sendable_picture : Sendable pictureEvent :=
  ⟨rfl, ⟨.event, rfl, rfl⟩, .inr ⟨[], rfl, by simp⟩, by decide,
    fun h => by cases h⟩

theorem carried_picture : Carried (JsonText.on pictureJson) getNum pictureEvent
    pictureMessage pictureJson [picture] where
  accepted := rfl
  exact := JsonText.exact_array _
  keys := by
    simp [pictureMessage, toArrayMessage, Message.Everywhere, EverywhereArray]
  counts := counts_getNum (by decide)
  fits := by decide
  type _ := .inl rfl

theorem unmarked_picture : pictureMessage.Everywhere Unmarked := by
  simp [pictureMessage, toArrayMessage, Message.Everywhere, EverywhereArray]

theorem deliverable_picture :
    Deliverable (JsonText.on pictureJson) getNum pictureEvent := by
  refine ⟨sendable_picture, fun m hm => ?_⟩
  cases hm
  exact ⟨_, _, carried_picture, unmarked_picture, by decide⟩

theorem putPayloads_picture : ∃ payloads qs,
    encodeAll (JsonText.on pictureJson) [pictureEvent] = .ok payloads ∧
      putPayloads (JsonText.on pictureJson) getNum none payloads =
        .ok (none, qs) ∧
      List.Forall₂ Arrived [pictureEvent] qs :=
  putPayloads_encodeAll fun _ hp =>
    List.mem_singleton.mp hp ▸ deliverable_picture

end Codefest.Sio
