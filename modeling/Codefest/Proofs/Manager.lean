import Codefest.Lib.Sequence
import Codefest.Proofs.Wire

/-!
# The manager, whatever is received

The peer may send anything: lines and buffers in any order, too many buffers
or too few, other frames in between. What the manager keeps is still easy to
say. The last line that announced buffers, with the buffers since then, is all
there is to know, and it is kept as long as they are fewer than announced.
`partial_eq` states it for every sequence of payloads that does not end in an
exception, and `completes_iff` says at which payload the packet comes out.

The last part looks at a packet whose buffers were sent as the application gave
them. Those that do not begin with the byte 4 are read as lines of frames that
nobody sent, and the packet waits for them.
-/

namespace Codefest.Sio

open Text Sequence

variable {J : JsonText} {getInt : Option Json → Int}

/-- A packet that waits for buffers: a binary message whose JSON text is kept in
front of the buffers that have come, and no message has been made of them. -/
structure Waiting (q : RawPacket) : Prop where
  frame : q.frame = .message
  type : q.type.any PacketType.isBinary = true
  text : q.buffers ≠ []
  message : q.message = none

/-- What becomes of a packet in the parts of `parse`. -/
def Parsed (p : RawPacket) (r : RawPacket × Bool) : Prop :=
  r.1.frame = p.frame ∧ (p.message = none → r.2 = true → Waiting r.1)

theorem parsed_done {p q : RawPacket} (h : q.frame = p.frame) :
    Parsed p (q, false) :=
  ⟨h, fun _ hmore => by cases hmore⟩

theorem parseMessage_parsed {p : RawPacket} {payload : Bytes}
    {pos jsonPos : Nat} {r : RawPacket × Bool}
    (h : parseMessage J getInt p payload pos jsonPos = .ok r) : Parsed p r := by
  rw [parseMessage] at h
  cases hid : parseId p payload pos jsonPos with
  | error e =>
      rw [hid] at h
      cases h
  | ok packId =>
      rw [hid] at h
      obtain rfl := Except.ok.inj h
      dsimp only
      by_cases hbinary : p.frame = .message ∧ p.type.any PacketType.isBinary
      · rw [if_pos hbinary]
        exact ⟨rfl, fun hm _ => ⟨hbinary.1, hbinary.2, by simp, hm⟩⟩
      · rw [if_neg hbinary]
        exact parsed_done rfl

theorem parseNsp_parsed {p : RawPacket} {payload : Bytes} {pos : Nat}
    {r : RawPacket × Bool} (h : parseNsp J getInt p payload pos = .ok r) :
    Parsed p r := by
  rw [parseNsp] at h
  split at h
  · cases h
    exact parsed_done rfl
  · split at h
    · split at h
      · cases h
        exact parsed_done rfl
      · dsimp only at h
        split at h
        · cases h
          exact parsed_done rfl
        · have hend := parseMessage_parsed h
          exact hend
    · have hend := parseMessage_parsed h
      exact hend

/-- The frame is told by the first character, and a packet that waits is as it
should be. -/
theorem parse_parsed {payload : Bytes} {r : RawPacket × Bool}
    (h : parse J getInt payload = .ok r) :
    r.1.frame = FrameType.ofCode (digitCode payload 0) ∧
      (r.2 = true → Waiting r.1) := by
  have hparsed : ∀ {p : RawPacket} {pos : Nat}, p.message = none →
      parseNsp J getInt p payload pos = .ok r →
        r.1.frame = p.frame ∧ (r.2 = true → Waiting r.1) := by
    intro p pos hm hp
    obtain ⟨hframe, hwait⟩ := parseNsp_parsed hp
    exact ⟨hframe, hwait hm⟩
  unfold parse at h
  dsimp only at h
  split at h
  · split at h
    · cases h
      exact ⟨rfl, fun hmore => by cases hmore⟩
    · split at h
      · obtain ⟨pending, -, h⟩ := bind_eq_ok.mp h
        exact hparsed rfl h
      · exact hparsed rfl h
  · exact hparsed rfl h

/-- What a payload is to the manager. -/
inductive Input (J : JsonText) (getInt : Option Json → Int) (b : Bytes) :
    Option RawPacket → Option RawPacket × Option RawPacket → Prop
  | header {m : Option RawPacket} {q : RawPacket} :
      isTextMessage b = true → parse J getInt b = .ok (q, true) →
      Input J getInt b m (some q, none)
  | line {m : Option RawPacket} {q : RawPacket} :
      isBinaryMessage b = false → (isTextMessage b = true →
        parse J getInt b = .ok (q, false)) →
      q.frame = FrameType.ofCode (digitCode b 0) →
      Input J getInt b m (m, some q)
  | stray : isBinaryMessage b = true → Input J getInt b none (none, none)
  | more {p q : RawPacket} : isBinaryMessage b = true →
      parseBuffer J getInt p b = (q, true) →
      Input J getInt b (some p) (some q, none)
  | last {p q : RawPacket} : isBinaryMessage b = true →
      parseBuffer J getInt p b = (q, false) →
      Input J getInt b (some p) (none, some q)

theorem input_of_putPayload {m : Option RawPacket} {b : Bytes}
    {r : Option RawPacket × Option RawPacket}
    (h : putPayload J getInt m b = .ok r) : Input J getInt b m r := by
  unfold putPayload at h
  split at h
  · rename_i htext
    obtain ⟨⟨q, more⟩, hparse, h⟩ := bind_eq_ok.mp h
    cases more with
    | true =>
        cases h
        exact .header htext hparse
    | false =>
        cases h
        refine .line ?_ (fun _ => hparse) (parse_parsed hparse).1
        rw [← Bool.not_eq_true]
        intro hbinary
        rw [isTextMessage_of_isBinaryMessage hbinary] at htext
        cases htext
  · split at h
    · cases m with
      | none =>
          cases h
          exact .stray ‹_›
      | some p =>
          cases hbuf : parseBuffer J getInt p b with
          | mk q more =>
              dsimp only at h
              rw [hbuf] at h
              cases more with
              | true =>
                  cases h
                  exact .more ‹_› hbuf
              | false =>
                  cases h
                  exact .last ‹_› hbuf
    · obtain ⟨⟨q, more⟩, hparse, h⟩ := bind_eq_ok.mp h
      cases h
      refine .line (by simpa using ‹¬ isBinaryMessage b = true›) ?_
        (parse_parsed hparse).1
      intro htext
      exact absurd htext ‹_›

theorem putPayloads_snoc {m : Option RawPacket} {xs : List Bytes} {b : Bytes}
    {r : Option RawPacket × List RawPacket}
    (h : putPayloads J getInt m (xs ++ [b]) = .ok r) :
    ∃ mid qs out, putPayloads J getInt m xs = .ok (mid, qs) ∧
      putPayload J getInt mid b = .ok (r.1, out) ∧ r.2 = qs ++ out.toList := by
  induction xs generalizing m r with
  | nil =>
      rw [List.nil_append, putPayloads] at h
      obtain ⟨⟨mid, out⟩, hput, h⟩ := bind_eq_ok.mp h
      cases h
      exact ⟨m, [], out, rfl, hput, by simp⟩
  | cons x xs ih =>
      rw [List.cons_append, putPayloads] at h
      obtain ⟨⟨mid, out⟩, hput, h⟩ := bind_eq_ok.mp h
      obtain ⟨⟨after, outs⟩, hrest, h⟩ := bind_eq_ok.mp h
      cases h
      obtain ⟨mid', qs, out', hxs, hlast, houts⟩ := ih hrest
      refine ⟨mid', out.toList ++ qs, out', ?_, hlast, ?_⟩
      · rw [putPayloads_cons hput, hxs]
        rfl
      · rw [List.append_assoc, ← houts]

/-! ## What the manager keeps -/

/-- The packet of a line that announces buffers. -/
def header? (J : JsonText) (getInt : Option Json → Int) (b : Bytes) :
    Option RawPacket :=
  match isTextMessage b, parse J getInt b with
  | true, .ok (q, true) => some q
  | _, _ => none

/-- One more payload, for the last line that announced buffers and the buffers
since then. -/
def collect (J : JsonText) (getInt : Option Json → Int)
    (last : Option (RawPacket × List Bytes)) (b : Bytes) :
    Option (RawPacket × List Bytes) :=
  match header? J getInt b with
  | some q => some (q, [])
  | none =>
      if isBinaryMessage b then last.map fun r => (r.1, r.2 ++ [b]) else last

def collected (J : JsonText) (getInt : Option Json → Int)
    (payloads : List Bytes) : Option (RawPacket × List Bytes) :=
  payloads.foldl (collect J getInt) none

/-- A line and some buffers, as long as that is fewer than announced; no buffer
at all is needed to go on waiting. -/
def waiting (r : RawPacket × List Bytes) : Option RawPacket :=
  if r.2 = [] ∨ r.2.length < r.1.pendingBuffers then
    some { r.1 with
      buffers := r.1.buffers ++ r.2
      pendingBuffers := r.1.pendingBuffers - r.2.length }
  else none

theorem waiting_header (q : RawPacket) : waiting (q, []) = some q := by
  rw [waiting, if_pos (.inl rfl)]
  simp

theorem waiting_snoc (q : RawPacket) (bs : List Bytes) (b : Bytes) :
    waiting (q, bs ++ [b]) =
      if bs.length + 1 < q.pendingBuffers then
        some { q with
          buffers := q.buffers ++ (bs ++ [b])
          pendingBuffers := q.pendingBuffers - (bs.length + 1) }
      else none := by
  simp [waiting]

theorem waiting_eq_some {q p : RawPacket} {bs : List Bytes}
    (h : waiting (q, bs) = some p) :
    (bs = [] ∨ bs.length < q.pendingBuffers) ∧ p = { q with
      buffers := q.buffers ++ bs
      pendingBuffers := q.pendingBuffers - bs.length } := by
  unfold waiting at h
  split at h
  · exact ⟨‹_›, (Option.some.inj h).symm⟩
  · cases h

variable (J getInt) in
/-- One more buffer for a packet that waits. -/
theorem parseBuffer_waiting {q p : RawPacket} {bs : List Bytes}
    (h : waiting (q, bs) = some p) (b : Bytes) :
    (∃ p', waiting (q, bs ++ [b]) = some p' ∧
      parseBuffer J getInt p b = (p', true)) ∨
    waiting (q, bs ++ [b]) = none ∧
      ((q.pendingBuffers = 0 ∧ bs = [] ∧
          parseBuffer J getInt p b = (q, false)) ∨
        bs.length + 1 = q.pendingBuffers ∧ parseBuffer J getInt p b =
          (q.completed J getInt (bs ++ [b]), false)) := by
  obtain ⟨hfew, hp⟩ := waiting_eq_some h
  rw [waiting_snoc]
  by_cases hzero : q.pendingBuffers = 0
  · obtain rfl : bs = [] := hfew.resolve_right (by omega)
    obtain rfl := Option.some.inj ((waiting_header q).symm.trans h)
    rw [if_neg (by omega)]
    exact .inr ⟨rfl, .inl ⟨hzero, rfl, if_neg (by omega)⟩⟩
  · have hlen : bs.length < q.pendingBuffers := by
      rcases hfew with rfl | hlt
      · exact Nat.pos_of_ne_zero hzero
      · exact hlt
    have hpos : 0 < q.pendingBuffers - bs.length := by omega
    subst hp
    rcases Nat.lt_or_ge (bs.length + 1) q.pendingBuffers with hlt | hge
    · left
      have hne : q.pendingBuffers - (bs.length + 1) ≠ 0 := by omega
      rw [if_pos hlt]
      refine ⟨_, rfl, ?_⟩
      simp only [parseBuffer, if_pos hpos, Nat.sub_sub, if_neg hne,
        List.append_assoc]
    · right
      have hall : bs.length + 1 = q.pendingBuffers := by omega
      rw [if_neg (by omega)]
      refine ⟨rfl, .inr ⟨hall, ?_⟩⟩
      simp [parseBuffer, ← hall, RawPacket.completed]

theorem header?_of_isBinaryMessage {b : Bytes}
    (h : isBinaryMessage b = true) : header? J getInt b = none := by
  rw [header?, isTextMessage_of_isBinaryMessage h]

theorem collect_buffer {last : Option (RawPacket × List Bytes)} {b : Bytes}
    (h : isBinaryMessage b = true) :
    collect J getInt last b = last.map fun r => (r.1, r.2 ++ [b]) := by
  rw [collect, header?_of_isBinaryMessage h]
  exact if_pos h

theorem collect_line {last : Option (RawPacket × List Bytes)} {b : Bytes}
    {q : RawPacket} (hb : isBinaryMessage b = false)
    (h : isTextMessage b = true → parse J getInt b = .ok (q, false)) :
    collect J getInt last b = last := by
  have hheader : header? J getInt b = none := by
    cases htext : isTextMessage b with
    | false => rw [header?, htext]
    | true => rw [header?, htext, h htext]
  rw [collect, hheader]
  exact if_neg (by simp [hb])

theorem waiting_collect {last : Option (RawPacket × List Bytes)} {b : Bytes}
    {r : Option RawPacket × Option RawPacket}
    (h : Input J getInt b (last.bind waiting) r) :
    r.1 = (collect J getInt last b).bind waiting := by
  generalize hm : last.bind waiting = m at h
  cases h with
  | header htext hparse =>
      rw [collect, header?, htext, hparse]
      exact (waiting_header _).symm
  | line hb hparse _ => rw [collect_line hb hparse, hm]
  | stray hb =>
      rw [collect_buffer hb]
      cases last with
      | none => rfl
      | some l =>
          obtain ⟨q, bs⟩ := l
          have hfull : ¬ (bs = [] ∨ bs.length < q.pendingBuffers) := by
            intro hfew
            rw [Option.bind_some, waiting, if_pos hfew] at hm
            cases hm
          show none = waiting (q, bs ++ [b])
          rw [waiting_snoc, if_neg (by omega)]
  | more hb hbuf =>
      obtain ⟨⟨q, bs⟩, rfl, hl⟩ := Option.bind_eq_some_iff.mp hm
      rw [collect_buffer hb]
      rcases parseBuffer_waiting J getInt hl b with ⟨p', hp', hbuf'⟩ |
        ⟨-, ⟨-, -, hbuf'⟩ | ⟨-, hbuf'⟩⟩
      · cases hbuf.symm.trans hbuf'
        exact hp'.symm
      · cases hbuf.symm.trans hbuf'
      · cases hbuf.symm.trans hbuf'
  | last hb hbuf =>
      obtain ⟨⟨q, bs⟩, rfl, hl⟩ := Option.bind_eq_some_iff.mp hm
      rw [collect_buffer hb]
      rcases parseBuffer_waiting J getInt hl b with ⟨p', hp', hbuf'⟩ |
        ⟨hnone, -⟩
      · cases hbuf.symm.trans hbuf'
      · exact hnone.symm

theorem partial_eq {payloads : List Bytes} {m : Option RawPacket}
    {qs : List RawPacket}
    (h : putPayloads J getInt none payloads = .ok (m, qs)) :
    m = (collected J getInt payloads).bind waiting := by
  induction payloads using List.reverseRecOn generalizing m qs with
  | nil =>
      cases h
      rfl
  | append_singleton xs b ih =>
      obtain ⟨mid, qs', out, hxs, hb, -⟩ := putPayloads_snoc h
      have hinput := input_of_putPayload hb
      rw [ih hxs] at hinput
      rw [collected, List.foldl_append]
      exact waiting_collect hinput

/-- The buffer completes the last line that announced buffers: it is the last
of those announced, or the line announced none and waits all the same. -/
def Completes (J : JsonText) (getInt : Option Json → Int)
    (last : Option (RawPacket × List Bytes)) (b : Bytes) (p : RawPacket) :
    Prop :=
  ∃ q bs, last = some (q, bs) ∧
    (bs.length + 1 = q.pendingBuffers ∧ p = q.completed J getInt (bs ++ [b]) ∨
      q.pendingBuffers = 0 ∧ bs = [] ∧ p = q)

theorem completes_iff {last : Option (RawPacket × List Bytes)} {b : Bytes}
    {r : Option RawPacket × Option RawPacket} (hb : isBinaryMessage b = true)
    (h : Input J getInt b (last.bind waiting) r) (p : RawPacket) :
    r.2 = some p ↔ Completes J getInt last b p := by
  generalize hm : last.bind waiting = m at h
  cases h with
  | header htext _ =>
      rw [isTextMessage_of_isBinaryMessage hb] at htext
      cases htext
  | line hline _ _ =>
      rw [hb] at hline
      cases hline
  | stray =>
      refine iff_of_false (by simp) ?_
      rintro ⟨q, bs, rfl, hlast⟩
      have hfew : bs = [] ∨ bs.length < q.pendingBuffers := by
        rcases hlast with ⟨hlen, -⟩ | ⟨-, hnil, -⟩
        · exact .inr (by omega)
        · exact .inl hnil
      rw [Option.bind_some, waiting, if_pos hfew] at hm
      cases hm
  | more _ hbuf =>
      obtain ⟨⟨q, bs⟩, rfl, hl⟩ := Option.bind_eq_some_iff.mp hm
      refine iff_of_false (by simp) ?_
      rintro ⟨q', bs', heq, hlast⟩
      cases heq
      rcases parseBuffer_waiting J getInt hl b with ⟨p', hp', -⟩ |
        ⟨-, ⟨-, -, hbuf'⟩ | ⟨-, hbuf'⟩⟩
      · rw [waiting_snoc] at hp'
        split at hp'
        · omega
        · cases hp'
      · cases hbuf.symm.trans hbuf'
      · cases hbuf.symm.trans hbuf'
  | @last _ o _ hbuf =>
      obtain ⟨⟨q, bs⟩, rfl, hl⟩ := Option.bind_eq_some_iff.mp hm
      rcases parseBuffer_waiting J getInt hl b with ⟨p', hp', hbuf'⟩ |
        ⟨-, ⟨hzero, hnil, hbuf'⟩ | ⟨hall, hbuf'⟩⟩
      · cases hbuf.symm.trans hbuf'
      · obtain rfl : q = o := congrArg Prod.fst (hbuf'.symm.trans hbuf)
        refine ⟨fun hp => ⟨q, bs, rfl, .inr ⟨hzero, hnil, ?_⟩⟩, ?_⟩
        · exact (Option.some.inj hp).symm
        · rintro ⟨q', bs', heq, ⟨hlen, -⟩ | ⟨-, -, rfl⟩⟩
          · cases heq
            omega
          · cases heq
            rfl
      · obtain rfl : q.completed J getInt (bs ++ [b]) = o :=
          congrArg Prod.fst (hbuf'.symm.trans hbuf)
        refine ⟨fun hp => ⟨q, bs, rfl, .inl ⟨hall, ?_⟩⟩, ?_⟩
        · exact (Option.some.inj hp).symm
        · rintro ⟨q', bs', heq, ⟨-, rfl⟩ | ⟨hzero, -, -⟩⟩
          · cases heq
            rfl
          · cases heq
            omega

/-- The line that is kept is one that waits. -/
theorem collected_waiting {payloads : List Bytes} {q : RawPacket}
    {bs : List Bytes} (h : collected J getInt payloads = some (q, bs)) :
    Waiting q := by
  induction payloads using List.reverseRecOn generalizing q bs with
  | nil => cases h
  | append_singleton xs b ih =>
      rw [collected, List.foldl_append] at h
      change collect J getInt (collected J getInt xs) b = some (q, bs) at h
      unfold collect at h
      split at h
      · rename_i q' hheader
        cases h
        unfold header? at hheader
        split at hheader
        · rename_i hparse
          cases hheader
          exact (parse_parsed hparse).2 rfl
        · cases hheader
      · split at h
        · obtain ⟨⟨q', bs'⟩, hlast, heq⟩ := Option.map_eq_some_iff.mp h
          cases heq
          exact ih hlast
        · exact ih h

theorem Waiting.waiting {q p : RawPacket} {bs : List Bytes} (hq : Waiting q)
    (h : waiting (q, bs) = some p) : Waiting p := by
  obtain ⟨-, rfl⟩ := waiting_eq_some h
  exact ⟨hq.frame, hq.type, by simp [hq.text], hq.message⟩

/-- After any payloads that raise no exception, the manager keeps the last line
that announced buffers with the buffers since then, whatever else has come in
between, as long as they are fewer than announced. The JSON text is always
there to be parsed, and the packet comes out with the last of the buffers. -/
structure Managed (J : JsonText) (getInt : Option Json → Int)
    (payloads : List Bytes) (m : Option RawPacket) (qs : List RawPacket) :
    Prop where
  kept : m = (collected J getInt payloads).bind waiting
  waiting : ∀ q, m = some q → Waiting q
  handed : ∀ b r, isBinaryMessage b = true →
    putPayloads J getInt none (payloads ++ [b]) = .ok r →
      ∀ p, r.2 = qs ++ [p] ↔
        Completes J getInt (collected J getInt payloads) b p

theorem managed_run {payloads : List Bytes} {m : Option RawPacket}
    {qs : List RawPacket}
    (h : putPayloads J getInt none payloads = .ok (m, qs)) :
    Managed J getInt payloads m qs := by
  have hkept := partial_eq h
  refine ⟨hkept, ?_, ?_⟩
  · intro q hq
    rw [hkept] at hq
    obtain ⟨⟨q', bs⟩, hlast, hq⟩ := Option.bind_eq_some_iff.mp hq
    exact (collected_waiting hlast).waiting hq
  · intro b r hb hr p
    obtain ⟨mid, qs', out, hxs, hput, hout⟩ := putPayloads_snoc hr
    cases hxs.symm.trans h
    have hinput := input_of_putPayload hput
    rw [hkept] at hinput
    rw [hout, List.append_cancel_left_eq, ← completes_iff hb hinput p]
    cases out <;> simp

theorem managed_picture : ∃ payloads m qs,
    putPayloads (JsonText.on pictureJson) getNum none payloads = .ok (m, qs) ∧
      Managed (JsonText.on pictureJson) getNum payloads m qs := by
  obtain ⟨payloads, m, q, -, hput, -, -⟩ :=
    putPayloads_encode deliverable_picture none
  exact ⟨payloads, m, [q], hput, managed_run hput⟩

/-! ## Buffers as they are -/

theorem isTextMessage_of_frame {b : Bytes}
    (h : FrameType.ofCode (digitCode b 0) = .message) :
    isTextMessage b = true := by
  have hcode : digitCode b 0 = 4 := by
    unfold FrameType.ofCode at h
    split at h <;> first | assumption | cases h
  have hfour : (b.getD 0 0).toInt8 = (52 : UInt8).toInt8 := by
    have hchar : (52 : UInt8).toInt8.toInt = 52 := rfl
    rw [digitCode] at hcode
    exact Int8.toInt.inj (by omega)
  have hbyte : b.getD 0 0 = 52 := by
    rw [← UInt8.toUInt8_toInt8 (b.getD 0 0), hfour]
    rfl
  cases b with
  | nil => cases hbyte
  | cons c s => exact beq_iff_eq.mpr (congrArg some hbyte)

/-- As long as the buffers that begin with the byte 4 are too few, nothing comes
out but packets of other frames. -/
theorem unfinished {q : RawPacket} {bs : List Bytes}
    {r : Option RawPacket × List RawPacket}
    (hfew : bs.countP isBinaryMessage < q.pendingBuffers)
    (htext : ∀ b ∈ bs, isTextMessage b = false)
    (h : putPayloads J getInt (some q) bs = .ok r) :
    ∀ p ∈ r.2, p.frame ≠ .message := by
  induction bs generalizing q r with
  | nil =>
      cases h
      intro p hp
      cases hp
  | cons b bs ih =>
      rw [List.forall_mem_cons] at htext
      rw [putPayloads] at h
      obtain ⟨⟨mid, out⟩, hput, h⟩ := bind_eq_ok.mp h
      obtain ⟨⟨after, outs⟩, hrest, h⟩ := bind_eq_ok.mp h
      cases h
      cases input_of_putPayload hput with
      | header hb _ => cases hb.symm.trans htext.1
      | @line _ o hb _ hframe =>
          rw [List.countP_cons_of_neg (by simp [hb])] at hfew
          intro p hp
          rcases List.mem_cons.mp hp with rfl | hp
          · intro hmessage
            rw [hframe] at hmessage
            cases (isTextMessage_of_frame hmessage).symm.trans htext.1
          · exact ih hfew htext.2 hrest p hp
      | @more _ o hb hbuf =>
          rw [List.countP_cons_of_pos hb] at hfew
          refine ih ?_ htext.2 hrest
          have hpos : 0 < q.pendingBuffers := by omega
          have hne : q.pendingBuffers - 1 ≠ 0 := by omega
          simp only [parseBuffer, if_pos hpos, if_neg hne] at hbuf
          cases hbuf
          dsimp only
          omega
      | last hb hbuf =>
          rw [List.countP_cons_of_pos hb] at hfew
          have hpos : 0 < q.pendingBuffers := by omega
          have hne : q.pendingBuffers - 1 ≠ 0 := by omega
          simp only [parseBuffer, if_pos hpos, if_neg hne] at hbuf
          cases hbuf

/-- A packet whose buffers are not taken for lines of messages comes out, when
all that was sent for it has been read, exactly when each of its buffers begins
with the byte 4. -/
theorem attachments_iff {p : RawPacket} (hp : Sendable p) {m : Message}
    {v : Json} {buffers : List ByteArray} (hm : p.message = some m)
    (hc : Carried J getInt p m v buffers) (hun : m.Everywhere Unmarked)
    (hne : buffers ≠ [])
    (htext : ∀ b ∈ buffers, isTextMessage (bufferBytes b) = false)
    {payloads : List Bytes} {r : Option RawPacket × List RawPacket}
    (henc : p.encode J = .ok payloads)
    (h : putPayloads J getInt none payloads = .ok r) :
    (∃ q ∈ r.2, Arrived p q) ↔
      ∀ b ∈ buffers, isBinaryMessage (bufferBytes b) = true := by
  obtain rfl : messageLine p (some (J.write v)) buffers.length ::
      buffers.map bufferBytes = payloads :=
    Except.ok.inj ((encode_some hp.frame hm hc.accepted).symm.trans henc)
  refine ⟨fun hout => ?_, fun hfour => ?_⟩
  · obtain ⟨q, hq, hrec⟩ := hout
    have hall : (buffers.map bufferBytes).countP isBinaryMessage =
        (buffers.map bufferBytes).length := by
      refine Nat.le_antisymm List.countP_le_length (Nat.le_of_not_lt ?_)
      intro hfew
      rw [List.length_map] at hfew
      rw [putPayloads_cons (putPayload_header hp hc hne none)] at h
      cases hrest : putPayloads J getInt
          (some { p.header buffers.length with buffers := [J.write v] })
          (buffers.map bufferBytes) with
      | error e =>
          rw [hrest] at h
          cases h
      | ok r' =>
          rw [hrest] at h
          cases h
          exact unfinished hfew (by simpa using htext) hrest q hq hrec.frame
    simpa [List.countP_eq_length] using hall
  · obtain ⟨q, hq, hrec⟩ := putPayloads_packet hp hm hc hun hne hfour none
    cases hq.symm.trans h
    exact ⟨q, List.mem_singleton.mpr rfl, hrec⟩

theorem attachments_picture : ∃ payloads r,
    pictureEvent.encode (JsonText.on pictureJson) = .ok payloads ∧
      putPayloads (JsonText.on pictureJson) getNum none payloads = .ok r ∧
      ((∃ q ∈ r.2, Arrived pictureEvent q) ↔
        ∀ b ∈ [picture], isBinaryMessage (bufferBytes b) = true) := by
  obtain ⟨payloads, m, q, henc, hput, -, -⟩ :=
    putPayloads_encode deliverable_picture none
  exact ⟨payloads, _, henc, hput, attachments_iff sendable_picture rfl
    carried_picture unmarked_picture (by simp) (by decide) henc hput⟩

end Codefest.Sio
