import Codefest.Proofs.Receiver
import Codefest.Sio.Acks
import Mathlib.Algebra.Order.Group.Multiset
import Mathlib.Tactic.Abel

/-!
# An answer finds its callback

Whatever the program and the peer do in turn, an answer calls the callback that
was left for it: the last one under its number, on the socket of its namespace,
unless an answer has called it before or the socket has been closed since. It
calls nothing only when there is no such callback. No callback is called more
often than it was given, numbers that come round again included.

What the peer is told is another matter. The callbacks are numbered from one,
and the packets that are half way round or further carry no number.
-/

namespace Codefest.Sio

open Text Sequence

variable {α : Type} {J : JsonText} {getInt : Option Json → Int}

/-- A callback, with its socket and its number. -/
abbrev Left (α : Type) := (Bytes × UInt32) × α

namespace Mark

/-- A callback is left. -/
def left? : Mark α → Option (Left α)
  | emitted p (some ack) => some ((p.nsp, ackKey p.packId), ack)
  | _ => none

/-- A callback is called. -/
def called? : Mark α → Option (Left α)
  | called nsp msgId _ ack => some ((nsp, ackKey msgId), ack)
  | _ => none

/-- What was left in the slot is not there any more. -/
def clears (slot : Bytes × UInt32) : Mark α → Bool
  | emitted p (some _) => (p.nsp, ackKey p.packId) = slot
  | called nsp msgId _ _ => (nsp, ackKey msgId) = slot
  | heard (.closed nsp) => nsp = slot.1
  | _ => false

theorem clears_of_left? {x : Mark α} {e : Left α} (h : x.left? = some e)
    (slot : Bytes × UInt32) : x.clears slot = true ↔ slot = e.1 := by
  unfold left? at h
  split at h
  · cases h
    simp [clears, eq_comm]
  · cases h

end Mark

/-- The callback in a slot, by what was seen so far. -/
def Awaits (log : List (Mark α)) (e : Left α) : Prop :=
  Stands Mark.left? (fun x => x.clears e.1 = true) log e

/-- An answer calls what waits for it. -/
def Answered (before : List (Mark α)) : Mark α → Prop
  | .called nsp msgId _ ack => Awaits before ((nsp, ackKey msgId), ack)
  | .heard (.answer nsp msgId _) =>
      ∀ ack, ¬ Awaits before ((nsp, ackKey msgId), ack)
  | _ => True

/-- The callbacks left so far. -/
def asked (log : List (Mark α)) : List (Left α) := log.filterMap Mark.left?

def answered (log : List (Mark α)) : List (Left α) :=
  log.filterMap Mark.called?

/-- The numbers are given out in order. -/
def Numbered (before : List (Mark α)) (x : Mark α) : Prop :=
  ∀ p ack, x = .emitted p (some ack) →
    p.packId = ((asked before).length + 1 : Int).bmod (2 ^ 32)

structure Tabled (k : Acks α) (log : List (Mark α)) : Prop where
  acks : ∀ slot ack, k.acks.lookup slot = some ack ↔ Awaits log (slot, ack)
  called : Throughout Answered log
  balance : (answered log : Multiset (Left α)) + (k.acks : Multiset (Left α)) ≤
    asked log
  eventId : k.eventId = UInt32.ofNat ((asked log).length + 1)
  numbered : Throughout Numbered log

theorem tabled_init : Tabled ({} : Acks α) [] where
  acks := fun slot ack =>
    iff_of_false (by simp) (not_stands_nil _ _ _)
  called := throughout_nil _
  balance := le_refl _
  eventId := rfl
  numbered := throughout_nil _

theorem awaits_snoc {log : List (Mark α)} {x : Mark α} {e : Left α} :
    Awaits (log ++ [x]) e ↔
      x.left? = some e ∨ ¬ x.clears e.1 = true ∧ Awaits log e :=
  stands_snoc _ _

theorem asked_snoc (log : List (Mark α)) (x : Mark α) :
    asked (log ++ [x]) = asked log ++ x.left?.toList := by
  rw [asked, List.filterMap_append]
  cases hx : x.left? <;> simp [asked, hx]

theorem answered_snoc (log : List (Mark α)) (x : Mark α) :
    answered (log ++ [x]) = answered log ++ x.called?.toList := by
  rw [answered, List.filterMap_append]
  cases hx : x.called? <;> simp [answered, hx]

theorem lookup_filter {β γ : Type*} [BEq β] [LawfulBEq β] (p : β → Prop)
    [DecidablePred p] (l : List (β × γ)) (slot : β) :
    (l.filter fun e => p e.1).lookup slot =
      if p slot then l.lookup slot else none := by
  induction l with
  | nil => simp
  | cons e l ih =>
      obtain ⟨b, c⟩ := e
      by_cases hb : p b
      · rw [List.filter_cons_of_pos (by simpa using hb), List.lookup_cons,
          List.lookup_cons, ih]
        by_cases hslot : slot = b
        · simp [hslot, hb]
        · simp [beq_eq_false_iff_ne.mpr hslot]
      · rw [List.filter_cons_of_neg (by simpa using hb), ih, List.lookup_cons]
        by_cases hslot : slot = b
        · simp [hslot, hb]
        · simp [beq_eq_false_iff_ne.mpr hslot]

/-- A mark clears its slots, and puts a callback in front. -/
theorem Tabled.snoc {k k' : Acks α} {log : List (Mark α)} {x : Mark α}
    (h : Tabled k log)
    (hacks : k'.acks = x.left?.toList ++
      k.acks.filter fun e => ¬ x.clears e.1 = true)
    (hid : k'.eventId = k.eventId + UInt32.ofNat x.left?.toList.length)
    (hcalled : ∀ e, x.called? = some e → e ∈ k.acks ∧ x.clears e.1 = true)
    (hnumber : Numbered log x) (hanswer : Answered log x) :
    Tabled k' (log ++ [x]) where
  acks := fun slot ack => by
    have hrest := lookup_filter (fun s => ¬ x.clears s = true) k.acks slot
    rw [awaits_snoc, ← h.acks, hacks]
    cases hleft : x.left? with
    | none =>
        show (k.acks.filter fun e => ¬ x.clears e.1 = true).lookup slot = _ ↔ _
        rw [hrest]
        simp
    | some e =>
        obtain ⟨slot', f⟩ := e
        show ((slot', f) :: k.acks.filter _).lookup slot = _ ↔ _
        rw [List.lookup_cons, hrest, if_congr
          (not_congr (Mark.clears_of_left? hleft slot)) rfl rfl,
          not_congr (Mark.clears_of_left? hleft slot)]
        by_cases hslot : slot = slot'
        · subst hslot
          simp
        · simp [hslot, Ne.symm hslot, beq_eq_false_iff_ne.mpr hslot]
  called := throughout_snoc.mpr ⟨h.called, hanswer⟩
  balance := by
    have hmoved : (x.called?.toList : Multiset (Left α)) +
        (k.acks.filter fun e => ¬ x.clears e.1 = true : List (Left α)) ≤
          k.acks := by
      rw [← Multiset.filter_coe]
      nth_rewrite 2 [← Multiset.filter_add_not (fun e => x.clears e.1 = true)
        (k.acks : Multiset (Left α))]
      refine Multiset.add_le_add_right ?_
      cases hx : x.called? with
      | none => exact Multiset.zero_le _
      | some e =>
          obtain ⟨hmem, hclears⟩ := hcalled e hx
          exact Multiset.singleton_le.mpr
            (Multiset.mem_filter.mpr ⟨hmem, hclears⟩)
    simp only [answered_snoc, asked_snoc, hacks, ← Multiset.coe_add]
    have hrest := (Multiset.add_le_add_left hmoved).trans h.balance
    refine le_trans (le_of_eq ?_) (Multiset.add_le_add_right hrest)
    abel
  eventId := by
    rw [hid, h.eventId, asked_snoc, List.length_append]
    simp [Nat.add_right_comm]
  numbered := throughout_snoc.mpr ⟨h.numbered, hnumber⟩

theorem mem_of_lookup {k : Acks α} {slot : Bytes × UInt32} {ack : α}
    (h : k.acks.lookup slot = some ack) : (slot, ack) ∈ k.acks := by
  obtain ⟨before, after, heq, -⟩ := List.lookup_eq_some_iff.mp h
  rw [heq]
  simp

/-- A mark that has nothing to do with callbacks. -/
theorem Tabled.snoc_other {k : Acks α} {log : List (Mark α)} {x : Mark α}
    (h : Tabled k log) (hleft : x.left? = none) (hcalled : x.called? = none)
    (hclears : ∀ slot, x.clears slot = false) (hanswer : Answered log x) :
    Tabled k (log ++ [x]) := by
  refine h.snoc ?_ ?_ ?_ ?_ hanswer
  · simp [hleft, hclears]
  · simp [hleft]
  · intro e he
    rw [hcalled] at he
    cases he
  · rintro p ack rfl
    cases hleft

theorem Tabled.congr {k k' : Acks α} {log : List (Mark α)} (h : Tabled k log)
    (hacks : k'.acks = k.acks) (hid : k'.eventId = k.eventId) :
    Tabled k' log where
  acks := hacks ▸ h.acks
  called := h.called
  balance := hacks ▸ h.balance
  eventId := hid ▸ h.eventId
  numbered := h.numbered

/-! ## One turn -/

theorem tabled_emit {k : Acks α} {log : List (Mark α)} (h : Tabled k log)
    (nsp : Bytes) (name : String) (msgs : List Message) (ack : Option α) :
    Tabled (k.emit nsp name msgs ack).1
      (log ++ (k.emit nsp name msgs ack).2) := by
  unfold Acks.emit
  split
  · cases ack with
    | none => exact h.snoc_other rfl rfl (fun _ => rfl) trivial
    | some f =>
        refine h.snoc ?_ rfl ?_ ?_ trivial
        · simp [Acks.keep, Mark.left?, Mark.clears, Packet.raw, eq_comm]
        · intro e he
          cases he
        · rintro p ack ⟨⟩
          show k.eventId.toInt32.toInt = _
          rw [h.eventId]
          simp
  · simpa using h

theorem onSocketioAck_some {k : Acks α} {nsp : Bytes} {msgId : Int} {ack : α}
    (h : k.acks.lookup (nsp, ackKey msgId) = some ack) (message : List Ptr) :
    k.onSocketioAck nsp msgId message =
      ({ k with acks := k.acks.filter (·.1 ≠ (nsp, ackKey msgId)) },
        [.called nsp msgId message ack]) := by
  rw [Acks.onSocketioAck, h]

theorem tabled_onSocketioAck {k : Acks α} {log : List (Mark α)}
    (h : Tabled k log) (nsp : Bytes) (msgId : Int) (message : List Ptr) :
    Tabled (k.onSocketioAck nsp msgId message).1
      (log ++ (k.onSocketioAck nsp msgId message).2) := by
  unfold Acks.onSocketioAck
  cases hack : k.acks.lookup (nsp, ackKey msgId) with
  | some ack =>
      refine h.snoc ?_ ?_ ?_ ?_ ((h.acks _ _).mp hack)
      · simp [Mark.left?, Mark.clears, eq_comm]
      · simp [Mark.left?]
      · rintro e ⟨⟩
        exact ⟨mem_of_lookup hack, by simp [Mark.clears]⟩
      · rintro p f ⟨⟩
  | none =>
      refine h.snoc_other rfl rfl (fun _ => rfl) fun ack hawaits => ?_
      rw [(h.acks _ _).mpr hawaits] at hack
      cases hack

theorem tabled_onNotice {k : Acks α} {log : List (Mark α)}
    (h : Tabled k log) (n : Notice) :
    Tabled (k.onNotice n).1 (log ++ (k.onNotice n).2) := by
  cases n with
  | answer nsp msgId message => exact tabled_onSocketioAck h nsp msgId message
  | closed nsp =>
      refine h.snoc ?_ ?_ ?_ ?_ trivial
      · simp [Mark.left?, Mark.clears, Acks.onNotice, eq_comm]
      · simp [Mark.left?, Acks.onNotice]
      · rintro e ⟨⟩
      · rintro p f ⟨⟩
  | _ => exact h.snoc_other rfl rfl (fun _ => rfl) trivial

theorem tabled_onNotices {k : Acks α} {log : List (Mark α)}
    (h : Tabled k log) (notices : List Notice) :
    Tabled (k.onNotices notices).1 (log ++ (k.onNotices notices).2) := by
  induction notices generalizing k log with
  | nil => simpa [Acks.onNotices] using h
  | cons n notices ih =>
      have hrest := ih (tabled_onNotice h n)
      rwa [List.append_assoc] at hrest

theorem tabled_take {k : Acks α} {log : List (Mark α)} (h : Tabled k log)
    {turn : Turn α} {r : Acks α × List (Mark α)}
    (hturn : turn.take J getInt k = .ok r) : Tabled r.1 (log ++ r.2) := by
  cases turn with
  | socket nsp =>
      cases hturn
      rw [List.append_nil]
      unfold Acks.socket
      split
      · exact h
      · exact h.congr rfl rfl
  | emit nsp name msgs ack =>
      cases hturn
      exact tabled_emit h nsp name msgs ack
  | message payload =>
      obtain ⟨⟨receiver, notices⟩, -, rfl⟩ := map_eq_ok.mp hturn
      have hk : Tabled { k with receiver := receiver } log := h.congr rfl rfl
      exact tabled_onNotices hk notices
  | resetStates =>
      cases hturn
      rw [List.append_nil]
      exact h.congr rfl rfl

theorem tabled_takeAll {k k' : Acks α} {log marks : List (Mark α)}
    (h : Tabled k log) {turns : List (Turn α)}
    (hrun : takeAll J getInt k turns = .ok (k', marks)) :
    Tabled k' (log ++ marks) := by
  induction turns generalizing k log marks with
  | nil =>
      cases hrun
      rwa [List.append_nil]
  | cons turn turns ih =>
      rw [takeAll] at hrun
      obtain ⟨one, hone, hrun⟩ := bind_eq_ok.mp hrun
      obtain ⟨rest, hrest, heq⟩ := map_eq_ok.mp hrun
      cases heq
      rw [← List.append_assoc]
      exact ih (tabled_take h hone) hrest

/-! ## The answer that the peer sends -/

/-- A notice neither sees nor touches the receiver. -/
theorem onNotice_receiver (k : Acks α) (r : Receiver) (n : Notice) :
    { k with receiver := r }.onNotice n =
      ({ (k.onNotice n).1 with receiver := r }, (k.onNotice n).2) := by
  cases n with
  | answer nsp msgId message =>
      show Acks.onSocketioAck _ nsp msgId message = _
      simp only [Acks.onNotice, Acks.onSocketioAck]
      split <;> rfl
  | _ => rfl

theorem onNotices_receiver (k : Acks α) (r : Receiver)
    (notices : List Notice) :
    { k with receiver := r }.onNotices notices =
      ({ (k.onNotices notices).1 with receiver := r },
        (k.onNotices notices).2) := by
  induction notices generalizing k with
  | nil => rfl
  | cons n notices ih =>
      simp only [Acks.onNotices, onNotice_receiver k r n, ih]

theorem receiver_onNotices (k : Acks α) (notices : List Notice) :
    (k.onNotices notices).1.receiver = k.receiver :=
  congrArg (·.1.receiver) (onNotices_receiver k k.receiver notices)

theorem mem_onNotice {k : Acks α} {n : Notice} {e : Left α}
    (h : e ∈ (k.onNotice n).1.acks) : e ∈ k.acks ∧ n ≠ .closed e.1.1 := by
  cases n with
  | answer nsp msgId message =>
      have hsub : (k.onSocketioAck nsp msgId message).1.acks ⊆ k.acks := by
        unfold Acks.onSocketioAck
        split
        · exact List.filter_subset_self _
        · exact List.Subset.refl _
      exact ⟨hsub h, by simp⟩
  | closed nsp =>
      obtain ⟨hmem, hne⟩ := List.mem_filter.mp h
      refine ⟨hmem, fun heq => ?_⟩
      rw [Notice.closed.injEq] at heq
      simp [heq] at hne
  | _ => exact ⟨h, by simp⟩

theorem mem_onNotices {k : Acks α} {notices : List Notice} {e : Left α}
    (h : e ∈ (k.onNotices notices).1.acks) :
    e ∈ k.acks ∧ .closed e.1.1 ∉ notices := by
  induction notices generalizing k with
  | nil => exact ⟨h, by simp⟩
  | cons n notices ih =>
      obtain ⟨hmid, hrest⟩ := ih h
      obtain ⟨hmem, hne⟩ := mem_onNotice hmid
      exact ⟨hmem, by simp [hne.symm, hrest]⟩

/-- Callbacks are kept by sockets that the client has, and these have names. -/
structure Owned (k : Acks α) : Prop where
  acks : ∀ e ∈ k.acks, e.1.1 ∈ k.receiver.sockets
  named : ∀ nsp ∈ k.receiver.sockets, nsp ≠ []

theorem owned_take {k : Acks α} (h : Owned k) {turn : Turn α}
    {r : Acks α × List (Mark α)} (hturn : turn.take J getInt k = .ok r) :
    Owned r.1 := by
  cases turn with
  | socket nsp =>
      cases hturn
      unfold Acks.socket
      split
      · exact h
      · refine ⟨fun e he => List.mem_cons_of_mem _ (h.acks e he), ?_⟩
        intro nsp' hmem
        rcases List.mem_cons.mp hmem with rfl | hmem
        · unfold Acks.fullName
          split <;> simp
        · exact h.named nsp' hmem
  | emit nsp name msgs ack =>
      cases hturn
      unfold Acks.emit
      split
      · rename_i hsock
        cases ack with
        | none => exact h
        | some f =>
            refine ⟨fun e he => ?_, h.named⟩
            rcases List.mem_cons.mp he with rfl | hmem
            · exact List.contains_iff_mem.mp hsock
            · exact h.acks e (List.mem_of_mem_filter hmem)
      · exact h
  | message payload =>
      obtain ⟨⟨receiver, notices⟩, hone, rfl⟩ := map_eq_ok.mp hturn
      obtain ⟨m, out, -, rfl, -⟩ := onMessage_eq_ok hone
      refine ⟨fun e he => ?_, fun nsp hmem => ?_⟩
      · obtain ⟨hmem, hclosed⟩ := mem_onNotices he
        rw [receiver_onNotices]
        exact mem_remaining.mpr ⟨h.acks e hmem, hclosed⟩
      · rw [receiver_onNotices] at hmem
        exact h.named nsp (mem_remaining.mp hmem).1
  | resetStates =>
      cases hturn
      exact ⟨h.acks, h.named⟩

theorem owned_takeAll {k k' : Acks α} (h : Owned k) {turns : List (Turn α)}
    {marks : List (Mark α)}
    (hrun : takeAll J getInt k turns = .ok (k', marks)) : Owned k' := by
  induction turns generalizing k marks with
  | nil =>
      cases hrun
      exact h
  | cons turn turns ih =>
      rw [takeAll] at hrun
      obtain ⟨one, hone, hrun⟩ := bind_eq_ok.mp hrun
      obtain ⟨rest, hrest, heq⟩ := map_eq_ok.mp hrun
      cases heq
      exact ih (owned_take h hone) hrest

theorem takeAll_append {k : Acks α} {turns : List (Turn α)}
    {r : Acks α × List (Mark α)} (h : takeAll J getInt k turns = .ok r)
    (more : List (Turn α)) : takeAll J getInt k (turns ++ more) =
      (takeAll J getInt r.1 more).map fun rest => (rest.1, r.2 ++ rest.2) := by
  induction turns generalizing k r with
  | nil =>
      cases h
      show takeAll J getInt k more = _
      cases takeAll J getInt k more <;> rfl
  | cons turn turns ih =>
      rw [takeAll] at h
      obtain ⟨one, hone, h⟩ := bind_eq_ok.mp h
      obtain ⟨rest, hrest, rfl⟩ := map_eq_ok.mp h
      rw [List.cons_append, takeAll, hone]
      show (takeAll J getInt one.1 (turns ++ more)).map _ = _
      rw [ih hrest]
      show Except.map _ (Except.map _ (takeAll J getInt rest.1 more)) = _
      cases takeAll J getInt rest.1 more with
      | error e => rfl
      | ok last =>
          simp only [Except.map, List.append_assoc]

theorem onNotices_append (k : Acks α) (ns ns' : List Notice) :
    k.onNotices (ns ++ ns') =
      (((k.onNotices ns).1.onNotices ns').1,
        (k.onNotices ns).2 ++ ((k.onNotices ns).1.onNotices ns').2) := by
  induction ns generalizing k with
  | nil => rfl
  | cons n ns ih =>
      have hrest := ih (k.onNotice n).1
      simp only [List.cons_append, Acks.onNotices, hrest, List.append_assoc]

/-- Payloads that come one after the other do what their notices do. -/
theorem takeAll_messages {k : Acks α} {r : Receiver} {payloads : List Bytes}
    {notices : List Notice}
    (h : onMessages J getInt k.receiver payloads = .ok (r, notices)) :
    takeAll J getInt k (payloads.map .message) =
      .ok ({ k with receiver := r }.onNotices notices) := by
  induction payloads generalizing k r notices with
  | nil =>
      cases h
      rfl
  | cons payload payloads ih =>
      rw [onMessages_cons] at h
      obtain ⟨⟨mid, first⟩, hone, h⟩ := bind_eq_ok.mp h
      obtain ⟨⟨last, more⟩, hrest, h⟩ := map_eq_ok.mp h
      cases h
      have hnext : onMessages J getInt
          ({ k with receiver := mid }.onNotices first).1.receiver payloads =
            .ok (last, more) := by
        rw [receiver_onNotices]
        exact hrest
      have hturn : (Turn.message payload).take J getInt k =
          .ok ({ k with receiver := mid }.onNotices first) := by
        rw [Turn.take, hone]
        rfl
      rw [List.map_cons, takeAll, hturn]
      show (takeAll J getInt _ (payloads.map .message)).map _ = _
      rw [ih hnext, onNotices_append]
      simp only [onNotices_receiver, Except.map]

section

variable {k : Acks α} {turns : List (Turn α)} {log : List (Mark α)}

theorem tabled_run (h : takeAll J getInt {} turns = .ok (k, log)) :
    Tabled k log := tabled_takeAll tabled_init h

/-- One callback, and two answers under its number. -/
def joinTurns : List (Turn Nat) :=
  [.socket [], .emit [47] "join game" [] (some 7),
    .message [52, 51, 49, 91, 93], .message [52, 51, 49, 91, 93]]

/-- An answer calls the callback that waits under its number, on the socket of
its namespace, and nothing only when none waits. -/
theorem called_run (h : takeAll J getInt {} turns = .ok (k, log)) :
    Throughout Answered log := (tabled_run h).called

theorem called_join : ∃ k log,
    takeAll (JsonText.on (.array [])) getNum {} joinTurns = .ok (k, log) ∧
      log.length = 3 ∧ Throughout Answered log := by
  have hrun : takeAll (JsonText.on (.array [])) getNum {} joinTurns =
      .ok _ := rfl
  exact ⟨_, _, hrun, rfl, called_run hrun⟩

/-- No callback is called more often than it was left, whatever the peer sends
and even when the numbers come round. -/
theorem once_run (h : takeAll J getInt {} turns = .ok (k, log)) :
    (answered log).Subperm (asked log) := by
  have hle := (Multiset.le_add_right _ _).trans (tabled_run h).balance
  exact Multiset.coe_le.mp hle

theorem once_join : ∃ k log,
    takeAll (JsonText.on (.array [])) getNum {} joinTurns = .ok (k, log) ∧
      log.length = 3 ∧ (answered log).Subperm (asked log) := by
  have hrun : takeAll (JsonText.on (.array [])) getNum {} joinTurns =
      .ok _ := rfl
  exact ⟨_, _, hrun, rfl, once_run hrun⟩

/-- The elements of an array, or the one message that there is. -/
def answerOf (m : Message) : List Ptr :=
  if m.getFlag = .array then m.getVector else [some m]

/-- What is heard of an answer that a peer has sent whole. -/
theorem onMessages_answer {r : Receiver} {nsp : Bytes} {msgId : Nat}
    {m : Message} (hsock : nsp ∈ r.sockets) (hnsp : nsp ≠ [])
    (hp : Deliverable J getInt (Packet.raw nsp (.ack msgId m))) :
    ∃ payloads r', (Packet.raw nsp (.ack msgId m)).encode J = .ok payloads ∧
      onMessages J getInt r payloads =
        .ok (r', [.answer nsp msgId (answerOf m)]) := by
  obtain ⟨payloads, after, q, henc, hput, harrived, -⟩ :=
    putPayloads_encode hp r.partialPacket
  have hread : nspRead nsp = nsp := if_neg hnsp
  have hdec : onDecode r.sockets q = .ok [.answer nsp msgId (answerOf m)] := by
    rw [onDecode_arrived hp.sendable harrived]
    show (if nspRead nsp ∈ r.sockets then
      Except.ok [Notice.answer (nspRead nsp) msgId _] else _) = _
    rw [hread, if_pos hsock]
    rfl
  have hmessages := onMessages_eq hput r.sockets
  rw [onPackets_cons, hdec] at hmessages
  exact ⟨payloads, _, henc, hmessages⟩

/-- A peer that answers under the number of a callback that waits has it called
with the answer, over whatever buffers the answer comes in. -/
theorem response_run (h : takeAll J getInt {} turns = .ok (k, log))
    {nsp : Bytes} {msgId : Nat} {m : Message} {f : α}
    (hwaits : Awaits log ((nsp, ackKey msgId), f))
    (hanswer : Deliverable J getInt (Packet.raw nsp (.ack msgId m))) :
    ∃ payloads k', (Packet.raw nsp (.ack msgId m)).encode J = .ok payloads ∧
      takeAll J getInt {} (turns ++ payloads.map .message) =
        .ok (k', log ++ [.called nsp msgId (answerOf m) f]) := by
  have hack := ((tabled_run h).acks _ _).mpr hwaits
  have howned := owned_takeAll (k := {}) ⟨by simp, by simp⟩ h
  have hsock : nsp ∈ k.receiver.sockets := howned.acks _ (mem_of_lookup hack)
  obtain ⟨payloads, r, henc, hmessages⟩ :=
    onMessages_answer hsock (howned.named nsp hsock) hanswer
  have hone := onSocketioAck_some (k := { k with receiver := r }) hack
    (answerOf m)
  refine ⟨payloads, { k with
    receiver := r
    acks := k.acks.filter (·.1 ≠ (nsp, ackKey msgId)) }, henc, ?_⟩
  rw [takeAll_append h, takeAll_messages hmessages, Acks.onNotices,
    Acks.onNotice, hone]
  rfl

/-- The server has nothing to say, and says it. -/
theorem deliverable_empty : Deliverable (JsonText.on (.array [])) getNum
    (Packet.raw [47] (.ack 1 (.array []))) := by
  refine ⟨⟨rfl, ⟨.ack, rfl, rfl⟩, .inr ⟨[], rfl, by simp⟩, by decide,
    fun h => by cases h⟩, fun m hm => ?_⟩
  cases hm
  refine ⟨.array [], [], ⟨rfl, JsonText.exact_array _, ?_, ?_, by decide,
    fun h => absurd rfl h⟩, ?_, by simp⟩
  · simp [Message.Everywhere, EverywhereArray]
  · exact counts_getNum (by decide)
  · simp [Message.Everywhere, EverywhereArray]

theorem response_join : ∃ k log payloads k',
    takeAll (JsonText.on (.array [])) getNum {} (joinTurns.take 2) =
        .ok (k, log) ∧
      (Packet.raw [47] (.ack 1 (.array []))).encode (JsonText.on (.array [])) =
        .ok payloads ∧
      takeAll (JsonText.on (.array [])) getNum {}
          (joinTurns.take 2 ++ payloads.map .message) =
        .ok (k', log ++ [.called [47] 1 [] 7]) := by
  have hrun : takeAll (JsonText.on (.array [])) getNum {} (joinTurns.take 2) =
      .ok _ := rfl
  obtain ⟨payloads, k', henc, htake⟩ := response_run hrun
    ⟨[], _, [], rfl, rfl, fun y hy => by cases hy⟩ deliverable_empty
  exact ⟨_, _, payloads, k', hrun, henc, htake⟩

/-- The number of a callback's event is missing from its line exactly when its
place in the order of all callbacks is in the second half of a round. -/
theorem numbered_run (h : takeAll J getInt {} turns = .ok (k, log)) :
    Throughout (fun before x => ∀ p ack, x = .emitted p (some ack) →
      (idText p.packId = [] ↔
        2 ^ 31 ≤ ((asked before).length + 1) % 2 ^ 32)) log := by
  intro before x after heq p ack hx
  have hid := (tabled_run h).numbered before x after heq p ack hx
  have hsign : 0 ≤ p.packId ↔
      ¬ 2 ^ 31 ≤ ((asked before).length + 1) % 2 ^ 32 := by
    rw [hid, Int.bmod_def]
    omega
  rw [idText]
  split
  · refine iff_of_false (decimal_ne_nil _) ?_
    rwa [← hsign]
  · refine iff_of_true rfl ?_
    rename_i hneg
    rwa [hsign, not_not] at hneg

theorem numbered_join : ∃ k log,
    takeAll (JsonText.on (.array [])) getNum {} joinTurns = .ok (k, log) ∧
      log.length = 3 ∧
      Throughout (fun before x => ∀ p ack, x = .emitted p (some ack) →
        (idText p.packId = [] ↔
          2 ^ 31 ≤ ((asked before).length + 1) % 2 ^ 32)) log := by
  have hrun : takeAll (JsonText.on (.array [])) getNum {} joinTurns =
      .ok _ := rfl
  exact ⟨_, _, hrun, rfl, numbered_run hrun⟩

end

end Codefest.Sio
