import Codefest.Sio.Wire

/-!
# The line of a packet

`parse` finds the parts of a line by searching for single bytes, and some of
the searches start over from the front. A part is found when none of the bytes
before it could end the search, and that is what the parts written by `accept`
have in common: the header and the id are digits, a namespace begins with the
slash that it is recognised by, and the JSON text with a byte that is neither.

The lemmas follow the order in which `parse` works, each from its own position
on, and `parse_messageLine` puts them together: what was written for a packet
is read as that packet.
-/

namespace Codefest.Sio

open Text

variable {J : JsonText} {getInt : Option Json → Int}

theorem stoi_decimal {n : Nat} (h : n ≤ 2147483647) :
    stoi (decimal n) = .ok (n : Int) := by
  rw [stoi, scanInt_decimal]
  dsimp only
  rw [if_pos (by omega)]

theorem stoul_decimal {n : Nat} (h : n < 4294967296) :
    stoul (decimal n) = .ok n := by
  rw [stoul, scanInt_decimal]
  dsimp only
  rw [if_pos (by omega)]
  congr 1
  omega

/-- A digit is none of the bytes that a part of a line begins or ends with. -/
theorem decimal_not_mem {n : Nat} {b : UInt8} (h : b ∈ decimal n) :
    b ∉ ([123, 91, 34, 47, 44, 45] : Bytes) := by
  have hdigit := decimal_isDigit h
  intro hmem
  simp only [List.mem_cons, List.not_mem_nil, or_false] at hmem
  rcases hmem with rfl | rfl | rfl | rfl | rfl | rfl <;>
    exact absurd hdigit (by decide)

theorem idText_not_mem {id : Int} {b : UInt8} (h : b ∈ idText id) :
    b ∉ ([123, 91, 34, 47, 44, 45] : Bytes) := by
  unfold idText at h
  split at h
  · exact decimal_not_mem h
  · cases h

theorem parseId_append {p : RawPacket} {id : Int}
    (hid : -1 ≤ id ∧ id ≤ 2147483647) (hp : p.packId = -1)
    (pre json : Bytes) :
    parseId p (pre ++ idText id ++ json) pre.length
      (pre.length + (idText id).length) = .ok id := by
  rw [parseId, stretch_append]
  unfold idText
  split
  · have hne := List.length_pos_iff.mpr (decimal_ne_nil id.toNat)
    rw [if_pos (by omega), stoi_decimal (by omega), Int.toNat_of_nonneg ‹_›]
  · rw [if_neg (by simp), hp]
    congr 1
    omega

/-- What comes of the JSON text, if there is one: the message, or the first
buffer of a packet that waits for more. -/
def withText (J : JsonText) (getInt : Option Json → Int) (p : RawPacket) :
    Option Bytes → RawPacket × Bool
  | none => (p, false)
  | some json =>
      if p.frame = .message ∧ p.type.any PacketType.isBinary then
        ({ p with buffers := p.buffers ++ [json] }, true)
      else ({ p with message := fromJson getInt [] (J.parse json) }, false)

theorem parseMessage_append {p : RawPacket} {id : Int}
    (hid : -1 ≤ id ∧ id ≤ 2147483647) (hp : p.packId = -1)
    (pre json : Bytes) :
    parseMessage J getInt p (pre ++ idText id ++ json) pre.length
        (pre.length + (idText id).length) =
      .ok (withText J getInt { p with packId := id } (some json)) := by
  have hdrop : (pre ++ idText id ++ json).drop
      (pre.length + (idText id).length) = json := by
    rw [← List.length_append, List.drop_left]
  rw [parseMessage, parseId_append hid hp, hdrop]
  rfl

/-! ## The namespace -/

/-- The bytes that a JSON text with something in it begins with. -/
def openers : Bytes := [34, 91, 123]

section Namespace

variable {p : RawPacket} {pre tail rest : Bytes} {c : UInt8} {id : Int}

theorem parseNsp_root_none (hp : p.packId = -1) :
    parseNsp J getInt p pre pre.length =
      .ok ({ p with nsp := [47], packId := -1 }, false) := by
  rw [parseNsp, findFrom_eq_none, ← hp]
  rw [List.drop_length]
  exact fun x hx => (List.not_mem_nil hx).elim

/-- The search for the JSON text passes over the id. -/
theorem findFrom_idText {set : Bytes} (hset : set ⊆ [123, 91, 34, 47])
    (hopen : openers ⊆ set) (hc : c ∈ openers) :
    findFrom (· ∈ set) (pre ++ idText id ++ c :: rest) pre.length =
      some (pre.length + (idText id).length) := by
  rw [findFrom_append (pre ++ idText id), List.length_append]
  · simp
  · rw [List.drop_left]
    intro x hx
    have hno := idText_not_mem hx
    refine decide_eq_false fun hmem => hno ?_
    have hmem' := hset hmem
    simp_all
  · exact decide_eq_true (hopen hc)

theorem parseNsp_root (hid : -1 ≤ id ∧ id ≤ 2147483647) (hp : p.packId = -1)
    (hc : c ∈ openers) :
    parseNsp J getInt p (pre ++ idText id ++ c :: rest) pre.length =
      .ok (withText J getInt { p with nsp := [47], packId := id }
        (some (c :: rest))) := by
  have hat : (pre ++ idText id ++ c :: rest)[pre.length +
      (idText id).length]? ≠ some 47 := by
    rw [← List.length_append, List.getElem?_append_right (Nat.le_refl _)]
    simp only [Nat.sub_self, List.getElem?_cons_zero, ne_eq, Option.some.injEq]
    rintro rfl
    exact absurd hc (by decide)
  rw [parseNsp, findFrom_idText (by simp) (by decide) hc]
  dsimp only
  rw [if_neg hat]
  exact parseMessage_append (p := { p with nsp := [47] }) hid hp pre (c :: rest)

theorem findFrom_slash (pre tail : Bytes) :
    findFrom (· ∈ ([123, 91, 34, 47] : Bytes)) (pre ++ 47 :: tail) pre.length =
      some pre.length := by
  refine findFrom_append pre (Nat.le_refl _) ?_ (by decide) tail
  rw [List.drop_length]
  exact fun x hx => (List.not_mem_nil hx).elim

theorem parseNsp_named_none (hp : p.packId = -1) (hpre : 44 ∉ pre)
    (htail : 44 ∉ tail) :
    parseNsp J getInt p (pre ++ 47 :: tail) pre.length =
      .ok ({ p with nsp := 47 :: tail, packId := -1 }, false) := by
  have hcomma : findFrom (· == 44) (pre ++ 47 :: tail) 0 = none := by
    refine findFrom_eq_none fun x hx => ?_
    rw [List.drop_zero] at hx
    rw [beq_eq_false_iff_ne]
    rintro rfl
    simp_all
  rw [parseNsp, findFrom_slash]
  dsimp only
  rw [if_pos (by simp), hcomma, ← hp]
  simp

variable (J getInt rest) in
theorem parseNsp_named (hid : -1 ≤ id ∧ id ≤ 2147483647) (hp : p.packId = -1)
    (hc : c ∈ openers) (hpre : 44 ∉ pre) (htail : 44 ∉ tail) :
    parseNsp J getInt p (pre ++ 47 :: tail ++ [44] ++ idText id ++ c :: rest)
        pre.length =
      .ok (withText J getInt { p with nsp := 47 :: tail, packId := id }
        (some (c :: rest))) := by
  have hslash : findFrom (· ∈ ([123, 91, 34, 47] : Bytes))
      (pre ++ 47 :: tail ++ [44] ++ idText id ++ c :: rest) pre.length =
        some pre.length := by
    simpa using findFrom_slash pre
      (tail ++ 44 :: (idText id ++ c :: rest))
  have hcomma : findFrom (· == 44)
      (pre ++ 47 :: tail ++ [44] ++ idText id ++ c :: rest) 0 =
        some (pre.length + (47 :: tail).length) := by
    rw [← List.length_append]
    have hfirst := findFrom_append (p := (· == 44)) (x := 44)
      (pre ++ 47 :: tail) (Nat.zero_le _) ?_ rfl (idText id ++ c :: rest)
    · simpa using hfirst
    · intro x hx
      rw [List.drop_zero] at hx
      rw [beq_eq_false_iff_ne]
      rintro rfl
      simp_all
  have hnsp : stretch (pre ++ 47 :: tail ++ [44] ++ idText id ++ c :: rest)
      pre.length (some (pre.length + (47 :: tail).length)) = 47 :: tail := by
    simpa using stretch_append pre (47 :: tail)
      (44 :: (idText id ++ c :: rest))
  have hjson : findFrom (· ∈ ([34, 91, 123] : Bytes))
      (pre ++ 47 :: tail ++ [44] ++ idText id ++ c :: rest)
      (pre ++ 47 :: tail ++ [44]).length =
        some ((pre ++ 47 :: tail ++ [44]).length + (idText id).length) :=
    findFrom_idText (by simp) (by decide) hc
  have hpos : pre.length + (47 :: tail).length + 1 =
      (pre ++ 47 :: tail ++ [44]).length := by
    rw [List.length_append, List.length_append]
    rfl
  rw [parseNsp, hslash]
  dsimp only
  rw [if_pos (by simp), hcomma]
  dsimp only
  rw [hnsp, hpos, hjson]
  exact parseMessage_append (p := { p with nsp := 47 :: tail }) hid hp _ _

end Namespace

/-- A namespace that can be found again: it starts with the slash that it is
recognised by, and the comma that ends it is its first. -/
def NspOk (nsp : Bytes) : Prop :=
  nsp = [] ∨ ∃ tail, nsp = 47 :: tail ∧ 44 ∉ tail

/-- The root namespace is read as `/`. -/
def nspRead (nsp : Bytes) : Bytes := if nsp = [] then [47] else nsp

/-- A JSON text that can be found: it begins with one of the openers. -/
def TextOk (text : Bytes) : Prop := ∃ c ∈ openers, ∃ rest, text = c :: rest

section Line

variable {p : RawPacket} {nsp pre : Bytes} {id : Int} {json : Option Bytes}

/-- The line after its header, whatever parts of it there are. -/
theorem parseNsp_line (hnsp : NspOk nsp)
    (hid : -1 ≤ id ∧ id ≤ 2147483647) (hp : p.packId = -1) (hpre : 44 ∉ pre)
    (hjson : ∀ text, json = some text → TextOk text)
    (hnone : json = none → id = -1) :
    parseNsp J getInt p (pre ++ nspText nsp (json.isSome || 0 ≤ id) ++
        idText id ++ json.getD []) pre.length =
      .ok (withText J getInt { p with nsp := nspRead nsp, packId := id }
        json) := by
  by_cases hroot : nsp = [] ∨ nsp = [47]
  · have hread : nspRead nsp = [47] := by
      rcases hroot with rfl | rfl <;> rfl
    rw [nspText, if_pos hroot, List.append_nil, hread]
    cases json with
    | none =>
        obtain rfl := hnone rfl
        simpa [idText, withText] using parseNsp_root_none hp
    | some text =>
        obtain ⟨c, hc, rest, rfl⟩ := hjson text rfl
        exact parseNsp_root hid hp hc
  · obtain ⟨tail, rfl, htail⟩ := hnsp.resolve_left fun h => hroot (.inl h)
    have hread : nspRead (47 :: tail) = 47 :: tail := if_neg (by simp)
    rw [nspText, if_neg hroot, hread]
    cases json with
    | none =>
        obtain rfl := hnone rfl
        simpa [idText, withText] using parseNsp_named_none hp hpre htail
    | some text =>
        obtain ⟨c, hc, rest, rfl⟩ := hjson text rfl
        have hnamed := parseNsp_named J getInt rest hid hp hc hpre htail
        rw [List.append_assoc pre] at hnamed
        exact hnamed

end Line

theorem decimal_code (t : PacketType) : decimal t.code = [ofDigit t.code] := by
  cases t <;> rfl

theorem ofCode_code (t : PacketType) (s : Bytes) :
    PacketType.ofCode (digitCode (52 :: ofDigit t.code :: s) 1) = some t := by
  cases t <;> rfl

/-- The header says what the packet is and how many buffers belong to it. -/
theorem parse_header {t : PacketType} {n : Nat}
    (ht : t.isBinary = true ↔ n ≠ 0) (hn : n < 4294967296) (s : Bytes) :
    parse J getInt (52 :: decimal t.code ++ countText n ++ s) =
      parseNsp J getInt
        { frame := .message, type := some t, pendingBuffers := n }
        (52 :: decimal t.code ++ countText n ++ s)
        (52 :: decimal t.code ++ countText n).length := by
  have hframe : ∀ s, FrameType.ofCode (digitCode (52 :: s) 0) = .message :=
    fun _ => rfl
  rw [decimal_code]
  simp only [parse, List.cons_append, List.nil_append, hframe, if_pos,
    ofCode_code]
  by_cases hzero : n = 0
  · subst hzero
    rw [if_neg (by simpa using ht)]
    rfl
  · have hscore : findFrom (· == 45)
        (52 :: ofDigit t.code :: (countText n ++ s)) 0 =
          some (2 + (decimal n).length) := by
      have hfind := findFrom_append (p := (· == 45)) (x := 45)
        ([52, ofDigit t.code] ++ decimal n) (Nat.zero_le _) ?_ rfl s
      · rw [List.length_append] at hfind
        simpa [countText, hzero] using hfind
      · intro x hx
        rw [List.drop_zero, ← decimal_code] at hx
        rw [beq_eq_false_iff_ne]
        rintro rfl
        have hno := fun n => mt (decimal_not_mem (n := n) (b := 45)) (by simp)
        simp [hno] at hx
    have hcount : stretch (52 :: ofDigit t.code :: (countText n ++ s)) 2
        (some (2 + (decimal n).length)) = decimal n := by
      simpa [countText, hzero] using
        stretch_append [52, ofDigit t.code] (decimal n) (45 :: s)
    rw [if_pos (ht.mpr hzero), hscore, hcount, stoul_decimal hn]
    have hpos : 2 + (decimal n).length + 1 =
        (52 :: ofDigit t.code :: countText n).length := by
      simp [countText, hzero]
      omega
    simp only [Option.map_some, Option.getD_some, hpos]
    rfl

/-! ## A whole line -/

/-- What the line alone says of a packet. -/
def RawPacket.header (p : RawPacket) (buffers : Nat) : RawPacket where
  frame := .message
  type := p.type.map (PacketType.sent (buffers ≠ 0))
  nsp := nspRead p.nsp
  packId := p.packId
  pendingBuffers := buffers

/-- A packet whose line can be taken apart again: a message of a type that is
not binary yet, in a namespace that can be found, with an id that is read only
in front of a message. -/
structure Sendable (p : RawPacket) : Prop where
  frame : p.frame = .message
  type : ∃ t, p.type = some t ∧ t.isBinary = false
  nsp : NspOk p.nsp
  packId : -1 ≤ p.packId ∧ p.packId ≤ 2147483647
  answer : p.message = none → p.packId = -1

theorem isBinary_sent {t : PacketType} {n : Nat} (ht : t.isBinary = false)
    (htype : n ≠ 0 → t = .event ∨ t = .ack) :
    (t.sent (n ≠ 0)).isBinary = true ↔ n ≠ 0 := by
  by_cases hn : n = 0
  · subst hn
    cases t <;> simp_all [PacketType.sent, PacketType.isBinary]
  · rcases htype hn with rfl | rfl <;>
      simp [PacketType.sent, PacketType.isBinary, hn]

variable (J getInt) in
theorem parse_messageLine {p : RawPacket} (hp : Sendable p) {n : Nat}
    (json : Option Bytes) (hn : n < 4294967296)
    (htype : n ≠ 0 → p.type = some .event ∨ p.type = some .ack)
    (hjson : ∀ text, json = some text → TextOk text)
    (hnone : json = none → p.packId = -1) :
    parse J getInt (messageLine p json n) =
      .ok (withText J getInt (p.header n) json) := by
  obtain ⟨t, ht, hbin⟩ := hp.type
  have hsent := isBinary_sent (n := n) hbin fun hne => by
    simpa [ht] using htype hne
  have hcomma : 44 ∉ 52 :: decimal (t.sent (n ≠ 0)).code ++ countText n := by
    have hno := fun n => mt (decimal_not_mem (n := n) (b := 44)) (by simp)
    unfold countText
    split <;> simp [hno]
  rw [messageLine, ht, Option.getD_some, List.append_assoc _ (nspText _ _),
    List.append_assoc _ _ (json.getD []), parse_header hsent hn,
    ← List.append_assoc, ← List.append_assoc,
    parseNsp_line hp.nsp hp.packId rfl hcomma hjson hnone, RawPacket.header, ht]
  rfl

end Codefest.Sio
