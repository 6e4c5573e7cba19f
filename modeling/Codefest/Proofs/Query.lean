import Codefest.Sio.Query

/-!
# What the server reads of the query

The blank that fills up a short escape is no hexadecimal digit. So a value with
a byte below 16 is read as something else, longer than it was, and any other
value is read as it was: `readQuery_connectUrl_iff` says so of the whole query
of a connection, as long as the parts that are not escaped keep clear of what a
query is split at.
-/

namespace Codefest.Sio

open Text

/-- A byte as it is read. -/
def readByte (c : UInt8) : Bytes :=
  if 16 ≤ c then [c] else [37, 32, hexDigit c.toNat]

theorem isPlain_spec {c : UInt8} (h : isPlain c = true) : 48 ≤ c := by
  simp only [isPlain, Bool.or_eq_true, Bool.and_eq_true, decide_eq_true_eq,
    UInt8.le_iff_toNat_le] at h ⊢
  have hnum : (48 : UInt8).toNat = 48 := rfl
  have h97 : (97 : UInt8).toNat = 97 := rfl
  have h65 : (65 : UInt8).toNat = 65 := rfl
  omega

theorem hexDigit_clear : ∀ d < 16, hexDigit d ≠ 37 ∧ hexDigit d ≠ 38 := by
  decide

theorem percentDecode_encodeByte (c : UInt8) (s : Bytes) :
    percentDecode (encodeByte c ++ s) = readByte c ++ percentDecode s := by
  have hlt : c.toNat < 256 := c.toNat_lt
  rw [encodeByte, readByte]
  split
  · rename_i hplain
    have h48 := isPlain_spec hplain
    have hne : c ≠ 37 := by
      rintro rfl
      exact absurd h48 (by decide)
    have hle : 16 ≤ c := UInt8.le_trans (by decide) h48
    rw [if_pos hle]
    exact percentDecode_cons hne s
  · split
    · rename_i hle
      have hle' : 16 ≤ c.toNat := UInt8.le_iff_toNat_le.mp hle
      rw [hexadecimal_byte hle' hlt]
      show percentDecode (37 :: hexDigit (c.toNat / 16) ::
        hexDigit (c.toNat % 16) :: s) = _
      rw [percentDecode_digits (by omega) (by omega), Nat.div_add_mod,
        UInt8.ofNat_toNat]
      rfl
    · rename_i hle
      have hsmall : c.toNat < 16 :=
        Nat.lt_of_not_le fun h => hle (UInt8.le_iff_toNat_le.mpr h)
      rw [hexadecimal_small hsmall]
      show percentDecode (37 :: 32 :: hexDigit c.toNat :: s) = _
      rw [percentDecode_stray rfl, percentDecode_cons (by decide),
        percentDecode_cons (hexDigit_clear _ hsmall).1]
      rfl

theorem percentDecode_encodeQueryString (v : Bytes) :
    percentDecode (encodeQueryString v) = v.flatMap readByte := by
  rw [encodeQueryString]
  induction v with
  | nil => rfl
  | cons c v ih =>
      rw [List.flatMap_cons, List.flatMap_cons, percentDecode_encodeByte, ih]

theorem length_flatMap_readByte (v : Bytes) : (v.flatMap readByte).length =
    v.length + 2 * v.countP fun c => ¬ 16 ≤ c := by
  induction v with
  | nil => rfl
  | cons c v ih =>
      rw [List.flatMap_cons, List.length_append, ih, List.countP_cons, readByte]
      by_cases hc : 16 ≤ c
      · simp [hc]
        omega
      · simp [hc]
        omega

/-- A value is read as it was exactly when none of its escapes is short. -/
theorem percentDecode_encode_iff (v : Bytes) :
    percentDecode (encodeQueryString v) = v ↔ ∀ c ∈ v, 16 ≤ c := by
  rw [percentDecode_encodeQueryString]
  refine ⟨fun h => ?_, fun h => ?_⟩
  · have hlength := length_flatMap_readByte v
    rw [h] at hlength
    have hzero : v.countP (fun c => ¬ 16 ≤ c) = 0 := by omega
    rw [List.countP_eq_zero] at hzero
    intro c hc
    simpa using hzero c hc
  · induction v with
    | nil => rfl
    | cons c v ih =>
        rw [List.forall_mem_cons] at h
        rw [List.flatMap_cons, readByte, if_pos h.1, ih h.2]
        rfl

/-! ## The whole query -/

theorem ne_of_mem_encodeByte {c b : UInt8} (h : b ∈ encodeByte c) : b ≠ 38 := by
  have hlt : c.toNat < 256 := c.toNat_lt
  have hclear : ∀ {d}, d < 16 → hexDigit d ≠ 38 := fun hd =>
    (hexDigit_clear _ hd).2
  rw [encodeByte] at h
  split at h
  · rename_i hplain
    obtain rfl := List.mem_singleton.mp h
    have h48 := isPlain_spec hplain
    rintro rfl
    exact absurd h48 (by decide)
  · rcases Nat.lt_or_ge c.toNat 16 with hsmall | hle
    · rw [hexadecimal_small hsmall] at h
      have hmem : b ∈ [37, 32, hexDigit c.toNat] := h
      simp only [List.mem_cons, List.not_mem_nil, or_false] at hmem
      rcases hmem with rfl | rfl | rfl
      · decide
      · decide
      · exact hclear hsmall
    · rw [hexadecimal_byte hle hlt] at h
      have hmem : b ∈ [37, hexDigit (c.toNat / 16), hexDigit (c.toNat % 16)] :=
        h
      simp only [List.mem_cons, List.not_mem_nil, or_false] at hmem
      rcases hmem with rfl | rfl | rfl
      · decide
      · exact hclear (by omega)
      · exact hclear (by omega)

theorem not_mem_encodeQueryString (v : Bytes) : 38 ∉ encodeQueryString v := by
  intro hmem
  obtain ⟨c, -, hc⟩ := List.mem_flatMap.mp hmem
  exact ne_of_mem_encodeByte hc rfl

/-- A name and a value that go out. -/
def piece (kv : Bytes × Bytes) : Bytes := kv.1 ++ 61 :: encodeQueryString kv.2

theorem queryString_eq (query : List (Bytes × Bytes)) :
    queryString query = (query.map piece).flatMap (38 :: ·) := by
  rw [queryString, List.flatMap_map]
  rfl

/-- What `connect_impl` adds. -/
def Target.parameters (t : Target) : List (Bytes × Bytes) :=
  (ascii "EIO", ascii "4") :: (ascii "transport", ascii "websocket") ::
    (if t.sid = [] then [] else [(ascii "sid", t.sid)]) ++
    [(ascii "t", decimal t.time)]

/-- Nothing in the address is taken for the beginning of the query, and nothing
in what is not escaped for the end of a name or of a piece. -/
structure Target.Clear (t : Target) (query : List (Bytes × Bytes)) : Prop where
  host : 63 ∉ t.host
  resource : 63 ∉ t.resource
  sid : 37 ∉ t.sid ∧ 38 ∉ t.sid
  names : ∀ kv ∈ query, 38 ∉ kv.1 ∧ 61 ∉ kv.1

/-- The URL in front of the query. -/
def Target.address (t : Target) : Bytes :=
  ascii (if t.tls then "wss://" else "ws://") ++ t.hostText ++
    58 :: decimal t.port.toNat ++ t.path

/-- The pieces of the query after the first. -/
def Target.pieces (t : Target) (query : List (Bytes × Bytes)) : List Bytes :=
  ascii "transport=websocket" ::
    (if t.sid = [] then [] else [ascii "sid=" ++ t.sid]) ++
    (ascii "t=" ++ decimal t.time) :: query.map piece

theorem connectUrl_eq (t : Target) (query : List (Bytes × Bytes)) :
    t.connectUrl query = t.address ++ 63 ::
      (ascii "EIO=4" ++ (t.pieces query).flatMap (38 :: ·)) := by
  have hown : ascii "?EIO=4&transport=websocket" =
      63 :: (ascii "EIO=4" ++ 38 :: ascii "transport=websocket") := by decide
  have hsid : ascii "&sid=" = 38 :: ascii "sid=" := by decide
  have htime : ascii "&t=" = 38 :: ascii "t=" := by decide
  rw [Target.connectUrl, Target.url, Target.address, Target.pieces, hown, hsid,
    htime, queryString_eq]
  by_cases hnone : t.sid = [] <;> simp [hnone]

theorem decimal_clear (n : Nat) {b : UInt8} (h : isDigit b = false) :
    b ∉ decimal n := by
  intro hmem
  rw [decimal_isDigit hmem] at h
  cases h

theorem not_mem_address {t : Target} {query : List (Bytes × Bytes)}
    (h : t.Clear query) : 63 ∉ t.address := by
  have hscheme : 63 ∉ ascii (if t.tls then "wss://" else "ws://") := by
    cases t.tls <;> decide
  have hhost : 63 ∉ t.hostText := by
    unfold Target.hostText
    split
    · simp [h.host]
    · exact h.host
  have hpath : 63 ∉ t.path := by
    unfold Target.path
    split
    · decide
    · exact h.resource
  have hport : 63 ∉ decimal t.port.toNat := decimal_clear _ rfl
  simp [Target.address, hscheme, hhost, hpath, hport]

theorem not_mem_pieces {t : Target} {query : List (Bytes × Bytes)}
    (h : t.Clear query) : ∀ p ∈ t.pieces query, 38 ∉ p := by
  have hsid : ∀ p ∈ if t.sid = [] then [] else [ascii "sid=" ++ t.sid],
      38 ∉ p := by
    split
    · simp
    · have hname : 38 ∉ ascii "sid=" := by decide
      simp [hname, h.sid.2]
  have htime : 38 ∉ ascii "t=" ++ decimal t.time := by
    have hname : 38 ∉ ascii "t=" := by decide
    have hvalue : 38 ∉ decimal t.time := decimal_clear _ rfl
    simp [hname, hvalue]
  have hown : 38 ∉ ascii "transport=websocket" := by decide
  intro p hp
  rw [Target.pieces, List.cons_append, List.mem_cons, List.mem_append,
    List.mem_cons] at hp
  rcases hp with rfl | hp | rfl | hp
  · exact hown
  · exact hsid p hp
  · exact htime
  · obtain ⟨kv, hkv, rfl⟩ := List.mem_map.mp hp
    rw [piece, List.mem_append, List.mem_cons]
    rintro (hname | hsign | hvalue)
    · exact (h.names kv hkv).1 hname
    · exact absurd hsign (by decide)
    · exact not_mem_encodeQueryString _ hvalue

theorem readPair_named (name : String) (h : 61 ∉ ascii name) {value : Bytes}
    (hvalue : 37 ∉ value) :
    readPair (ascii name ++ 61 :: value) = (ascii name, value) := by
  rw [readPair_append h, percentDecode_self hvalue]

theorem readPair_pieces {t : Target} {query : List (Bytes × Bytes)}
    (h : t.Clear query) :
    (ascii "EIO=4" :: t.pieces query).map readPair = t.parameters ++
      query.map fun kv => (kv.1, percentDecode (encodeQueryString kv.2)) := by
  have hversion : readPair (ascii "EIO=4") = (ascii "EIO", ascii "4") := by
    decide
  have htransport : readPair (ascii "transport=websocket") =
      (ascii "transport", ascii "websocket") := by decide
  have hsid : readPair (ascii "sid=" ++ t.sid) = (ascii "sid", t.sid) :=
    readPair_named "sid" (by decide) h.sid.1
  have htime : readPair (ascii "t=" ++ decimal t.time) =
      (ascii "t", decimal t.time) :=
    readPair_named "t" (by decide) (decimal_clear _ rfl)
  have hquery : (query.map piece).map readPair = query.map fun kv =>
      (kv.1, percentDecode (encodeQueryString kv.2)) := by
    rw [List.map_map]
    refine List.map_congr_left fun kv hkv => ?_
    exact readPair_append (h.names kv hkv).2 _
  rw [Target.pieces, Target.parameters]
  split <;> simp [hversion, htransport, hsid, htime, hquery]

/-- The server reads the parameters of the client and then the program's query
as it was given, exactly when no value has a byte whose escape is short. -/
theorem readQuery_connectUrl_iff {t : Target} {query : List (Bytes × Bytes)}
    (h : t.Clear query) :
    readQuery (t.connectUrl query) = t.parameters ++ query ↔
      ∀ kv ∈ query, ∀ c ∈ kv.2, 16 ≤ c := by
  have hfirst : 38 ∉ ascii "EIO=4" := by decide
  rw [connectUrl_eq, readQuery_append (not_mem_address h),
    splitOn_pieces hfirst (not_mem_pieces h), readPair_pieces h,
    List.append_cancel_left_eq]
  nth_rewrite 2 [← List.map_id query]
  rw [List.map_inj_left]
  refine forall₂_congr fun kv _ => ?_
  rw [← percentDecode_encode_iff, id, Prod.ext_iff]
  simp

/-- The name of a player, blanks and a sign included. -/
theorem readQuery_player :
    let t : Target := ⟨false, ascii "localhost", 80, [47], [], 1700000000⟩
    let query := [(ascii "player", ascii "player1 & xxx")]
    readQuery (t.connectUrl query) = t.parameters ++ query ↔
      ∀ kv ∈ query, ∀ c ∈ kv.2, 16 ≤ c := by
  intro t query
  exact readQuery_connectUrl_iff ⟨by decide, by decide, by decide, by decide⟩

end Codefest.Sio
