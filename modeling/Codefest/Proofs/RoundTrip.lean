import Codefest.Lib.Sequence
import Codefest.Sio.Encoder

/-!
# A message there and back

What `accept_message` writes, `from_json` reads. The buffers are numbered in
the order in which the tree is walked, so each placeholder finds its own bytes
again, and the reader only has to be given those buffers, however many more
there are.

The one message that does not come back is an object that looks like a
placeholder: with `_placeholder` set to true, the decoder takes it for one.
-/

namespace Codefest.Sio

open Sequence

section

variable {v : Json} {vs : List Json} {members : List (String × Json)}
  {buffers buffers' : List ByteArray} {m : Message} {ptrs : List Ptr}
  {fields : Fields} {name : String}

theorem acceptArray_cons
    (h : acceptArray (some m :: ptrs) buffers = .ok (vs, buffers')) :
    ∃ v mid vs', acceptMessage m buffers = .ok (v, mid) ∧
      acceptArray ptrs mid = .ok (vs', buffers') ∧ vs = v :: vs' := by
  rw [acceptArray] at h
  obtain ⟨⟨v, mid⟩, hv, h⟩ := bind_eq_ok.mp h
  obtain ⟨⟨vs', last⟩, hvs, h⟩ := bind_eq_ok.mp h
  cases h
  exact ⟨v, mid, vs', hv, hvs, rfl⟩

theorem acceptObject_cons
    (h : acceptObject ((name, some m) :: fields) buffers =
      .ok (members, buffers')) :
    ∃ v mid members', acceptMessage m buffers = .ok (v, mid) ∧
      acceptObject fields mid = .ok (members', buffers') ∧
      members = (name, v) :: members' := by
  rw [acceptObject] at h
  obtain ⟨⟨v, mid⟩, hv, h⟩ := bind_eq_ok.mp h
  obtain ⟨⟨members', last⟩, hvs, h⟩ := bind_eq_ok.mp h
  cases h
  exact ⟨v, mid, members', hv, hvs, rfl⟩

theorem acceptMessage_array (h : acceptMessage (.array ptrs) buffers =
    .ok (v, buffers')) :
    ∃ vs, acceptArray ptrs buffers = .ok (vs, buffers') ∧ v = .array vs := by
  rw [acceptMessage] at h
  cases hvs : acceptArray ptrs buffers with
  | error e =>
      rw [hvs] at h
      cases h
  | ok r =>
      rw [hvs] at h
      cases h
      exact ⟨r.1, rfl, rfl⟩

theorem acceptMessage_object (h : acceptMessage (.object fields) buffers =
    .ok (v, buffers')) :
    ∃ members, acceptObject fields buffers = .ok (members, buffers') ∧
      v = .object members := by
  rw [acceptMessage] at h
  cases hvs : acceptObject fields buffers with
  | error e =>
      rw [hvs] at h
      cases h
  | ok r =>
      rw [hvs] at h
      cases h
      exact ⟨r.1, rfl, rfl⟩

end

mutual

theorem acceptMessage_buffers {m : Message} {v : Json}
    {buffers buffers' : List ByteArray}
    (h : acceptMessage m buffers = .ok (v, buffers')) :
    buffers <+: buffers' := by
  match m with
  | .integer _ | .double _ | .string _ | .boolean _ | .null =>
      rw [acceptMessage] at h
      cases h
      exact List.prefix_refl _
  | .binary _ =>
      rw [acceptMessage] at h
      cases h
      exact List.prefix_append _ _
  | .array ptrs =>
      obtain ⟨vs, hvs, -⟩ := acceptMessage_array h
      exact acceptArray_buffers hvs
  | .object fields =>
      obtain ⟨members, hvs, -⟩ := acceptMessage_object h
      exact acceptObject_buffers hvs

theorem acceptArray_buffers {ptrs : List Ptr} {vs : List Json}
    {buffers buffers' : List ByteArray}
    (h : acceptArray ptrs buffers = .ok (vs, buffers')) :
    buffers <+: buffers' := by
  match ptrs with
  | [] =>
      rw [acceptArray] at h
      cases h
      exact List.prefix_refl _
  | none :: _ =>
      rw [acceptArray] at h
      cases h
  | some m :: ptrs =>
      obtain ⟨v, mid, vs', hv, hvs, -⟩ := acceptArray_cons h
      exact (acceptMessage_buffers hv).trans (acceptArray_buffers hvs)

theorem acceptObject_buffers {fields : Fields} {members : List (String × Json)}
    {buffers buffers' : List ByteArray}
    (h : acceptObject fields buffers = .ok (members, buffers')) :
    buffers <+: buffers' := by
  match fields with
  | [] =>
      rw [acceptObject] at h
      cases h
      exact List.prefix_refl _
  | (_, none) :: _ =>
      rw [acceptObject] at h
      cases h
  | (_, some m) :: fields =>
      obtain ⟨v, mid, members', hv, hvs, -⟩ := acceptObject_cons h
      exact (acceptMessage_buffers hv).trans (acceptObject_buffers hvs)

end

theorem getBool_acceptMessage {m : Message} {v : Json}
    {buffers buffers' : List ByteArray}
    (h : acceptMessage m buffers = .ok (v, buffers')) :
    v.getBool = true ↔ m = .boolean true := by
  match m with
  | .integer _ | .double _ | .string _ | .null =>
      rw [acceptMessage] at h
      cases h
      simp [Json.getBool]
  | .boolean b =>
      rw [acceptMessage] at h
      cases h
      simp [Json.getBool]
  | .binary _ =>
      rw [acceptMessage] at h
      cases h
      simp [Json.getBool, placeholder]
  | .array ptrs =>
      obtain ⟨vs, -, rfl⟩ := acceptMessage_array h
      simp [Json.getBool]
  | .object fields =>
      obtain ⟨members, -, rfl⟩ := acceptMessage_object h
      simp [Json.getBool]

/-- An object is written as something the decoder takes for a placeholder when
it is marked as one. -/
theorem isPlaceholder_acceptObject {fields : Fields}
    {members : List (String × Json)} {buffers buffers' : List ByteArray}
    (h : acceptObject fields buffers = .ok (members, buffers')) :
    Json.isPlaceholder members = true ↔ ¬ Unmarked fields := by
  induction fields generalizing members buffers with
  | nil =>
      rw [acceptObject] at h
      cases h
      simp [Json.isPlaceholder, Unmarked, index]
  | cons field fields ih =>
      obtain ⟨name, p⟩ := field
      cases p with
      | none =>
          rw [acceptObject] at h
          cases h
      | some m =>
          obtain ⟨v, mid, members', hv, hvs, rfl⟩ := acceptObject_cons h
          have hrest := ih hvs
          simp only [Json.isPlaceholder, Unmarked, index, ne_eq, not_not,
            List.lookup_cons] at hrest ⊢
          cases hname : "_placeholder" == name with
          | true => simpa using getBool_acceptMessage hv
          | false => exact hrest

/-- Distinct names are all kept, in order. -/
theorem fromJsonMembers_eq (getInt : Option Json → Int)
    (buffers : List ByteArray) {members : List (String × Json)}
    {acc : Fields}
    (hkeys : (acc.map (·.1) ++ members.map (·.1)).Nodup) :
    fromJsonMembers getInt buffers members acc =
      acc ++ members.map fun kv => (kv.1, fromJson getInt buffers kv.2) := by
  induction members generalizing acc with
  | nil => simp [fromJsonMembers]
  | cons kv members ih =>
      obtain ⟨name, v⟩ := kv
      have hnew : acc.any (·.1 == name) = false := by
        rw [List.any_eq_false]
        intro entry hentry heq
        have hmem : entry.1 ∈ acc.map (·.1) := List.mem_map_of_mem hentry
        rw [eq_of_beq heq] at hmem
        exact (List.nodup_append.mp hkeys).2.2 name hmem name (by simp) rfl
      rw [fromJsonMembers, assign, if_neg (by simp [hnew])]
      rw [ih (by simpa using hkeys)]
      simp

theorem acceptObject_keys {fields : Fields} {members : List (String × Json)}
    {buffers buffers' : List ByteArray}
    (h : acceptObject fields buffers = .ok (members, buffers')) :
    members.map (·.1) = fields.map (·.1) := by
  induction fields generalizing members buffers with
  | nil =>
      rw [acceptObject] at h
      cases h
      rfl
  | cons field fields ih =>
      obtain ⟨name, p⟩ := field
      cases p with
      | none =>
          rw [acceptObject] at h
          cases h
      | some m =>
          obtain ⟨v, mid, members', hv, hvs, rfl⟩ := acceptObject_cons h
          rw [List.map_cons, List.map_cons, ih hvs]

/-! ## There and back -/

/-- `GetInt` reads the numbers of so many buffers. -/
def Counts (getInt : Option Json → Int) (count : Nat) : Prop :=
  ∀ n < count, getInt (some (.int64 (Int64.ofNat n))) = n

section

variable {getInt : Option Json → Int} {all : List ByteArray}

theorem fromJson_placeholder (hnum : Counts getInt all.length)
    {buffers : List ByteArray} {b : ByteArray} (h : buffers ++ [b] <+: all) :
    fromJson getInt all (placeholder buffers.length) = some (.binary b) := by
  obtain ⟨more, rfl⟩ := h
  have hlt : buffers.length < (buffers ++ [b] ++ more).length := by
    simp
  rw [placeholder, fromJson, if_pos (by rfl), fromPlaceholder]
  have hlookup : [("_placeholder", Json.bool true),
      ("num", .int64 (Int64.ofNat buffers.length))].lookup "num" =
        some (.int64 (Int64.ofNat buffers.length)) := rfl
  rw [hlookup, hnum _ hlt]
  have hrange : (0 : Int) ≤ buffers.length ∧
      (buffers.length : Int) < (buffers ++ [b] ++ more).length :=
    ⟨Int.natCast_nonneg _, Int.ofNat_lt.mpr hlt⟩
  rw [if_pos hrange, Int.toNat_natCast]
  simp

/-- An object does not come back from a placeholder. -/
theorem fromPlaceholder_ne_object (members : List (String × Json))
    (fields : Fields) :
    fromPlaceholder getInt all members ≠ some (.object fields) := by
  rw [fromPlaceholder]
  split
  · cases all[(getInt (members.lookup "num")).toNat]? <;> simp
  · simp

mutual

/-- What was written for a message is read as that message, given its buffers,
exactly when no object in it is marked as a placeholder. -/
theorem fromJson_acceptMessage (hnum : Counts getInt all.length) {m : Message}
    {v : Json} {buffers buffers' : List ByteArray}
    (h : acceptMessage m buffers = .ok (v, buffers'))
    (hkeys : m.Everywhere KeysDistinct) (hall : buffers' <+: all) :
    fromJson getInt all v = some m ↔ m.Everywhere Unmarked := by
  match m with
  | .integer _ | .double _ | .string _ | .boolean _ | .null =>
      rw [acceptMessage] at h
      cases h
      simp [fromJson, Message.Everywhere]
  | .binary b =>
      rw [acceptMessage] at h
      cases h
      simp [fromJson_placeholder hnum hall, Message.Everywhere]
  | .array ptrs =>
      obtain ⟨vs, hvs, rfl⟩ := acceptMessage_array h
      rw [Message.Everywhere] at hkeys
      have hrest := fromJson_acceptArray hnum hvs hkeys hall
      simpa [fromJson, fromJsonArray_eq, Message.Everywhere] using hrest
  | .object fields =>
      obtain ⟨members, hvs, rfl⟩ := acceptMessage_object h
      rw [Message.Everywhere] at hkeys
      have hrest := fromJson_acceptObject hnum hvs hkeys.2 hall
      have hmark := isPlaceholder_acceptObject hvs
      rw [fromJson, Message.Everywhere]
      by_cases hun : Unmarked fields
      · rw [if_neg (by rw [hmark]; exact not_not.mpr hun), fromJsonMembers_eq]
        · simpa [hun] using hrest
        · rw [List.map_nil, List.nil_append, acceptObject_keys hvs]
          exact hkeys.1
      · rw [if_pos (hmark.mpr hun)]
        simp [hun, fromPlaceholder_ne_object]

theorem fromJson_acceptArray (hnum : Counts getInt all.length)
    {ptrs : List Ptr} {vs : List Json} {buffers buffers' : List ByteArray}
    (h : acceptArray ptrs buffers = .ok (vs, buffers'))
    (hkeys : EverywhereArray KeysDistinct ptrs) (hall : buffers' <+: all) :
    vs.map (fromJson getInt all) = ptrs ↔ EverywhereArray Unmarked ptrs := by
  match ptrs with
  | [] =>
      rw [acceptArray] at h
      cases h
      simp [EverywhereArray]
  | none :: _ =>
      rw [acceptArray] at h
      cases h
  | some m :: ptrs =>
      obtain ⟨v, mid, vs', hv, hvs, rfl⟩ := acceptArray_cons h
      rw [EverywhereArray] at hkeys
      have hfirst := fromJson_acceptMessage hnum hv hkeys.1
        ((acceptArray_buffers hvs).trans hall)
      have hrest := fromJson_acceptArray hnum hvs hkeys.2 hall
      rw [List.map_cons, List.cons.injEq, hfirst, hrest, EverywhereArray]

theorem fromJson_acceptObject (hnum : Counts getInt all.length)
    {fields : Fields} {members : List (String × Json)}
    {buffers buffers' : List ByteArray}
    (h : acceptObject fields buffers = .ok (members, buffers'))
    (hkeys : EverywhereFields KeysDistinct fields) (hall : buffers' <+: all) :
    (members.map fun kv => (kv.1, fromJson getInt all kv.2)) = fields ↔
      EverywhereFields Unmarked fields := by
  match fields with
  | [] =>
      rw [acceptObject] at h
      cases h
      simp [EverywhereFields]
  | (_, none) :: _ =>
      rw [acceptObject] at h
      cases h
  | (name, some m) :: fields =>
      obtain ⟨v, mid, members', hv, hvs, rfl⟩ := acceptObject_cons h
      rw [EverywhereFields] at hkeys
      have hfirst := fromJson_acceptMessage hnum hv hkeys.1
        ((acceptObject_buffers hvs).trans hall)
      have hrest := fromJson_acceptObject hnum hvs hkeys.2 hall
      rw [List.map_cons, List.cons.injEq, Prod.mk.injEq, hfirst, hrest,
        EverywhereFields]
      simp

end

end

/-- `GetInt` of a number that is an `int`. -/
def getNum : Option Json → Int
  | some (.int64 n) => n.toInt
  | _ => 0

theorem counts_getNum {count : Nat} (h : count ≤ 2147483648) :
    Counts getNum count := fun n hn =>
  Int64.toInt_ofNat_of_lt (by omega)

/-- A picture under a name. -/
theorem fromJson_picture :
    let picture : ByteArray := ⟨#[4, 1]⟩
    let m : Message := .array [some (.string "map"), some (.binary picture)]
    fromJson getNum [picture] (.array [.string "map", placeholder 0]) = some m ↔
      m.Everywhere Unmarked := by
  intro picture m
  have hwritten : acceptMessage m [] =
      .ok (.array [.string "map", placeholder 0], [picture]) := rfl
  exact fromJson_acceptMessage (counts_getNum (by decide)) hwritten
    (by simp [m, Message.Everywhere, EverywhereArray]) (List.prefix_refl _)

end Codefest.Sio
