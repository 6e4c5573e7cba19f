import Codefest.Sio.Message

/-!
# The decoder (`sio_packet.cpp`)

`from_json` turns a parsed JSON value into a message tree. Two kinds of value
have no message: an integer that only a `uint64_t` holds, which is neither an
`Int64` nor a `Double` to the JSON library, and a placeholder for a binary
buffer that did not come with the packet. Each leaves a null pointer where the
value was, so a null can be at any place in the tree.

Strings are sequences of characters here and of bytes there. The number of a
placeholder is read with `GetInt` and no test of its kind; what that gives for
something that is not an `int` is up to the library, and `getInt` stands for
it.
-/

namespace Codefest.Sio

/-- A parsed JSON value, by what the tests of `from_json` tell apart. -/
inductive Json where
  | int64 (v : Int64)
  | uint64 (v : UInt64)
  | double (v : Float)
  | string (v : String)
  | array (v : List Json)
  | object (v : List (String × Json))
  | bool (v : Bool)
  | null

namespace Json

/-- `GetBool`, which is false for whatever is not `true`. -/
def getBool : Json → Bool
  | bool v => v
  | _ => false

def isPlaceholder (members : List (String × Json)) : Bool :=
  (members.lookup "_placeholder").any getBool

end Json

section

variable (getInt : Option Json → Int) (buffers : List ByteArray)

/-- The branch of a placeholder: `buffers[num]`, if there is such a buffer. -/
def fromPlaceholder (members : List (String × Json)) : Ptr :=
  let num := getInt (members.lookup "num")
  if 0 ≤ num ∧ num < buffers.length then
    buffers[num.toNat]?.map .binary
  else none

mutual

def fromJson : Json → Ptr
  | .int64 v => some (.integer v)
  | .uint64 _ => none
  | .double v => some (.double v)
  | .string v => some (.string v)
  | .array v => some (.array (fromJsonArray v))
  | .object v =>
      if Json.isPlaceholder v then fromPlaceholder getInt buffers v
      else some (.object (fromJsonMembers v []))
  | .bool v => some (.boolean v)
  | .null => some .null

def fromJsonArray : List Json → List Ptr
  | [] => []
  | v :: vs => fromJson v :: fromJsonArray vs

/-- The loop over an object, which assigns: the last of two members with one
name stays. -/
def fromJsonMembers : List (String × Json) → Fields → Fields
  | [], m => m
  | (name, v) :: members, m =>
      fromJsonMembers members (assign m name (fromJson v))

end

theorem fromPlaceholder_eq_none {members : List (String × Json)} :
    fromPlaceholder getInt buffers members = none ↔
      ¬ (0 ≤ getInt (members.lookup "num") ∧
        getInt (members.lookup "num") < buffers.length) := by
  rw [fromPlaceholder]
  split
  · rename_i h
    have hlt : (getInt (members.lookup "num")).toNat < buffers.length := by
      omega
    simp [h, hlt]
  · simp [*]

/-- A value decodes to the null pointer in two cases only: the number that is
too large, and the placeholder whose buffer is missing. -/
theorem fromJson_eq_none {v : Json} : fromJson getInt buffers v = none ↔
    (∃ n, v = .uint64 n) ∨
      ∃ members, v = .object members ∧ Json.isPlaceholder members = true ∧
        ¬ (0 ≤ getInt (members.lookup "num") ∧
          getInt (members.lookup "num") < buffers.length) := by
  cases v with
  | uint64 n => simp [fromJson]
  | object members =>
      rw [fromJson]
      cases hp : Json.isPlaceholder members with
      | false => simp [hp]
      | true =>
          rw [if_pos rfl, fromPlaceholder_eq_none]
          simp [hp]
  | _ => simp [fromJson]

theorem fromJsonArray_eq (vs : List Json) :
    fromJsonArray getInt buffers vs = vs.map (fromJson getInt buffers) := by
  induction vs with
  | nil => rw [fromJsonArray, List.map_nil]
  | cons v vs ih => rw [fromJsonArray, List.map_cons, ih]

end

end Codefest.Sio
