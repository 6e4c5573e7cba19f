import Codefest.Sio.Packet

/-!
# The encoder (`sio_packet.cpp`)

`accept_message` is the way back from a message tree to a JSON value. Every
kind of message has a JSON value of its own but one: a binary node is written
as a placeholder with a number, and its bytes go to the buffers that follow the
text. The number is the position the bytes get there.

The pointers in arrays and objects are followed without a test, so a tree with
a null in it cannot be sent.
-/

namespace Codefest.Sio

/-- What a binary node is written as. -/
def placeholder (num : Nat) : Json :=
  .object [("_placeholder", .bool true), ("num", .int64 (Int64.ofNat num))]

mutual

/-- `accept_message`, and with it the function for each kind of node. -/
def acceptMessage : Message → List ByteArray →
    Except Fault (Json × List ByteArray)
  | .integer v, buffers => .ok (.int64 v, buffers)
  | .double v, buffers => .ok (.double v, buffers)
  | .string v, buffers => .ok (.string v, buffers)
  | .boolean v, buffers => .ok (.bool v, buffers)
  | .null, buffers => .ok (.null, buffers)
  | .binary v, buffers => .ok (placeholder buffers.length, buffers ++ [v])
  | .array v, buffers =>
      (acceptArray v buffers).map fun r => (.array r.1, r.2)
  | .object v, buffers =>
      (acceptObject v buffers).map fun r => (.object r.1, r.2)

/-- The loop of `accept_array_message`. -/
def acceptArray : List Ptr → List ByteArray →
    Except Fault (List Json × List ByteArray)
  | [], buffers => .ok ([], buffers)
  | none :: _, _ => .error .nullDeref
  | some m :: ptrs, buffers => do
      let (v, buffers) ← acceptMessage m buffers
      let (vs, buffers) ← acceptArray ptrs buffers
      return (v :: vs, buffers)

/-- The loop of `accept_object_message`. -/
def acceptObject : Fields → List ByteArray →
    Except Fault (List (String × Json) × List ByteArray)
  | [], buffers => .ok ([], buffers)
  | (_, none) :: _, _ => .error .nullDeref
  | (name, some m) :: fields, buffers => do
      let (v, buffers) ← acceptMessage m buffers
      let (vs, buffers) ← acceptObject fields buffers
      return ((name, v) :: vs, buffers)

end

mutual

/-- What holds of the fields of every object in the tree. -/
def Message.Everywhere (P : Fields → Prop) : Message → Prop
  | .array v => EverywhereArray P v
  | .object v => P v ∧ EverywhereFields P v
  | _ => True

def EverywhereArray (P : Fields → Prop) : List Ptr → Prop
  | [] => True
  | none :: ptrs => EverywhereArray P ptrs
  | some m :: ptrs => m.Everywhere P ∧ EverywhereArray P ptrs

def EverywhereFields (P : Fields → Prop) : Fields → Prop
  | [] => True
  | (_, none) :: fields => EverywhereFields P fields
  | (_, some m) :: fields => m.Everywhere P ∧ EverywhereFields P fields

end

/-- As in a `std::map`, no key is there twice. -/
def KeysDistinct (fields : Fields) : Prop := (fields.map (·.1)).Nodup

/-- The decoder would not take the object for a placeholder. -/
def Unmarked (fields : Fields) : Prop :=
  index fields "_placeholder" ≠ some (.boolean true)

end Codefest.Sio
