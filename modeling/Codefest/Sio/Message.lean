import Mathlib.Data.List.Basic

/-!
# The message tree (`sio_message.h`)

What a listener is handed is a tree of `sio::message` nodes reached through
shared pointers, and any of those pointers may be null: the decoder leaves a
null in place of a value it cannot represent, and `operator[]` on a missing key
of a map puts one there. A pointer is therefore an `Option Message`, at every
level of the tree, and following one is an operation that can fail.

The typed accessors never fail. Each is virtual with a default in the base
class that asserts and then answers zero or something empty; the program is
built with `NDEBUG`, so the assertion is not there and the default is what a
caller gets from a node of another kind.
-/

namespace Codefest.Sio

inductive Flag
  | integer | double | string | binary | array | object | boolean | null
  deriving DecidableEq, Repr

/-- `sio::message` and its eight classes, one constructor each. -/
inductive Message where
  | integer (v : Int64)
  | double (v : Float)
  | string (v : String)
  | binary (v : ByteArray)
  | array (v : List (Option Message))
  | object (v : List (String × Option Message))
  | boolean (v : Bool)
  | null

/-- `message::ptr`. -/
abbrev Ptr := Option Message

/-- `std::map<std::string, message::ptr>`, as the pairs it holds. -/
abbrev Fields := List (String × Ptr)

namespace Message

def getFlag : Message → Flag
  | integer _ => .integer
  | double _ => .double
  | string _ => .string
  | binary _ => .binary
  | array _ => .array
  | object _ => .object
  | boolean _ => .boolean
  | null => .null

/-- `get_int`: overridden by `int_message` only, `double_message` included in
those that answer 0. -/
def getInt : Message → Int64
  | integer v => v
  | _ => 0

def getString : Message → String
  | string v => v
  | _ => ""

def getVector : Message → List Ptr
  | array v => v
  | _ => []

def getMap : Message → Fields
  | object v => v
  | _ => []

end Message

/-- `m[key]` on a map of pointers: a key that is not there is put there with a
null pointer, so what comes back is null. -/
def index (m : Fields) (key : String) : Ptr := (m.lookup key).join

/-- `m.insert(pair)`, which leaves a key that is already there alone. -/
def insert (m : Fields) (key : String) (value : Ptr) : Fields :=
  if m.any (·.1 == key) then m else m ++ [(key, value)]

/-- `m[key] = value`, which does not. -/
def assign (m : Fields) (key : String) (value : Ptr) : Fields :=
  if m.any (·.1 == key) then
    m.map fun kv => if kv.1 == key then (key, value) else kv
  else m ++ [(key, value)]

/-! ## Null pointers -/

inductive Fault
  | nullDeref
  deriving DecidableEq, Repr

/-- `p->`. -/
def deref : Ptr → Except Fault Message
  | some m => .ok m
  | none => .error .nullDeref

@[simp] theorem deref_some (m : Message) : deref (some m) = .ok m := rfl

@[simp] theorem deref_none : deref none = .error .nullDeref := rfl

theorem deref_eq_ok {p : Ptr} {m : Message} : deref p = .ok m ↔ p = some m := by
  cases p <;> simp

/-- `list::push`, which drops a null pointer. -/
def push (l : List Message) : Ptr → List Message
  | some m => l ++ [m]
  | none => l

def pushAll (ptrs : List Ptr) : List Message := ptrs.foldl push []

/-- `to_array_message(event_name)`: the name first, then the arguments. -/
def toArrayMessage (name : String) (msgs : List Message) : Message :=
  .array (some (.string name) :: msgs.map some)

/-- `to_array_message()`, the form an acknowledgement takes. -/
def toAckMessage (msgs : List Message) : Message := .array (msgs.map some)

/-- Pushing keeps what is not null, in order. -/
theorem pushAll_eq (ptrs : List Ptr) : pushAll ptrs = ptrs.filterMap id := by
  have hfold : ∀ acc : List Message,
      ptrs.foldl push acc = acc ++ ptrs.filterMap id := by
    induction ptrs with
    | nil => intro acc; simp
    | cons p ptrs ih =>
        intro acc
        cases p with
        | none => simpa [push] using ih acc
        | some m => simpa [push] using ih (acc ++ [m])
  simpa [pushAll] using hfold []

end Codefest.Sio
