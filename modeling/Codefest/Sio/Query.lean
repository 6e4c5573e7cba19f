import Codefest.Lib.Percent

/-!
# The URL of a connection (`sio_client_impl.cpp`)

`connect` turns the query that the program gives into text once, and
`connect_impl` puts it behind the parameters of its own. What the URI library
makes of the program's address comes in as its parts: host, port and resource.

The values are escaped, the names are not. Each escape is written to a stream,
in upper-case hexadecimal and a width of two, and the stream fills up with
blanks.
-/

namespace Codefest.Sio

open Text

/-- The characters that go as they are. -/
def isPlain (c : UInt8) : Bool :=
  97 ≤ c && c ≤ 122 || 65 ≤ c && c ≤ 90 || 48 ≤ c && c ≤ 57

/-- `std::setw`, with the blanks that a stream fills up with. -/
def setw (width : Nat) (text : Bytes) : Bytes :=
  List.replicate (width - text.length) 32 ++ text

def encodeByte (c : UInt8) : Bytes :=
  if isPlain c then [c] else 37 :: setw 2 (hexadecimal c.toNat)

/-- `encode_query_string`. -/
def encodeQueryString (query : Bytes) : Bytes := query.flatMap encodeByte

/-- `m_query_string`, the map's pairs in the map's order. -/
def queryString (query : List (Bytes × Bytes)) : Bytes :=
  query.flatMap fun kv => 38 :: (kv.1 ++ 61 :: encodeQueryString kv.2)

/-- Where `connect_impl` connects to. -/
structure Target where
  tls : Bool
  host : Bytes
  port : UInt16
  resource : Bytes
  sid : Bytes
  time : Nat

/-- An IPv6 address goes into brackets. -/
def Target.hostText (t : Target) : Bytes :=
  if t.host.contains 58 then 91 :: (t.host ++ [93]) else t.host

def Target.path (t : Target) : Bytes :=
  if t.resource = [47] then ascii "/socket.io/" else t.resource

/-- The URL of `connect_impl`, without the query that the program gave. -/
def Target.url (t : Target) : Bytes :=
  ascii (if t.tls then "wss://" else "ws://") ++ t.hostText ++
    58 :: decimal t.port.toNat ++ t.path ++
    ascii "?EIO=4&transport=websocket" ++
    (if t.sid = [] then [] else ascii "&sid=" ++ t.sid) ++
    ascii "&t=" ++ decimal t.time

def Target.connectUrl (t : Target) (query : List (Bytes × Bytes)) : Bytes :=
  t.url ++ queryString query

end Codefest.Sio
