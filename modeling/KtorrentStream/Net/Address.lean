import Mathlib.Data.List.Basic
set_option autoImplicit true

namespace KtorrentStream.Net

-- A QHostAddress of one of the two protocols, and the port.
inductive Address
  | v4 (ip : UInt32) (port : UInt16)
  | v6 (ip : {bytes : List UInt8 // bytes.length = 16}) (port : UInt16)
  deriving DecidableEq

def Address.ipVersion : Address → Nat
  | .v4 .. => 4
  | .v6 .. => 6

def Address.port : Address → UInt16
  | .v4 _ port => port
  | .v6 _ port => port

def Address.withPort (port : UInt16) : Address → Address
  | .v4 ip _ => .v4 ip port
  | .v6 ip _ => .v6 ip port

theorem Address.withPort_port (a : Address) : a.withPort a.port = a := by
  cases a with
  | v4 => rfl
  | v6 => rfl

end KtorrentStream.Net
