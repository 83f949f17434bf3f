import NamedData.Address.Ip

/-!
# Socket addresses

An address with a port; an IPv6 address also has a scope, which is zero when none is meant.
-/

namespace NamedData

/-- Where a socket sends to. -/
inductive SocketAddr where
  | v4 (ip : Ipv4) (port : UInt16)
  | v6 (ip : Ipv6) (port : UInt16) (scopeId : UInt32)
deriving DecidableEq, Repr

namespace SocketAddr

def ip : SocketAddr → Ip
  | v4 ip _ => .v4 ip
  | v6 ip _ _ => .v6 ip

def port : SocketAddr → UInt16
  | v4 _ port => port
  | v6 _ port _ => port

def scopeId? : SocketAddr → Option UInt32
  | v4 _ _ => none
  | v6 _ _ scopeId => some scopeId

/-- The address as a host, with the scope behind a percent sign unless it is zero. -/
def host : SocketAddr → List Char
  | v4 ip _ => ip.toChars
  | v6 ip _ scopeId =>
    if scopeId = 0 then ip.toChars else ip.toChars ++ '%' :: Numeral.decimal scopeId.toNat

end SocketAddr

end NamedData
