import NamedData.Text.Numeral

/-!
# Internet addresses

IPv4 addresses in dotted decimal and IPv6 addresses in their shortest text: the longest run of two
or more zero groups is left out, the first of equals, and a mapped IPv4 address keeps its dots.
-/

namespace NamedData

/-- An IPv4 address. -/
structure Ipv4 where
  a : UInt8
  b : UInt8
  c : UInt8
  d : UInt8
deriving DecidableEq, Repr

namespace Ipv4

def isLoopback (ip : Ipv4) : Bool :=
  ip.a == 127

def ofNumber (n : Nat) : Ipv4 :=
  ⟨.ofNat (n / 0x1000000), .ofNat (n / 0x10000), .ofNat (n / 0x100), .ofNat n⟩

/-- The two groups that hold the address inside an IPv6 address. -/
def groups (ip : Ipv4) : List UInt16 :=
  [ip.a.toUInt16 * 256 + ip.b.toUInt16, ip.c.toUInt16 * 256 + ip.d.toUInt16]

def ofGroups (high low : UInt16) : Ipv4 :=
  ⟨(high / 256).toUInt8, high.toUInt8, (low / 256).toUInt8, low.toUInt8⟩

def toChars (ip : Ipv4) : List Char :=
  let part (b : UInt8) := Numeral.decimal b.toNat
  part ip.a ++ '.' :: part ip.b ++ '.' :: part ip.c ++ '.' :: part ip.d

end Ipv4

/-- An IPv6 address: eight groups of sixteen bits. -/
structure Ipv6 where
  groups : Vector UInt16 8
deriving DecidableEq, Repr

namespace Ipv6

def ofGroups? (gs : List UInt16) : Option Ipv6 :=
  if h : gs.length = 8 then some ⟨⟨gs.toArray, by simpa using h⟩⟩ else none

def loopback : Ipv6 :=
  ⟨#v[0, 0, 0, 0, 0, 0, 0, 1]⟩

def isLoopback (ip : Ipv6) : Bool :=
  ip == loopback

/-- The IPv4 address behind `::ffff:`. -/
def toIpv4Mapped? (ip : Ipv6) : Option Ipv4 :=
  match ip.groups.toList with
  | [0, 0, 0, 0, 0, 0xFFFF, high, low] => some (.ofGroups high low)
  | _ => none

/-- Groups in hexadecimal between colons. -/
def joinGroups (gs : List UInt16) : List Char :=
  List.intercalate [':'] (gs.map fun g => Numeral.hex g.toNat)

/-- The first longest run of zero groups, as its start and length. -/
def longestZeros : (start : Nat) → List UInt16 → Nat × Nat
  | start, [] => (start, 0)
  | start, g :: rest =>
    let here := ((g :: rest).takeWhile (· == 0)).length
    let later := longestZeros (start + 1) rest
    if later.2 ≤ here then (start, here) else later

def toChars (ip : Ipv6) : List Char :=
  match ip.toIpv4Mapped? with
  | some v4 => "::ffff:".toList ++ v4.toChars
  | none =>
    let gs := ip.groups.toList
    let (start, length) := longestZeros 0 gs
    if length < 2 then joinGroups gs
    else joinGroups (gs.take start) ++ "::".toList ++ joinGroups (gs.drop (start + length))

end Ipv6

/-- An address of either family. -/
inductive Ip where
  | v4 (ip : Ipv4)
  | v6 (ip : Ipv6)
deriving DecidableEq, Repr

namespace Ip

def isV4 : Ip → Bool
  | v4 _ => true
  | v6 _ => false

def isV6 (ip : Ip) : Bool :=
  !ip.isV4

/-- Whether packets to the address stay on the machine; a mapped IPv4 address counts as that one. -/
def isLoopback : Ip → Bool
  | v4 ip => ip.isLoopback
  | v6 ip => ip.isLoopback || ip.toIpv4Mapped?.any Ipv4.isLoopback

def toChars : Ip → List Char
  | v4 ip => ip.toChars
  | v6 ip => ip.toChars

end Ip

end NamedData
