import NamedData.Link.CachePolicy
import NamedData.Packet.Basic

/-!
# Parcels

What travels between faces and forwarding threads: a packet, its wire form, and the link-layer
fields that go with it. A PIT token names the thread that holds the Interest.
-/

namespace NamedData

/-- A packet under way. -/
structure Parcel where
  raw : Bytes
  packet : Packet
  pitToken : Option Bytes := none
  congestionMark : Option UInt64 := none
  incomingFaceId : Option UInt64 := none
  nextHopFaceId : Option UInt64 := none
  cachePolicy : Option CachePolicy := none
deriving DecidableEq, Repr

namespace Parcel

/-- A parcel of a received wire form, which is kept as it is. -/
def ofWire (raw : Bytes) : Except Error Parcel := do
  return { raw, packet := ← Packet.decode raw }

def ofPacket (packet : Packet) : Parcel :=
  { raw := packet.encode, packet }

end Parcel

namespace PitToken

/-- Two bytes of thread and four of tag. -/
def size : Nat := 6

def make (thread : UInt16) (tag : UInt32) : Bytes :=
  Bytes.bigEndian 2 thread.toNat ++ Bytes.bigEndian 4 tag.toNat

/-- The thread that a token of the right size names. -/
def thread? (token : Bytes) : Option UInt16 :=
  if token.length = size then some (UInt16.ofNat (Bytes.toNumber (token.take 2))) else none

end PitToken

end NamedData
