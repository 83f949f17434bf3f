import NamedData.Link.CachePolicy
import NamedData.Tlv.Block

/-!
# Link packets

The unit of the link protocol: header fields, then at most one fragment of a network packet.
-/

namespace NamedData

open Tlv

/-- A link packet; without a fragment it is idle. -/
structure LpPacket where
  sequence : Option UInt64 := none
  fragIndex : Option UInt64 := none
  fragCount : Option UInt64 := none
  pitToken : Option Bytes := none
  nack : Option Bytes := none
  nextHopFaceId : Option UInt64 := none
  incomingFaceId : Option UInt64 := none
  cachePolicy : Option CachePolicy := none
  congestionMark : Option UInt64 := none
  nonDiscovery : Bool := false
  prefixAnnouncement : Option Bytes := none
  fragment : Option Bytes := none
deriving DecidableEq, Repr

namespace LpPacket

def blockType : UInt64 := 0x64

inductive Field where
  | fragment
  | sequence
  | fragIndex
  | fragCount
  | pitToken
  | nack
  | nextHopFaceId
  | incomingFaceId
  | cachePolicy
  | congestionMark
  | ack
  | txSequence
  | nonDiscovery
  | prefixAnnouncement
deriving DecidableEq, Repr

namespace Field

def type : Field → UInt64
  | fragment => 0x50
  | sequence => 0x51
  | fragIndex => 0x52
  | fragCount => 0x53
  | pitToken => 0x62
  | nack => 0x0320
  | nextHopFaceId => 0x0330
  | incomingFaceId => 0x0331
  | cachePolicy => 0x0334
  | congestionMark => 0x0340
  | ack => 0x0344
  | txSequence => 0x0348
  | nonDiscovery => 0x034C
  | prefixAnnouncement => 0x0350

def all : List Field :=
  [fragment, sequence, fragIndex, fragCount, pitToken, nack, nextHopFaceId, incomingFaceId,
    cachePolicy, congestionMark, ack, txSequence, nonDiscovery, prefixAnnouncement]

def ofType? (type : UInt64) : Option Field :=
  all.find? fun f => f.type == type

def block (f : Field) (value : Bytes) : Block :=
  ⟨f.type, value⟩

def number (f : Field) (v : UInt64) : Block :=
  Block.ofNumber f.type v

end Field

/-- The type of the number inside a cache policy. -/
def policyType : UInt64 := 0x0335

/-- Only types from 800 to 959 that four divides may be skipped. -/
def isCritical (type : UInt64) : Bool :=
  !(800 ≤ type && type ≤ 959 && type % 4 == 0)

def ofFragment (fragment : Bytes) : LpPacket :=
  { fragment := some fragment }

def isIdle (p : LpPacket) : Bool :=
  p.fragment.isNone

def hasFragmentation (p : LpPacket) : Bool :=
  p.fragIndex.isSome || p.fragCount.isSome

/-- The last policy number among the blocks decides; an unknown code means no policy. -/
def absorbPolicy (policy : Option CachePolicy) (b : Block) : Except Error (Option CachePolicy) :=
  if b.type = policyType then do
    return CachePolicy.ofCode? (← b.toNumber)
  else .ok policy

/-- Takes in one field; a later field of a type replaces an earlier one. -/
def absorb (p : LpPacket) (b : Block) : Except Error LpPacket :=
  match Field.ofType? b.type with
  | some .fragment => .ok { p with fragment := some b.value }
  | some .sequence => do return { p with sequence := some (← b.toNumber) }
  | some .fragIndex => do return { p with fragIndex := some (← b.toNumber) }
  | some .fragCount => do return { p with fragCount := some (← b.toNumber) }
  | some .pitToken => .ok { p with pitToken := some b.value }
  | some .nack => .ok { p with nack := some b.value }
  | some .nextHopFaceId => do return { p with nextHopFaceId := some (← b.toNumber) }
  | some .incomingFaceId => do return { p with incomingFaceId := some (← b.toNumber) }
  | some .cachePolicy => do
    let inner ← b.children
    return { p with cachePolicy := ← inner.foldlM absorbPolicy p.cachePolicy }
  | some .congestionMark => do return { p with congestionMark := some (← b.toNumber) }
  | some .ack => .ok p
  | some .txSequence => .ok p
  | some .nonDiscovery => .ok { p with nonDiscovery := true }
  | some .prefixAnnouncement => .ok { p with prefixAnnouncement := some b.value }
  | none => if isCritical b.type then .error (.unrecognizedCritical b.type) else .ok p

/-- Reads a byte string that is one link packet and nothing else. -/
def decode (wire : Bytes) : Except Error LpPacket := do
  let b ← Block.decodeExact wire blockType
  (← b.children).foldlM absorb {}

def policyBlock (policy : CachePolicy) : Block :=
  Field.cachePolicy.block (Block.ofNumber policyType policy.code).encode

/-- The fields in their order on the wire, where the fragment is last. -/
def toBlocks (p : LpPacket) : List Block :=
  p.sequence.toList.map (fun s => Field.sequence.block (Bytes.bigEndian 8 s.toNat))
    ++ p.fragIndex.toList.map Field.fragIndex.number
    ++ p.fragCount.toList.map Field.fragCount.number
    ++ p.pitToken.toList.map Field.pitToken.block
    ++ p.nack.toList.map Field.nack.block
    ++ p.nextHopFaceId.toList.map Field.nextHopFaceId.number
    ++ p.incomingFaceId.toList.map Field.incomingFaceId.number
    ++ p.cachePolicy.toList.map policyBlock
    ++ p.congestionMark.toList.map Field.congestionMark.number
    ++ (if p.nonDiscovery then [Field.nonDiscovery.block []] else [])
    ++ p.prefixAnnouncement.toList.map Field.prefixAnnouncement.block
    ++ p.fragment.toList.map Field.fragment.block

def encode (p : LpPacket) : Bytes :=
  Block.encode ⟨blockType, Block.encodeAll p.toBlocks⟩

end LpPacket

end NamedData
