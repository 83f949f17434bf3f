import NamedData.Link.LpPacket

/-!
# Fragmentation

Cutting the wire form of a packet into link packets that fit a maximum transmission unit. The header
goes with the first; all of them carry a running sequence number.
-/

namespace NamedData.Fragmentation

/-- The two headers around a fragment, with lengths of three bytes. -/
def baseOverhead : Nat := 8

/-- Sequence, index and count, ten bytes each. -/
def sequenceOverhead : Nat := 30

def congestionMarkOverhead : Nat := 12

def incomingFaceIdOverhead : Nat := 12

def cachePolicyOverhead : Nat := 9

/-- The bytes that are set aside for the header fields. -/
def overhead (header : LpPacket) (fragmentation : Bool) : Nat :=
  baseOverhead
    + (if fragmentation then sequenceOverhead else 0)
    + (header.pitToken.map
        fun token => Tlv.blockSize LpPacket.Field.pitToken.type token.length).getD 0
    + (if header.congestionMark.isSome then congestionMarkOverhead else 0)
    + (if header.incomingFaceId.isSome then incomingFaceIdOverhead else 0)
    + (if header.cachePolicy.isSome then cachePolicyOverhead else 0)

/-- Consecutive pieces of `size` bytes, where the last may be shorter. -/
def pieces (size : Nat) (bs : Bytes) : List Bytes :=
  if bs = [] ∨ size = 0 then [] else bs.take size :: pieces size (bs.drop size)
termination_by bs.length
decreasing_by
  rename_i h
  have : bs.length ≠ 0 := fun h0 => h (Or.inl (List.length_eq_zero_iff.1 h0))
  simp only [List.length_drop]
  omega

/-- The link packet of the piece at `index` of `count`. -/
def packetAt (header : LpPacket) (base : UInt64) (count index : Nat) (piece : Bytes) : LpPacket :=
  { (if index = 0 then header else {}) with
    sequence := some (base + UInt64.ofNat index)
    fragIndex := some (UInt64.ofNat index)
    fragCount := some (UInt64.ofNat count)
    fragment := some piece }

/-- The link packets that carry a payload, and the sequence number for the next group. -/
def packets (payload : Bytes) (header : LpPacket) (mtu : Nat) (fragmentation : Bool)
    (next : UInt64) : Except Error (List LpPacket × UInt64) :=
  let reserved := overhead header fragmentation
  if mtu ≤ reserved then .error (.mtuTooSmall mtu reserved)
  else
    let room := mtu - reserved
    if payload.length ≤ room then .ok ([{ header with fragment := some payload }], next)
    else if !fragmentation then .error (.packetTooLarge payload.length room)
    else
      let cut := pieces room payload
      .ok (cut.zipIdx.map fun (piece, index) => packetAt header next cut.length index piece,
        next + UInt64.ofNat cut.length)

/-- The wire forms of the link packets. -/
def frames (payload : Bytes) (header : LpPacket) (mtu : Nat) (fragmentation : Bool)
    (next : UInt64) : Except Error (List Bytes × UInt64) := do
  let (ps, next) ← packets payload header mtu fragmentation next
  return (ps.map LpPacket.encode, next)

end NamedData.Fragmentation
