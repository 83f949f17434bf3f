import NamedData.Packet.Data
import NamedData.Packet.Interest

/-!
# Network packets

An Interest or a Data packet; the type of the outermost block tells which.
-/

namespace NamedData

open Tlv

/-- A packet of the network layer. -/
inductive Packet where
  | interest (i : Interest)
  | data (d : Data)
deriving DecidableEq, Repr

namespace Packet

def name : Packet → Name
  | interest i => i.name
  | data d => d.name

def isInterest : Packet → Bool
  | interest _ => true
  | data _ => false

def encode : Packet → Bytes
  | interest i => i.encode
  | data d => d.encode

/-- Reads one block of either kind; a bare name is refused as an Interest without its block. -/
def ofBlock (b : Block) : Except Error Packet :=
  if b.type = Interest.blockType then interest <$> (b.children >>= Interest.ofBlocks)
  else if b.type = Data.blockType then data <$> (b.children >>= Data.ofBlocks)
  else if b.type = Name.blockType then
    .error (.unexpectedType Interest.blockType Name.blockType)
  else .error (.unrecognizedCritical b.type)

/-- Reads a byte string that is one packet and nothing else. -/
def decode (wire : Bytes) : Except Error Packet :=
  match Block.decode wire with
  | .error e => .error e
  | .ok (b, rest) =>
    if rest ≠ [] then .error (.invalidFragment (.afterPacket rest.length)) else ofBlock b

end Packet

end NamedData
