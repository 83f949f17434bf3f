import NamedData.Duration
import NamedData.Name.Basic

/-!
# Interests

A request for data by name. The name comes first in the wire form; the other fields may come in any
order, and unknown ones are skipped unless their type is critical.
-/

namespace NamedData

open Tlv

/-- A request for data. -/
structure Interest where
  name : Name
  canBePrefix : Bool := false
  mustBeFresh : Bool := false
  forwardingHint : Option Bytes := none
  nonce : Option UInt32 := none
  lifetime : Option Duration := none
  hopLimit : Option UInt8 := none
  appParams : Option Bytes := none
  signatureInfo : Option Bytes := none
  signatureValue : Option Bytes := none
deriving DecidableEq, Repr

namespace Interest

def blockType : UInt64 := 0x05

/-- The fields behind the name. -/
inductive Field where
  | canBePrefix
  | mustBeFresh
  | forwardingHint
  | nonce
  | lifetime
  | hopLimit
  | appParams
  | signatureInfo
  | signatureValue
deriving DecidableEq, Repr

namespace Field

def type : Field → UInt64
  | canBePrefix => 0x21
  | mustBeFresh => 0x12
  | forwardingHint => 0x1E
  | nonce => 0x0A
  | lifetime => 0x0C
  | hopLimit => 0x22
  | appParams => 0x24
  | signatureInfo => 0x2C
  | signatureValue => 0x2E

def all : List Field :=
  [canBePrefix, mustBeFresh, forwardingHint, nonce, lifetime, hopLimit, appParams, signatureInfo,
    signatureValue]

def ofType? (type : UInt64) : Option Field :=
  all.find? fun f => f.type == type

def block (f : Field) (value : Bytes) : Block :=
  ⟨f.type, value⟩

end Field

/-- The lifetime of an Interest that states none. -/
def defaultLifetime : Duration := Duration.ofMillis 4000

def lifetimeOrDefault (i : Interest) : Duration :=
  i.lifetime.getD defaultLifetime

/-- Takes in one field behind the name; a later field of a type replaces an earlier one. -/
def absorb (i : Interest) (b : Block) : Except Error Interest :=
  match Field.ofType? b.type with
  | some .canBePrefix => .ok { i with canBePrefix := true }
  | some .mustBeFresh => .ok { i with mustBeFresh := true }
  | some .forwardingHint => .ok { i with forwardingHint := some b.value }
  | some .nonce =>
    if b.value.length = 4 then .ok { i with nonce := some (UInt32.ofNat b.value.toNumber) }
    else .error (.invalidNumber b.value.length)
  | some .lifetime => do
    let ms ← b.toNumber
    return { i with lifetime := some (Duration.ofMillis ms.toNat) }
  | some .hopLimit =>
    match b.value with
    | [limit] => .ok { i with hopLimit := some limit }
    | value => .error (.invalidNumber value.length)
  | some .appParams => .ok { i with appParams := some b.value }
  | some .signatureInfo => .ok { i with signatureInfo := some b.value }
  | some .signatureValue => .ok { i with signatureValue := some b.value }
  | none => if isCritical b.type then .error (.unrecognizedCritical b.type) else .ok i

/-- Reads the blocks inside an Interest's block. -/
def ofBlocks : List Block → Except Error Interest
  | [] => .error (.truncated 1 0)
  | nameBlock :: fields => do
    let name ← Name.ofBlock nameBlock
    fields.foldlM absorb { name }

/-- The blocks inside an Interest's block. -/
def toBlocks (i : Interest) : List Block :=
  i.name.toBlock ::
    ((if i.canBePrefix then [Field.canBePrefix.block []] else [])
      ++ (if i.mustBeFresh then [Field.mustBeFresh.block []] else [])
      ++ i.forwardingHint.toList.map Field.forwardingHint.block
      ++ i.nonce.toList.map (fun n => Field.nonce.block (Bytes.bigEndian 4 n.toNat))
      ++ i.lifetime.toList.map (fun d => Block.ofNumber Field.lifetime.type d.millis)
      ++ i.hopLimit.toList.map (fun h => Field.hopLimit.block [h])
      ++ i.appParams.toList.map Field.appParams.block
      ++ i.signatureInfo.toList.map Field.signatureInfo.block
      ++ i.signatureValue.toList.map Field.signatureValue.block)

def encode (i : Interest) : Bytes :=
  Block.encode ⟨blockType, Block.encodeAll i.toBlocks⟩

end Interest

end NamedData
