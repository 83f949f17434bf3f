import NamedData.Duration
import NamedData.Name.Basic

/-!
# Data packets

Named content. What describes the content stands in a block of its own, and a packet without a
signature is written with a placeholder digest.
-/

namespace NamedData

open Tlv

/-- What a Data packet says about its content. -/
structure MetaInfo where
  contentType : Option UInt64 := none
  freshnessPeriod : Option Duration := none
  finalBlockId : Option Bytes := none
deriving DecidableEq, Repr

namespace MetaInfo

inductive Field where
  | contentType
  | freshnessPeriod
  | finalBlockId
deriving DecidableEq, Repr

namespace Field

def type : Field → UInt64
  | contentType => 0x18
  | freshnessPeriod => 0x19
  | finalBlockId => 0x1A

def all : List Field :=
  [contentType, freshnessPeriod, finalBlockId]

def ofType? (type : UInt64) : Option Field :=
  all.find? fun f => f.type == type

end Field

/-- Takes in one field; a later field of a type replaces an earlier one. -/
def absorb (m : MetaInfo) (b : Block) : Except Error MetaInfo :=
  match Field.ofType? b.type with
  | some .contentType => do
    let n ← b.toNumber
    return { m with contentType := some n }
  | some .freshnessPeriod => do
    let ms ← b.toNumber
    return { m with freshnessPeriod := some (Duration.ofMillis ms.toNat) }
  | some .finalBlockId => .ok { m with finalBlockId := some b.value }
  | none => if isCritical b.type then .error (.unrecognizedCritical b.type) else .ok m

def toBlocks (m : MetaInfo) : List Block :=
  m.contentType.toList.map (Block.ofNumber Field.contentType.type)
    ++ m.freshnessPeriod.toList.map (fun d => Block.ofNumber Field.freshnessPeriod.type d.millis)
    ++ m.finalBlockId.toList.map (Block.mk Field.finalBlockId.type)

end MetaInfo

/-- Named content. -/
structure Data where
  name : Name
  metaInfo : MetaInfo := {}
  content : Bytes := []
  signatureInfo : Option Bytes := none
  signatureValue : Option Bytes := none
deriving DecidableEq, Repr

namespace Data

def blockType : UInt64 := 0x06

/-- The fields behind the name. -/
inductive Field where
  | metaInfo
  | content
  | signatureInfo
  | signatureValue
deriving DecidableEq, Repr

namespace Field

def type : Field → UInt64
  | metaInfo => 0x14
  | content => 0x15
  | signatureInfo => 0x16
  | signatureValue => 0x17

def all : List Field :=
  [metaInfo, content, signatureInfo, signatureValue]

def ofType? (type : UInt64) : Option Field :=
  all.find? fun f => f.type == type

def block (f : Field) (value : Bytes) : Block :=
  ⟨f.type, value⟩

end Field

/-- Takes in one field behind the name; a later field of a type replaces an earlier one. -/
def absorb (d : Data) (b : Block) : Except Error Data :=
  match Field.ofType? b.type with
  | some .metaInfo => do
    let fields ← b.children
    return { d with metaInfo := ← fields.foldlM MetaInfo.absorb d.metaInfo }
  | some .content => .ok { d with content := b.value }
  | some .signatureInfo => .ok { d with signatureInfo := some b.value }
  | some .signatureValue => .ok { d with signatureValue := some b.value }
  | none => if isCritical b.type then .error (.unrecognizedCritical b.type) else .ok d

/-- Reads the blocks inside a Data packet's block. -/
def ofBlocks : List Block → Except Error Data
  | [] => .error (.truncated 1 0)
  | nameBlock :: fields => do
    let name ← Name.ofBlock nameBlock
    fields.foldlM absorb { name }

/-- Says that the signature is a SHA-256 digest. -/
def placeholderInfo : Bytes :=
  (Block.ofNumber 0x1B 0).encode

/-- Stands where the digest would. -/
def placeholderValue : Bytes :=
  List.replicate 32 0

/-- The blocks inside a Data packet's block. -/
def toBlocks (d : Data) : List Block :=
  let described := d.metaInfo.toBlocks
  d.name.toBlock ::
    ((if described = [] then [] else [Field.metaInfo.block (Block.encodeAll described)])
      ++ [Field.content.block d.content,
        Field.signatureInfo.block (d.signatureInfo.getD placeholderInfo),
        Field.signatureValue.block (d.signatureValue.getD placeholderValue)])

def encode (d : Data) : Bytes :=
  Block.encode ⟨blockType, Block.encodeAll d.toBlocks⟩

end Data

end NamedData
