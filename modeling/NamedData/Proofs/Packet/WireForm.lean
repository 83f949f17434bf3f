import NamedData.Packet.Parcel
import NamedData.Proofs.Tlv.Fields

/-!
# The wire form of packets

What is read back of a packet that was written: spans of time are whole milliseconds, and Data has a
signature.
-/

namespace NamedData

open Tlv

/-- A span in whole milliseconds, as far as they fit in a number on the wire. -/
def Duration.onWire (d : Duration) : Duration :=
  .ofMillis d.millis.toNat

theorem Name.ofBlock_toBlock_of_mem {n : Name} {bs : List Block} (hmem : n.toBlock ∈ bs)
    (h : (Block.encodeAll bs).length ≤ maxSize) : Name.ofBlock n.toBlock = .ok n := by
  have hsize : n.toBlock.size = n.size := by
    rw [← Block.length_encode]
    exact n.length_encode
  have hle := Block.size_le_length_encodeAll hmem
  exact n.ofBlock_toBlock (by omega)

/-! ## Interests -/

namespace Interest

/-- What is read back of an Interest. -/
def onWire (i : Interest) : Interest :=
  { i with lifetime := i.lifetime.map Duration.onWire }

@[simp] theorem Field.ofType?_type (f : Field) : Field.ofType? f.type = some f := by
  cases f <;> rfl

@[simp] theorem Field.block_type (f : Field) (value : Bytes) : (f.block value).type = f.type := rfl

@[simp] theorem Field.block_value (f : Field) (value : Bytes) : (f.block value).value = value := rfl

theorem absorb_nonce (i : Interest) (n : UInt32) :
    absorb i (Field.nonce.block (Bytes.bigEndian 4 n.toNat)) = .ok { i with nonce := some n } := by
  have hlt : n.toNat < Nat.pow 256 4 := UInt32.toNat_lt n
  simp [absorb, Bytes.toNumber_bigEndian_of_lt hlt]

theorem absorb_lifetime (i : Interest) (d : Duration) :
    absorb i (Block.ofNumber Field.lifetime.type d.millis)
      = .ok { i with lifetime := some d.onWire } := by
  have htype : Field.ofType? (Block.ofNumber Field.lifetime.type d.millis).type = some .lifetime :=
    Field.ofType?_type .lifetime
  simp only [absorb, htype, Block.toNumber_ofNumber, ok_bind]
  rfl

theorem ofBlocks_toBlocks (i : Interest) (h : (Block.encodeAll i.toBlocks).length ≤ maxSize) :
    ofBlocks i.toBlocks = .ok i.onWire := by
  have hname := Name.ofBlock_toBlock_of_mem (n := i.name) List.mem_cons_self h
  simp only [toBlocks, ofBlocks, hname, ok_bind, List.foldlM_append]
  rw [foldlM_flag (fun s flag => { s with canBePrefix := flag || s.canBePrefix }) (fun _ => rfl)
    fun s => by simp [absorb]]
  rw [ok_bind, foldlM_flag (fun s flag => { s with mustBeFresh := flag || s.mustBeFresh })
    (fun _ => rfl) fun s => by simp [absorb]]
  rw [ok_bind, foldlM_optional (fun s o => { s with forwardingHint := o.or s.forwardingHint })
    (fun _ => rfl) fun s v => by simp [absorb]]
  rw [ok_bind, foldlM_optional (fun s o => { s with nonce := o.or s.nonce }) (fun _ => rfl)
    absorb_nonce]
  rw [ok_bind, foldlM_optional
    (fun s o => { s with lifetime := (o.map Duration.onWire).or s.lifetime }) (fun _ => rfl)
    absorb_lifetime]
  rw [ok_bind, foldlM_optional (fun s o => { s with hopLimit := o.or s.hopLimit }) (fun _ => rfl)
    fun s v => by simp [absorb]]
  rw [ok_bind, foldlM_optional (fun s o => { s with appParams := o.or s.appParams }) (fun _ => rfl)
    fun s v => by simp [absorb]]
  rw [ok_bind, foldlM_optional (fun s o => { s with signatureInfo := o.or s.signatureInfo })
    (fun _ => rfl) fun s v => by simp [absorb]]
  rw [ok_bind, foldlM_optional (fun s o => { s with signatureValue := o.or s.signatureValue })
    (fun _ => rfl) fun s v => by simp [absorb]]
  simp only [Option.or_none, Bool.or_false, onWire]

end Interest

/-! ## Data -/

namespace MetaInfo

/-- What is read back of a description. -/
def onWire (m : MetaInfo) : MetaInfo :=
  { m with freshnessPeriod := m.freshnessPeriod.map Duration.onWire }

@[simp] theorem Field.ofType?_type (f : Field) : Field.ofType? f.type = some f := by
  cases f <;> rfl

theorem absorb_contentType (m : MetaInfo) (n : UInt64) :
    absorb m (Block.ofNumber Field.contentType.type n) = .ok { m with contentType := some n } := by
  have htype : Field.ofType? (Block.ofNumber Field.contentType.type n).type = some .contentType :=
    Field.ofType?_type .contentType
  simp only [absorb, htype, Block.toNumber_ofNumber, ok_bind]
  rfl

theorem absorb_freshnessPeriod (m : MetaInfo) (d : Duration) :
    absorb m (Block.ofNumber Field.freshnessPeriod.type d.millis)
      = .ok { m with freshnessPeriod := some d.onWire } := by
  have htype : Field.ofType? (Block.ofNumber Field.freshnessPeriod.type d.millis).type
      = some .freshnessPeriod := Field.ofType?_type .freshnessPeriod
  simp only [absorb, htype, Block.toNumber_ofNumber, ok_bind]
  rfl

theorem foldlM_absorb_toBlocks (m : MetaInfo) : m.toBlocks.foldlM absorb {} = .ok m.onWire := by
  simp only [toBlocks, List.foldlM_append]
  rw [foldlM_optional (fun s o => { s with contentType := o.or s.contentType }) (fun _ => rfl)
    absorb_contentType]
  rw [ok_bind, foldlM_optional
    (fun s o => { s with freshnessPeriod := (o.map Duration.onWire).or s.freshnessPeriod })
    (fun _ => rfl) absorb_freshnessPeriod]
  rw [ok_bind, foldlM_optional (fun s o => { s with finalBlockId := o.or s.finalBlockId })
    (fun _ => rfl) fun s v => by simp [absorb]]
  simp only [Option.or_none, onWire]

end MetaInfo

namespace Data

/-- What is read back of a Data packet. -/
def onWire (d : Data) : Data :=
  { d with
    metaInfo := d.metaInfo.onWire
    signatureInfo := some (d.signatureInfo.getD placeholderInfo)
    signatureValue := some (d.signatureValue.getD placeholderValue) }

@[simp] theorem Field.ofType?_type (f : Field) : Field.ofType? f.type = some f := by
  cases f <;> rfl

@[simp] theorem Field.block_type (f : Field) (value : Bytes) : (f.block value).type = f.type := rfl

@[simp] theorem Field.block_value (f : Field) (value : Bytes) : (f.block value).value = value := rfl

theorem absorb_metaInfo {d : Data} {m : MetaInfo} (hd : d.metaInfo = {})
    (h : (Field.metaInfo.block (Block.encodeAll m.toBlocks)).size ≤ maxSize) :
    absorb d (Field.metaInfo.block (Block.encodeAll m.toBlocks))
      = .ok { d with metaInfo := m.onWire } := by
  have hchildren := Block.children_encodeAll Field.metaInfo.type m.toBlocks h
  simp only [absorb, Field.block, Field.ofType?_type, hchildren, ok_bind, hd,
    MetaInfo.foldlM_absorb_toBlocks]
  rfl

/-- A description without fields has no block, and stays the one that a packet begins with. -/
theorem foldlM_absorb_metaInfo {d : Data} {m : MetaInfo} (hd : d.metaInfo = {})
    (h : ∀ b ∈ (if m.toBlocks = [] then [] else
      [Field.metaInfo.block (Block.encodeAll m.toBlocks)]), b.size ≤ maxSize) :
    (if m.toBlocks = [] then [] else [Field.metaInfo.block (Block.encodeAll m.toBlocks)]).foldlM
      absorb d = .ok { d with metaInfo := m.onWire } := by
  by_cases hm : m.toBlocks = []
  · have hempty := m.foldlM_absorb_toBlocks
    rw [hm] at hempty
    have hsame : m.onWire = {} := (Except.ok.inj hempty).symm
    rw [if_pos hm, hsame, ← hd]
    rfl
  · rw [if_neg hm] at h ⊢
    rw [List.foldlM_cons, absorb_metaInfo hd (h _ (List.mem_singleton_self _))]
    rfl

theorem ofBlocks_toBlocks (d : Data) (h : (Block.encodeAll d.toBlocks).length ≤ maxSize) :
    ofBlocks d.toBlocks = .ok d.onWire := by
  have hname := Name.ofBlock_toBlock_of_mem (n := d.name) List.mem_cons_self h
  have hmeta := foldlM_absorb_metaInfo (d := { name := d.name }) (m := d.metaInfo) rfl
    fun b hb => Nat.le_trans (Block.size_le_length_encodeAll
      (List.mem_cons_of_mem _ (List.mem_append_left _ hb))) h
  simp only [toBlocks, ofBlocks, hname, ok_bind, List.foldlM_append, hmeta, List.foldlM_cons,
    List.foldlM_nil]
  simp [absorb, onWire]

end Data

/-! ## Packets -/

namespace Packet

/-- What is read back of a packet. -/
def onWire : Packet → Packet
  | interest i => interest i.onWire
  | data d => data d.onWire

theorem decode_block {b : Block} (h : b.size ≤ maxSize) : decode b.encode = ofBlock b := by
  simp only [decode, Block.decode_encode b h, ne_eq, not_true_eq_false, ↓reduceIte]

/-- Every packet that was written is read back. -/
theorem decode_encode (p : Packet) (h : p.encode.length ≤ maxSize) :
    decode p.encode = .ok p.onWire := by
  cases p with
  | interest i =>
      have hsize : (⟨Interest.blockType, Block.encodeAll i.toBlocks⟩ : Block).size ≤ maxSize := by
        rwa [← Block.length_encode]
      have hvalue := Nat.le_trans (Block.length_value_le_size _) hsize
      calc decode (Block.encode ⟨Interest.blockType, Block.encodeAll i.toBlocks⟩)
          = interest <$> Interest.ofBlocks i.toBlocks := by
            rw [decode_block hsize, ofBlock, if_pos rfl, Block.children_encodeAll _ _ hsize,
              ok_bind]
        _ = .ok (interest i.onWire) := by
            rw [Interest.ofBlocks_toBlocks i hvalue]
            rfl
  | data d =>
      have hsize : (⟨Data.blockType, Block.encodeAll d.toBlocks⟩ : Block).size ≤ maxSize := by
        rwa [← Block.length_encode]
      have hvalue := Nat.le_trans (Block.length_value_le_size _) hsize
      have hne : Data.blockType ≠ Interest.blockType := by decide
      calc decode (Block.encode ⟨Data.blockType, Block.encodeAll d.toBlocks⟩)
          = data <$> Data.ofBlocks d.toBlocks := by
            rw [decode_block hsize, ofBlock, if_neg hne, if_pos rfl,
              Block.children_encodeAll _ _ hsize, ok_bind]
        _ = .ok (data d.onWire) := by
            rw [Data.ofBlocks_toBlocks d hvalue]
            rfl

end Packet

end NamedData
