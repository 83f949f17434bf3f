import NamedData.Proofs.Packet.WireForm
import NamedData.Proofs.Tlv.Shortest

/-!
# Packets there and back

What is read of a packet that was written, and what becomes of a wire form that is read and written
again: it is accepted, it means the same but for a signature that was missing, and it changes no
more.
-/

namespace NamedData

open Tlv

/-! ## Spans of time -/

namespace Duration

theorem nanos_ofMillis (ms : UInt64) : (ofMillis ms.toNat).nanos = ms.toNat * 1000000 := by
  have hlt := ms.toNat_lt
  exact Nat.min_eq_left (by rw [maxNanos]; omega)

@[simp] theorem millis_ofMillis (ms : UInt64) : (ofMillis ms.toNat).millis = ms := by
  rw [millis, nanos_ofMillis, Nat.mul_div_cancel _ (by decide), UInt64.ofNat_toNat]

@[simp] theorem millis_onWire (d : Duration) : d.onWire.millis = d.millis :=
  millis_ofMillis d.millis

@[simp] theorem onWire_ofMillis (ms : UInt64) : (ofMillis ms.toNat).onWire = ofMillis ms.toNat := by
  rw [onWire, millis_ofMillis]

theorem nanos_onWire (d : Duration) : d.onWire.nanos = d.nanos / 1000000 % 2 ^ 64 * 1000000 := by
  rw [onWire, nanos_ofMillis, millis, UInt64.toNat_ofNat']

end Duration

/-! ## Names -/

theorem Name.size_le_of_ofBlock {b : Block} {n : Name} (h : Name.ofBlock b = .ok n) :
    n.toBlock.size ≤ b.size + 9 := by
  unfold ofBlock at h
  split at h
  · rename_i htype
    cases hchildren : b.children with
    | error e => rw [hchildren] at h; cases h
    | ok bs =>
        have hn : n = ⟨bs.map Component.ofBlock⟩ := by
          rw [hchildren] at h
          cases h
          rfl
        have hback : n.components.map Component.toBlock = bs := by
          rw [hn, List.map_map]
          exact List.map_id bs
        have hvalue : n.toBlock.value.length ≤ b.value.length := by
          rw [toBlock, encodeComponents_eq, hback]
          exact Block.length_encodeAll_le_of_children hchildren
        have hsize := Block.size_le_add n.toBlock
        have hb : VarNumber.size n.toBlock.type + b.value.length ≤ b.size := by
          rw [Block.size, blockSize, htype]
          exact Nat.add_le_add_right (Nat.le_add_right _ _) _
        omega
  · cases h

/-! ## Interests -/

namespace Interest

variable {i i' : Interest} {b : Block}

theorem Field.type_of_ofType? {type : UInt64} {f : Field} (h : ofType? type = some f) :
    f.type = type := by
  simpa using List.find?_some h

theorem Field.size_block {f : Field} (h : ofType? b.type = some f) :
    (f.block b.value).size = b.size := by
  rw [block, type_of_ofType? h]

theorem Field.size_flag {f : Field} (h : ofType? b.type = some f) : (f.block []).size ≤ b.size := by
  rw [block, type_of_ofType? h]
  exact b.size_nil_le

theorem toBlocks_onWire (i : Interest) : i.onWire.toBlocks = i.toBlocks := by
  unfold toBlocks onWire
  cases i.lifetime <;> simp

theorem onWire_eq_self (h : ∀ d ∈ i.lifetime, d.onWire = d) : i.onWire = i := by
  obtain ⟨name, canBePrefix, mustBeFresh, hint, nonce, lifetime, hopLimit⟩ := i
  cases lifetime with
  | none => rfl
  | some d => simp [onWire, h d rfl]

theorem lifetime_absorb (hi : ∀ d ∈ i.lifetime, d.onWire = d) (h : absorb i b = .ok i') :
    ∀ d ∈ i'.lifetime, d.onWire = d := by
  unfold absorb at h
  cases hf : Field.ofType? b.type with
  | none =>
      simp only [hf] at h
      split at h
      · cases h
      · cases h
        exact hi
  | some f =>
      simp only [hf] at h
      cases f with
      | lifetime =>
          obtain ⟨ms, -, h⟩ := exists_of_bind_eq_ok h
          cases h
          rintro d ⟨⟩
          exact Duration.onWire_ofMillis ms
      | nonce | hopLimit =>
          dsimp only at h
          split at h
          · cases h
            exact hi
          · cases h
      | _ =>
          cases h
          exact hi

theorem length_toBlocks_absorb (h : absorb i b = .ok i') :
    (Block.encodeAll i'.toBlocks).length ≤ (Block.encodeAll i.toBlocks).length + b.size := by
  unfold absorb at h
  cases hf : Field.ofType? b.type with
  | none =>
      simp only [hf] at h
      split at h
      · cases h
      · cases h
        exact Nat.le_add_right _ _
  | some f =>
      simp only [hf] at h
      have hsize := Field.size_block hf
      cases f with
      | canBePrefix | mustBeFresh =>
          cases h
          have hflag := Field.size_flag hf
          simp only [toBlocks, Block.length_encodeAll_cons, Block.length_encodeAll_append,
            Block.length_encodeAll_nil, ↓reduceIte]
          omega
      | forwardingHint | appParams | signatureInfo | signatureValue =>
          cases h
          simp only [toBlocks, Block.length_encodeAll_cons, Block.length_encodeAll_append,
            Block.length_encodeAll_some]
          omega
      | nonce =>
          dsimp only at h
          split at h
          · rename_i hlength
            cases h
            have hdigits : (Field.nonce.block
                (Bytes.bigEndian 4 (UInt32.ofNat b.value.toNumber).toNat)).size = b.size := by
              rw [← hsize, Block.size, Block.size, Field.block_value, Field.block_value,
                Bytes.length_bigEndian, hlength]
              rfl
            simp only [toBlocks, Block.length_encodeAll_cons, Block.length_encodeAll_append,
              Block.length_encodeAll_some]
            omega
          · cases h
      | lifetime =>
          obtain ⟨ms, hms, h⟩ := exists_of_bind_eq_ok h
          cases h
          have hsize := Block.size_ofNumber_le hms
          rw [← Field.type_of_ofType? hf] at hsize
          simp only [toBlocks, Block.length_encodeAll_cons, Block.length_encodeAll_append,
            Block.length_encodeAll_some, Duration.millis_ofMillis]
          omega
      | hopLimit =>
          dsimp only at h
          split at h
          · rename_i limit hvalue
            cases h
            rw [hvalue] at hsize
            simp only [toBlocks, Block.length_encodeAll_cons, Block.length_encodeAll_append,
              Block.length_encodeAll_some]
            omega
          · cases h

theorem of_ofBlocks {blocks : List Block} (h : ofBlocks blocks = .ok i) :
    i.onWire = i
      ∧ (Block.encodeAll i.toBlocks).length ≤ (Block.encodeAll blocks).length + 9 := by
  cases blocks with
  | nil => cases h
  | cons nameBlock fields =>
      obtain ⟨name, hname, h⟩ := exists_of_bind_eq_ok h
      have hlifetime := foldlM_induction lifetime_absorb (by rintro d ⟨⟩) h
      have hlength := foldlM_le (fun i => (Block.encodeAll i.toBlocks).length)
        length_toBlocks_absorb h
      have hbare : (Block.encodeAll ({ name } : Interest).toBlocks).length = name.toBlock.size :=
        Block.length_encodeAll_cons name.toBlock []
      have hnameSize := Name.size_le_of_ofBlock hname
      rw [Block.length_encodeAll_cons]
      exact ⟨onWire_eq_self hlifetime, by omega⟩

theorem encode_onWire (i : Interest) : i.onWire.encode = i.encode := by
  rw [encode, encode, toBlocks_onWire]

end Interest

/-! ## Data -/

namespace MetaInfo

variable {m m' : MetaInfo} {b : Block}

theorem Field.type_of_ofType? {type : UInt64} {f : Field} (h : ofType? type = some f) :
    f.type = type := by
  simpa using List.find?_some h

theorem toBlocks_onWire (m : MetaInfo) : m.onWire.toBlocks = m.toBlocks := by
  unfold toBlocks onWire
  cases m.freshnessPeriod <;> simp

theorem onWire_eq_self (h : ∀ d ∈ m.freshnessPeriod, d.onWire = d) : m.onWire = m := by
  obtain ⟨contentType, freshnessPeriod, finalBlockId⟩ := m
  cases freshnessPeriod with
  | none => rfl
  | some d => simp [onWire, h d rfl]

theorem freshnessPeriod_absorb (hm : ∀ d ∈ m.freshnessPeriod, d.onWire = d)
    (h : absorb m b = .ok m') : ∀ d ∈ m'.freshnessPeriod, d.onWire = d := by
  unfold absorb at h
  cases hf : Field.ofType? b.type with
  | none =>
      simp only [hf] at h
      split at h
      · cases h
      · cases h
        exact hm
  | some f =>
      simp only [hf] at h
      cases f with
      | contentType =>
          obtain ⟨n, -, h⟩ := exists_of_bind_eq_ok h
          cases h
          exact hm
      | freshnessPeriod =>
          obtain ⟨ms, -, h⟩ := exists_of_bind_eq_ok h
          cases h
          rintro d ⟨⟩
          exact Duration.onWire_ofMillis ms
      | finalBlockId =>
          cases h
          exact hm

theorem length_toBlocks_absorb (h : absorb m b = .ok m') :
    (Block.encodeAll m'.toBlocks).length ≤ (Block.encodeAll m.toBlocks).length + b.size := by
  unfold absorb at h
  cases hf : Field.ofType? b.type with
  | none =>
      simp only [hf] at h
      split at h
      · cases h
      · cases h
        exact Nat.le_add_right _ _
  | some f =>
      simp only [hf] at h
      cases f with
      | contentType | freshnessPeriod =>
          obtain ⟨n, hn, h⟩ := exists_of_bind_eq_ok h
          cases h
          have hsize := Block.size_ofNumber_le hn
          rw [← Field.type_of_ofType? hf] at hsize
          simp only [toBlocks, Block.length_encodeAll_append, Block.length_encodeAll_some,
            Duration.millis_ofMillis]
          omega
      | finalBlockId =>
          cases h
          have hsize : (⟨Field.finalBlockId.type, b.value⟩ : Block).size = b.size := by
            rw [Field.type_of_ofType? hf]
          simp only [toBlocks, Block.length_encodeAll_append, Block.length_encodeAll_some]
          omega

end MetaInfo

namespace Data

variable {d d' : Data} {b : Block}

/-- A packet whose signature, where it is missing, is the one that says there is none. -/
def signed (d : Data) : Data :=
  { d with
    signatureInfo := some (d.signatureInfo.getD [0x1B, 0x01, 0x00])
    signatureValue := some (d.signatureValue.getD (List.replicate 32 0)) }

theorem onWire_eq (d : Data) : d.onWire = { d.signed with metaInfo := d.metaInfo.onWire } := by
  have hinfo : placeholderInfo = [0x1B, 0x01, 0x00] := by decide
  rw [onWire, hinfo, placeholderValue, signed]

theorem encode_onWire (d : Data) : d.onWire.encode = d.encode := by
  simp only [encode, toBlocks, onWire, MetaInfo.toBlocks_onWire, Option.getD_some]

/-- The bytes of the name and of what is written behind it. -/
def bulk (d : Data) : Nat :=
  d.name.toBlock.size + (Block.encodeAll d.metaInfo.toBlocks).length + d.content.length
    + (d.signatureInfo.getD placeholderInfo).length
    + (d.signatureValue.getD placeholderValue).length

theorem freshnessPeriod_absorb (hd : ∀ span ∈ d.metaInfo.freshnessPeriod, span.onWire = span)
    (h : absorb d b = .ok d') : ∀ span ∈ d'.metaInfo.freshnessPeriod, span.onWire = span := by
  unfold absorb at h
  cases hf : Field.ofType? b.type with
  | none =>
      simp only [hf] at h
      split at h
      · cases h
      · cases h
        exact hd
  | some f =>
      simp only [hf] at h
      cases f with
      | metaInfo =>
          obtain ⟨fields, -, h⟩ := exists_of_bind_eq_ok h
          obtain ⟨m, hm, h⟩ := exists_of_bind_eq_ok h
          cases h
          exact foldlM_induction MetaInfo.freshnessPeriod_absorb hd hm
      | content | signatureInfo | signatureValue =>
          cases h
          exact hd

theorem bulk_absorb (h : absorb d b = .ok d') : d'.bulk ≤ d.bulk + b.size := by
  have hvalue := b.length_value_le_size
  unfold absorb at h
  cases hf : Field.ofType? b.type with
  | none =>
      simp only [hf] at h
      split at h
      · cases h
      · cases h
        exact Nat.le_add_right _ _
  | some f =>
      simp only [hf] at h
      cases f with
      | metaInfo =>
          obtain ⟨fields, hfields, h⟩ := exists_of_bind_eq_ok h
          obtain ⟨m, hm, h⟩ := exists_of_bind_eq_ok h
          cases h
          have hlength := foldlM_le (fun m => (Block.encodeAll m.toBlocks).length)
            MetaInfo.length_toBlocks_absorb hm
          have hinner := Block.length_encodeAll_le_of_children hfields
          simp only [bulk]
          omega
      | content | signatureInfo | signatureValue =>
          cases h
          simp only [bulk, Option.getD_some]
          omega

theorem length_toBlocks_le (d : Data) :
    (Block.encodeAll d.toBlocks).length ≤ d.bulk + 40 := by
  have hfield (f : Field) (value : Bytes) : (f.block value).size ≤ 10 + value.length := by
    have htype : VarNumber.size f.type = 1 := by cases f <;> decide
    have hsize := Block.size_le_add (f.block value)
    rwa [Field.block_type, Field.block_value, htype] at hsize
  have hmeta : (Block.encodeAll (if d.metaInfo.toBlocks = [] then []
      else [Field.metaInfo.block (Block.encodeAll d.metaInfo.toBlocks)])).length
        ≤ 10 + (Block.encodeAll d.metaInfo.toBlocks).length := by
    split
    · exact Nat.zero_le _
    · rw [Block.length_encodeAll_cons]
      exact hfield .metaInfo _
  have hcontent := hfield .content d.content
  have hinfo := hfield .signatureInfo (d.signatureInfo.getD placeholderInfo)
  have hvalue := hfield .signatureValue (d.signatureValue.getD placeholderValue)
  simp only [toBlocks, bulk, Block.length_encodeAll_cons, Block.length_encodeAll_append,
    Block.length_encodeAll_nil]
  omega

theorem of_ofBlocks {blocks : List Block} (h : ofBlocks blocks = .ok d) :
    d.onWire = d.signed
      ∧ (Block.encodeAll d.toBlocks).length ≤ (Block.encodeAll blocks).length + 84 := by
  cases blocks with
  | nil => cases h
  | cons nameBlock fields =>
      obtain ⟨name, hname, h⟩ := exists_of_bind_eq_ok h
      have hspan := foldlM_induction freshnessPeriod_absorb (by rintro span ⟨⟩) h
      have hbulk := foldlM_le bulk bulk_absorb h
      have hbare : bulk { name } = name.toBlock.size + 35 := rfl
      have hlength := d.length_toBlocks_le
      have hnameSize := Name.size_le_of_ofBlock hname
      rw [Block.length_encodeAll_cons]
      exact ⟨by rw [onWire_eq, MetaInfo.onWire_eq_self hspan]; rfl, by omega⟩

end Data

/-! ## Packets -/

namespace Packet

variable {p : Packet} {wire : Bytes}

/-- A packet with a signature, if it is one that has to have one. -/
def signed : Packet → Packet
  | interest i => interest i
  | data d => data d.signed

/-- A wire form that is read and written again. -/
def reencode (wire : Bytes) : Except Error Bytes :=
  encode <$> decode wire

theorem reencode_of_decode (h : decode wire = .ok p) : reencode wire = .ok p.encode := by
  rw [reencode, h]
  rfl

theorem encode_onWire (p : Packet) : p.onWire.encode = p.encode := by
  cases p with
  | interest i => exact i.encode_onWire
  | data d => exact d.encode_onWire

theorem of_ofBlock {b : Block} (h : ofBlock b = .ok p) :
    p.onWire = p.signed ∧ p.encode.length ≤ b.size + 94 := by
  have houter (type : UInt64) (htype : VarNumber.size type = 1) (blocks : List Block) :
      (Block.encode ⟨type, Block.encodeAll blocks⟩).length
        ≤ 10 + (Block.encodeAll blocks).length := by
    have hsize := Block.size_le_add ⟨type, Block.encodeAll blocks⟩
    rwa [htype, ← Block.length_encode] at hsize
  have hvalue := b.length_value_le_size
  unfold ofBlock at h
  split at h
  · obtain ⟨i, hi, rfl⟩ := exists_of_map_eq_ok h
    obtain ⟨blocks, hblocks, hi⟩ := exists_of_bind_eq_ok hi
    have hinner := Block.length_encodeAll_le_of_children hblocks
    obtain ⟨hsame, hlength⟩ := Interest.of_ofBlocks hi
    have hencode := houter Interest.blockType (by decide) i.toBlocks
    refine ⟨by rw [onWire, hsame, signed], ?_⟩
    rw [encode, Interest.encode]
    omega
  · split at h
    · obtain ⟨d, hd, rfl⟩ := exists_of_map_eq_ok h
      obtain ⟨blocks, hblocks, hd⟩ := exists_of_bind_eq_ok hd
      have hinner := Block.length_encodeAll_le_of_children hblocks
      obtain ⟨hsame, hlength⟩ := Data.of_ofBlocks hd
      have hencode := houter Data.blockType (by decide) d.toBlocks
      refine ⟨by rw [onWire, hsame, signed], ?_⟩
      rw [encode, Data.encode]
      omega
    · split at h <;> cases h

theorem of_decode (h : decode wire = .ok p) :
    p.onWire = p.signed ∧ p.encode.length ≤ wire.length + 94 := by
  unfold decode at h
  split at h
  · cases h
  · rename_i b rest hdecode
    have hsize := Block.size_add_le_of_decode hdecode
    split at h
    · cases h
    · obtain ⟨hsame, hlength⟩ := of_ofBlock h
      exact ⟨hsame, by omega⟩

/-- What is written is read back in its normal form: a lifetime and a freshness period are whole
milliseconds, modulo `2 ^ 64`, and a missing signature is the one that says there is none. A wire
form that is accepted is accepted again after it was written again, means the same but for a missing
signature, and writing it once more changes nothing. No byte string in memory has `2 ^ 63` bytes, so
the wire form leaves room for what its signature takes. -/
theorem read_back :
    (∀ d : Duration, d.onWire.nanos = d.nanos / 1000000 % 2 ^ 64 * 1000000)
      ∧ (∀ i : Interest, i.encode.length < 2 ^ 64 →
        decode i.encode = .ok (interest { i with lifetime := i.lifetime.map Duration.onWire }))
      ∧ (∀ d : Data, d.encode.length < 2 ^ 64 →
        decode d.encode = .ok (data
          { d with
            metaInfo :=
              { d.metaInfo with
                freshnessPeriod := d.metaInfo.freshnessPeriod.map Duration.onWire }
            signatureInfo := some (d.signatureInfo.getD [0x1B, 0x01, 0x00])
            signatureValue := some (d.signatureValue.getD (List.replicate 32 0)) }))
      ∧ ∀ (wire : Bytes) (p : Packet), wire.length < 2 ^ 63 → decode wire = .ok p →
        reencode wire = .ok p.encode ∧ decode p.encode = .ok p.signed
          ∧ reencode p.encode = .ok p.encode := by
  have hback (p : Packet) (h : p.encode.length < 2 ^ 64) : decode p.encode = .ok p.onWire :=
    p.decode_encode (Nat.le_of_lt_succ h)
  refine ⟨Duration.nanos_onWire, fun i h => hback (interest i) h, fun d h => ?_,
    fun wire p hwire h => ?_⟩
  · have hd := hback (data d) h
    rw [onWire, Data.onWire_eq] at hd
    exact hd
  · obtain ⟨hsame, hlength⟩ := of_decode h
    have hagain := hback p (by omega)
    refine ⟨reencode_of_decode h, hsame ▸ hagain, ?_⟩
    rw [reencode_of_decode hagain, encode_onWire]

/-- A lifetime of a nanosecond less than two milliseconds, one that has `2 ^ 64 + 7` milliseconds,
and a wire form of Data with two descriptions, a long number and half a signature. -/
theorem read_back_without_signature :
    let name : Name := ⟨[.generic [0x61], ⟨0xFFFFFFFFFFFFFFFF, []⟩]⟩
    let i : Interest := { name, lifetime := some ⟨1999999, by decide⟩ }
    let d : Data :=
      { name, metaInfo.freshnessPeriod := some ⟨18446744073709551623000000, by decide⟩ }
    let wire : Bytes :=
      [0x06, 0x10, 0x07, 0x00, 0x14, 0x03, 0x18, 0x01, 0x02, 0x14, 0x04, 0x19, 0x02, 0x00, 0x05,
        0x17, 0x01, 0xAA]
    let p : Packet := data
      { name := .empty
        metaInfo := { contentType := some 2, freshnessPeriod := some (.ofMillis 5) }
        signatureValue := some [0xAA] }
    decode i.encode = .ok (interest { i with lifetime := some (.ofMillis 1) })
      ∧ decode d.encode = .ok (data
          { name
            metaInfo.freshnessPeriod := some (.ofMillis 7)
            signatureInfo := some [0x1B, 0x01, 0x00]
            signatureValue := some (List.replicate 32 0) })
      ∧ reencode wire = .ok [0x06, 0x14, 0x07, 0x00, 0x14, 0x06, 0x18, 0x01, 0x02, 0x19, 0x01, 0x05,
          0x15, 0x00, 0x16, 0x03, 0x1B, 0x01, 0x00, 0x17, 0x01, 0xAA]
      ∧ decode p.encode = .ok p.signed
      ∧ reencode p.encode = .ok p.encode := by
  intro name i d wire p
  have hread : decode wire = .ok p := by cbv
  have hwire := read_back.2.2.2 wire p (by decide) hread
  refine ⟨read_back.2.1 i (by decide +kernel), read_back.2.2.1 d (by decide +kernel), ?_,
    hwire.2⟩
  rw [hwire.1]
  decide +kernel

end Packet

end NamedData
