import NamedData.Proofs.Link.Fragments

/-!
# Link packets there and back

Nothing of a link packet is lost on the wire. A wire form that is read and written again may change,
since other forms of it were accepted, but it changes only once.
-/

namespace NamedData.LpPacket

open Tlv

variable {p p' : LpPacket} {b : Block} {wire : Bytes}

/-! ## What a field adds -/

theorem Field.type_of_ofType? {type : UInt64} {f : Field} (h : ofType? type = some f) :
    f.type = type := by
  simpa using List.find?_some h

theorem Field.size_block {f : Field} (h : ofType? b.type = some f) :
    (f.block b.value).size = b.size := by
  rw [block, type_of_ofType? h]

theorem Field.size_flag {f : Field} (h : ofType? b.type = some f) : (f.block []).size ≤ b.size := by
  rw [block, type_of_ofType? h]
  exact b.size_nil_le

theorem Field.size_number {f : Field} {v : UInt64} (h : ofType? b.type = some f)
    (hv : b.toNumber = .ok v) : (f.number v).size ≤ b.size := by
  rw [number, type_of_ofType? h]
  exact Block.size_ofNumber_le hv

/-- The bytes of a policy number, if there is one. -/
def policyBytes (policy : Option CachePolicy) : Nat :=
  if policy.isSome then 5 else 0

theorem policyBytes_absorbPolicy {old new : Option CachePolicy}
    (h : absorbPolicy old b = .ok new) : policyBytes new ≤ policyBytes old + b.size := by
  unfold absorbPolicy at h
  split at h
  · rename_i htype
    obtain ⟨v, hv, h⟩ := exists_of_bind_eq_ok h
    have hsize := Block.size_ofNumber_le hv
    have htypeSize : VarNumber.size policyType = 3 := by decide
    have hlength : 1 ≤ Nni.size v := by
      have := Nni.size_mem v
      simp only [List.mem_cons, List.not_mem_nil, or_false] at this
      omega
    rw [Block.size_ofNumber, htype, htypeSize] at hsize
    unfold policyBytes
    split <;> omega
  · cases h
    exact Nat.le_add_right _ _

theorem length_policy_le {inner : List Block} {old new : Option CachePolicy}
    (hf : Field.ofType? b.type = some .cachePolicy) (hinner : b.children = .ok inner)
    (h : inner.foldlM absorbPolicy old = .ok new) :
    (Block.encodeAll (new.toList.map policyBlock)).length
      ≤ (Block.encodeAll (old.toList.map policyBlock)).length + b.size := by
  have hnew := foldlM_le policyBytes policyBytes_absorbPolicy h
  have hvalue := Block.length_encodeAll_le_of_children hinner
  have hsize : 4 + b.value.length ≤ b.size := by
    have htype : VarNumber.size Field.cachePolicy.type = 3 := by decide
    have hlength := VarNumber.size_pos (UInt64.ofNat b.value.length)
    rw [Block.size, blockSize, ← Field.type_of_ofType? hf, htype]
    omega
  cases new with
  | none => exact Nat.zero_le _
  | some policy =>
      rw [Block.length_encodeAll_some, size_policyBlock]
      cases old with
      | none =>
          simp only [policyBytes, Option.isSome_some, Option.isSome_none, ↓reduceIte,
            Bool.false_eq_true] at hnew
          omega
      | some policy' =>
          rw [Block.length_encodeAll_some, size_policyBlock]
          omega

/-! ## What is read is not larger than the wire form -/

/-- The bytes of all fields but the sequence number, the only one that is not written in its
shortest form. -/
def bulk (p : LpPacket) : Nat :=
  (Block.encodeAll { p with sequence := none }.toBlocks).length

theorem length_toBlocks_le_bulk (p : LpPacket) :
    (Block.encodeAll p.toBlocks).length ≤ p.bulk + 10 := by
  have hsequence :=
    Block.length_encodeAll_optional_le (fun n => (size_sequence n).le) p.sequence
  simp only [bulk, toBlocks, Block.length_encodeAll_append, Option.toList_none, List.map_nil]
  split at hsequence <;> omega

theorem bulk_absorb (h : absorb p b = .ok p') : p'.bulk ≤ p.bulk + b.size := by
  unfold absorb at h
  cases hf : Field.ofType? b.type with
  | none =>
      simp only [hf] at h
      split at h
      · cases h
      · cases h
        exact Nat.le_add_right _ _
  | some f =>
      simp only [hf] at h
      cases f with
      | fragment | pitToken | nack | prefixAnnouncement =>
          cases h
          have hsize := Field.size_block hf
          simp only [bulk, toBlocks, Block.length_encodeAll_append, Block.length_encodeAll_some]
          omega
      | fragIndex | fragCount | nextHopFaceId | incomingFaceId | congestionMark =>
          obtain ⟨v, hv, h⟩ := exists_of_bind_eq_ok h
          cases h
          have hsize := Field.size_number hf hv
          simp only [bulk, toBlocks, Block.length_encodeAll_append, Block.length_encodeAll_some]
          omega
      | sequence =>
          obtain ⟨v, hv, h⟩ := exists_of_bind_eq_ok h
          cases h
          exact Nat.le_add_right _ _
      | cachePolicy =>
          obtain ⟨inner, hinner, h⟩ := exists_of_bind_eq_ok h
          obtain ⟨policy, hpolicy, h⟩ := exists_of_bind_eq_ok h
          cases h
          have hsize := length_policy_le hf hinner hpolicy
          simp only [bulk, toBlocks, Block.length_encodeAll_append]
          omega
      | ack | txSequence =>
          cases h
          exact Nat.le_add_right _ _
      | nonDiscovery =>
          cases h
          have hsize := Field.size_flag hf
          simp only [bulk, toBlocks, Block.length_encodeAll_append, Block.length_encodeAll_cons,
            Block.length_encodeAll_nil, ↓reduceIte]
          omega

/-- Writing what was read takes a few bytes more at most. -/
theorem length_encode_le_of_decode (h : decode wire = .ok p) :
    p.encode.length ≤ wire.length + 20 := by
  obtain ⟨b, hb, h⟩ := exists_of_bind_eq_ok h
  obtain ⟨fields, hfields, h⟩ := exists_of_bind_eq_ok h
  have hwire := Block.size_le_of_decodeExact hb
  have hvalue := Nat.le_trans (Block.length_encodeAll_le_of_children hfields)
    (Block.length_value_le_size b)
  have hbulk := foldlM_le bulk bulk_absorb h
  have hempty : bulk {} = 0 := rfl
  have hblocks := p.length_toBlocks_le_bulk
  have hsize := Block.size_le_add ⟨blockType, Block.encodeAll p.toBlocks⟩
  have htype : VarNumber.size blockType = 1 := by decide
  rw [encode, Block.length_encode]
  dsimp only at hsize
  omega

/-! ## There and back -/

/-- A wire form that is read and written again. -/
def reencode (wire : Bytes) : Except Error Bytes :=
  encode <$> decode wire

theorem reencode_of_decode (h : decode wire = .ok p) : reencode wire = .ok p.encode := by
  rw [reencode, h]
  rfl

/-- Every link packet is read back as it was written. A wire form that is accepted is read the same
after it was written again, and writing it once more changes nothing. No byte string in memory has
`2 ^ 63` bytes, so the wire form leaves room for what the sequence number may take more. -/
theorem lossless :
    (∀ p : LpPacket, p.encode.length < 2 ^ 64 → decode p.encode = .ok p)
      ∧ ∀ (wire : Bytes) (p : LpPacket), wire.length < 2 ^ 63 → decode wire = .ok p →
        reencode wire = .ok p.encode ∧ decode p.encode = .ok p
          ∧ reencode p.encode = .ok p.encode := by
  have hback (p : LpPacket) (h : p.encode.length < 2 ^ 64) : decode p.encode = .ok p :=
    p.decode_encode (Nat.le_of_lt_succ h)
  refine ⟨hback, fun wire p hwire h => ?_⟩
  have hsize := length_encode_le_of_decode h
  have hagain := hback p (by omega)
  exact ⟨reencode_of_decode h, hagain, reencode_of_decode hagain⟩

/-- A packet with all fields, and a wire form with a short sequence number, an acknowledgement that
is skipped and two fragments. -/
theorem lossless_for_all_fields :
    let p : LpPacket :=
      { sequence := some 0xFFFFFFFFFFFFFFFF, fragIndex := some 0, fragCount := some 70000,
        pitToken := some [], nack := some [1], nextHopFaceId := some 256,
        incomingFaceId := some 255, cachePolicy := some .noCache, congestionMark := some 1,
        nonDiscovery := true, prefixAnnouncement := some [0x64], fragment := some [] }
    let wire : Bytes :=
      [0x64, 0x0D, 0x51, 0x01, 0x05, 0xFD, 0x03, 0x44, 0x00, 0x50, 0x01, 0xAA, 0x50, 0x01, 0xBB]
    let q : LpPacket := { sequence := some 5, fragment := some [0xBB] }
    decode p.encode = .ok p
      ∧ decode wire = .ok q
      ∧ q.encode = [0x64, 0x0D, 0x51, 0x08, 0, 0, 0, 0, 0, 0, 0, 0x05, 0x50, 0x01, 0xBB]
      ∧ reencode q.encode = .ok q.encode := by
  intro p wire q
  have hread : decode wire = .ok q := by cbv
  have hwritten :
      q.encode = [0x64, 0x0D, 0x51, 0x08, 0, 0, 0, 0, 0, 0, 0, 0x05, 0x50, 0x01, 0xBB] := by
    decide +kernel
  exact ⟨lossless.1 p (by decide +kernel), hread, hwritten,
    (lossless.2 wire q (by decide) hread).2.2⟩

end NamedData.LpPacket
