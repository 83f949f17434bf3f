import NamedData.Link.LpPacket
import NamedData.Proofs.Tlv.Fields

/-!
# The wire form of link packets

Reading gives back every link packet that was written.
-/

namespace NamedData.LpPacket

open Tlv

@[simp] theorem Field.ofType?_type (f : Field) : Field.ofType? f.type = some f := by
  cases f <;> rfl

@[simp] theorem Field.block_type (f : Field) (value : Bytes) : (f.block value).type = f.type := rfl

@[simp] theorem Field.block_value (f : Field) (value : Bytes) : (f.block value).value = value := rfl

@[simp] theorem Field.number_type (f : Field) (v : UInt64) : (f.number v).type = f.type := rfl

theorem toNumber_sequence (n : UInt64) :
    (Field.sequence.block (Bytes.bigEndian 8 n.toNat)).toNumber = .ok n := by
  have hlt : n.toNat < Nat.pow 256 8 := UInt64.toNat_lt n
  simp only [Field.block, Block.toNumber, Nni.decode, Bytes.length_bigEndian,
    Bytes.toNumber_bigEndian_of_lt hlt, UInt64.ofNat_toNat]
  rfl

@[simp] theorem toNumber_number (f : Field) (v : UInt64) : (f.number v).toNumber = .ok v :=
  Block.toNumber_ofNumber f.type v

theorem absorbPolicy_ofNumber (old : Option CachePolicy) (policy : CachePolicy) :
    absorbPolicy old (Block.ofNumber policyType policy.code) = .ok (some policy) := by
  cases policy
  simp [absorbPolicy, Block.ofNumber]
  rfl

theorem absorb_policyBlock (p : LpPacket) (policy : CachePolicy) :
    absorb p (policyBlock policy) = .ok { p with cachePolicy := some policy } := by
  have hinner : (policyBlock policy).value
      = Block.encodeAll [Block.ofNumber policyType policy.code] := (List.append_nil _).symm
  have hchildren : (policyBlock policy).children
      = .ok [Block.ofNumber policyType policy.code] := by
    rw [Block.children, hinner]
    refine Block.sequence_encodeAll _ fun b hb => ?_
    cases policy
    rw [List.mem_singleton.mp hb]
    decide
  have htype : Field.ofType? (policyBlock policy).type = some .cachePolicy :=
    Field.ofType?_type .cachePolicy
  simp only [absorb, htype, hchildren, ok_bind, List.foldlM_cons, List.foldlM_nil,
    absorbPolicy_ofNumber]
  rfl

theorem foldlM_absorb_toBlocks (p : LpPacket) : p.toBlocks.foldlM absorb {} = .ok p := by
  simp only [toBlocks, List.foldlM_append]
  rw [foldlM_optional (fun s o => { s with sequence := o.or s.sequence }) (fun _ => rfl)
    fun s v => by simp [absorb, toNumber_sequence]]
  rw [ok_bind, foldlM_optional (fun s o => { s with fragIndex := o.or s.fragIndex }) (fun _ => rfl)
    fun s v => by simp [absorb]]
  rw [ok_bind, foldlM_optional (fun s o => { s with fragCount := o.or s.fragCount }) (fun _ => rfl)
    fun s v => by simp [absorb]]
  rw [ok_bind, foldlM_optional (fun s o => { s with pitToken := o.or s.pitToken }) (fun _ => rfl)
    fun s v => by simp [absorb]]
  rw [ok_bind, foldlM_optional (fun s o => { s with nack := o.or s.nack }) (fun _ => rfl)
    fun s v => by simp [absorb]]
  rw [ok_bind, foldlM_optional (fun s o => { s with nextHopFaceId := o.or s.nextHopFaceId })
    (fun _ => rfl) fun s v => by simp [absorb]]
  rw [ok_bind, foldlM_optional (fun s o => { s with incomingFaceId := o.or s.incomingFaceId })
    (fun _ => rfl) fun s v => by simp [absorb]]
  rw [ok_bind, foldlM_optional (fun s o => { s with cachePolicy := o.or s.cachePolicy })
    (fun _ => rfl) absorb_policyBlock]
  rw [ok_bind, foldlM_optional (fun s o => { s with congestionMark := o.or s.congestionMark })
    (fun _ => rfl) fun s v => by simp [absorb]]
  rw [ok_bind, foldlM_flag (fun s flag => { s with nonDiscovery := flag || s.nonDiscovery })
    (fun _ => rfl) fun s => by simp [absorb]]
  rw [ok_bind, foldlM_optional
    (fun s o => { s with prefixAnnouncement := o.or s.prefixAnnouncement }) (fun _ => rfl)
    fun s v => by simp [absorb]]
  rw [ok_bind, foldlM_optional (fun s o => { s with fragment := o.or s.fragment }) (fun _ => rfl)
    fun s v => by simp [absorb]]
  simp only [Option.or_none, Bool.or_false]

/-- Reading gives back the link packet that was written. -/
theorem decode_encode (p : LpPacket) (h : p.encode.length ≤ maxSize) : decode p.encode = .ok p := by
  rw [encode, Block.length_encode] at h
  have hexact := Block.decodeExact_encode ⟨blockType, Block.encodeAll p.toBlocks⟩ h
  have hchildren := Block.children_encodeAll blockType p.toBlocks h
  unfold decode encode
  rw [hexact, ok_bind, hchildren, ok_bind, foldlM_absorb_toBlocks]

theorem peek?_of_decode {frame : Bytes} {p : LpPacket} (h : decode frame = .ok p) :
    ∃ size, peek? frame = some (blockType, size) := by
  obtain ⟨b, hb, -⟩ := exists_of_bind_eq_ok h
  unfold Block.decodeExact at hb
  split at hb
  · cases hb
  · rename_i hdecode
    split at hb
    · cases hb
    · rename_i htype
      obtain ⟨size, hpeek⟩ := Block.peek?_of_decode hdecode
      exact ⟨size, not_not.mp htype ▸ hpeek⟩

theorem peek?_encode {p : LpPacket} (h : p.encode.length ≤ maxSize) :
    ∃ size, peek? p.encode = some (blockType, size) :=
  peek?_of_decode (p.decode_encode h)

end NamedData.LpPacket
