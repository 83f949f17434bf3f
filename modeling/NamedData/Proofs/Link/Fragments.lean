import NamedData.Link.Fragmentation
import NamedData.Proofs.Link.WireForm
import NamedData.Proofs.Tlv.Shortest

/-!
# Cutting and fitting

The pieces of a payload, the two ways in which it is sent, and that no frame is larger than the
maximum transmission unit.
-/

namespace NamedData

open Tlv

/-! ## The sizes of fields -/

namespace LpPacket

theorem size_number_le (f : Field) (v : UInt64) :
    (f.number v).size ≤ VarNumber.size f.type + 9 := by
  have hv := Nni.size_le v
  rw [Field.number, Block.size_ofNumber]
  omega

theorem size_sequence (n : UInt64) :
    (Field.sequence.block (Bytes.bigEndian 8 n.toNat)).size = 10 := by
  simp only [Block.size, Field.block, Bytes.length_bigEndian]
  decide

theorem size_policyBlock (policy : CachePolicy) : (policyBlock policy).size = 9 := by
  cases policy
  decide

theorem size_fragment_le {payload : Bytes} (h : payload.length ≤ 0xFFFF) :
    (Field.fragment.block payload).size ≤ payload.length + 4 := by
  have hlength := VarNumber.size_ofNat_le h
  have htype : VarNumber.size Field.fragment.type = 1 := by decide
  simp only [Block.size, blockSize, Field.block, htype]
  omega

/-- No fields but those that bytes are set aside for. -/
structure Provided (p : LpPacket) : Prop where
  nack : p.nack = none
  nextHopFaceId : p.nextHopFaceId = none
  nonDiscovery : p.nonDiscovery = false
  prefixAnnouncement : p.prefixAnnouncement = none

end LpPacket

namespace Fragmentation

open LpPacket

theorem length_numbers_le {p : LpPacket} {fragmentation : Bool}
    (halone : fragmentation = false →
      p.sequence = none ∧ p.fragIndex = none ∧ p.fragCount = none) :
    (Block.encodeAll (p.sequence.toList.map
        fun s => Field.sequence.block (Bytes.bigEndian 8 s.toNat))).length
      + (Block.encodeAll (p.fragIndex.toList.map Field.fragIndex.number)).length
      + (Block.encodeAll (p.fragCount.toList.map Field.fragCount.number)).length
      ≤ if fragmentation then sequenceOverhead else 0 := by
  cases fragmentation with
  | false =>
      obtain ⟨hsequence, hindex, hcount⟩ := halone rfl
      rw [hsequence, hindex, hcount]
      decide
  | true =>
      have hsequence :=
        Block.length_encodeAll_optional_le (fun n => (size_sequence n).le) p.sequence
      have hindex := Block.length_encodeAll_optional_le (size_number_le .fragIndex) p.fragIndex
      have hcount := Block.length_encodeAll_optional_le (size_number_le .fragCount) p.fragCount
      have hindexType : VarNumber.size Field.fragIndex.type = 1 := by decide
      have hcountType : VarNumber.size Field.fragCount.type = 1 := by decide
      rw [hindexType] at hindex
      rw [hcountType] at hcount
      rw [if_pos rfl, sequenceOverhead]
      split at hsequence <;> split at hindex <;> split at hcount <;> omega

/-- The blocks of a link packet leave room for the header around them. -/
theorem length_toBlocks_le {p : LpPacket} {payload : Bytes} {fragmentation : Bool}
    (hp : p.Provided) (hpayload : p.fragment = some payload)
    (halone : fragmentation = false → p.sequence = none ∧ p.fragIndex = none ∧ p.fragCount = none)
    (hlength : payload.length ≤ 0xFFFF) :
    (Block.encodeAll p.toBlocks).length + 4 ≤ overhead p fragmentation + payload.length := by
  have hnumbers := length_numbers_le halone
  have htoken : (Block.encodeAll (p.pitToken.toList.map Field.pitToken.block)).length
      = (p.pitToken.map fun token => blockSize Field.pitToken.type token.length).getD 0 := by
    rw [Block.length_encodeAll]
    cases p.pitToken <;> rfl
  have hincoming :
      (Block.encodeAll (p.incomingFaceId.toList.map Field.incomingFaceId.number)).length
        ≤ if p.incomingFaceId.isSome then incomingFaceIdOverhead else 0 :=
    Block.length_encodeAll_optional_le (size_number_le .incomingFaceId) p.incomingFaceId
  have hpolicy : (Block.encodeAll (p.cachePolicy.toList.map policyBlock)).length
      ≤ if p.cachePolicy.isSome then cachePolicyOverhead else 0 :=
    Block.length_encodeAll_optional_le (fun c => (size_policyBlock c).le) p.cachePolicy
  have hmark : (Block.encodeAll (p.congestionMark.toList.map Field.congestionMark.number)).length
      ≤ if p.congestionMark.isSome then congestionMarkOverhead else 0 :=
    Block.length_encodeAll_optional_le (size_number_le .congestionMark) p.congestionMark
  have hfragment : (Block.encodeAll (p.fragment.toList.map Field.fragment.block)).length
      ≤ payload.length + 4 := by
    rw [Block.length_encodeAll, hpayload]
    simpa using size_fragment_le hlength
  have hnothing : (Block.encodeAll []).length = 0 := rfl
  simp only [toBlocks, Block.length_encodeAll_append, hp.nack, hp.nextHopFaceId, hp.nonDiscovery,
    hp.prefixAnnouncement, Option.toList_none, List.map_nil, Bool.false_eq_true, ↓reduceIte,
    hnothing, overhead, baseOverhead]
  omega

/-- A link packet for which there is room is at most as large as the transmission unit. -/
theorem length_encode_le {p : LpPacket} {payload : Bytes} {fragmentation : Bool} {mtu : Nat}
    (hp : p.Provided) (hpayload : p.fragment = some payload)
    (halone : fragmentation = false → p.sequence = none ∧ p.fragIndex = none ∧ p.fragCount = none)
    (hfits : overhead p fragmentation + payload.length ≤ mtu) (hmtu : mtu ≤ 0xFFFF) :
    p.encode.length ≤ mtu := by
  have hblocks := length_toBlocks_le hp hpayload halone (by omega)
  have hheader : VarNumber.size (UInt64.ofNat (Block.encodeAll p.toBlocks).length) ≤ 3 :=
    VarNumber.size_ofNat_le (by omega)
  have htype : VarNumber.size LpPacket.blockType = 1 := by decide
  rw [LpPacket.encode, Block.length_encode, Block.size, blockSize, htype]
  dsimp only
  omega

/-! ## Pieces -/

section Pieces

variable {size : Nat} {bs : Bytes}

theorem flatten_pieces (hsize : 0 < size) (bs : Bytes) : (pieces size bs).flatten = bs := by
  fun_induction pieces size bs with
  | case1 bs h =>
      rcases h with rfl | h
      · rfl
      · omega
  | case2 bs h ih => rw [List.flatten_cons, ih, List.take_append_drop]

theorem length_pieces (hsize : 0 < size) (bs : Bytes) :
    (pieces size bs).length = (bs.length + size - 1) / size := by
  fun_induction pieces size bs with
  | case1 bs h =>
      rcases h with rfl | h
      · exact (Nat.div_eq_of_lt (by simp only [List.length_nil]; omega)).symm
      · omega
  | case2 bs h ih =>
      have hpos : 0 < bs.length := List.length_pos_iff.mpr fun h0 => h (Or.inl h0)
      rw [List.length_cons, ih, List.length_drop, ← Nat.add_div_right _ hsize]
      -- The last piece may be short: nothing is left behind it, and the division rounds up to it.
      by_cases hle : bs.length ≤ size
      · have hone : (bs.length + size - 1) / size = 1 :=
          Nat.div_eq_of_lt_le (by omega) (by omega)
        have hother : (bs.length - size + size - 1 + size) / size = 1 :=
          Nat.div_eq_of_lt_le (by omega) (by omega)
        rw [hone, hother]
      · congr 1
        omega

theorem two_le_length_pieces (hsize : 0 < size) (h : size < bs.length) :
    2 ≤ (pieces size bs).length := by
  rw [length_pieces hsize, Nat.le_div_iff_mul_le hsize]
  omega

/-- No piece is empty. -/
theorem length_pieces_le (size : Nat) (bs : Bytes) : (pieces size bs).length ≤ bs.length := by
  fun_induction pieces size bs with
  | case1 bs h => exact Nat.zero_le _
  | case2 bs h ih =>
      have hpos : 0 < bs.length := List.length_pos_iff.mpr fun h0 => h (Or.inl h0)
      have hsize : size ≠ 0 := fun h0 => h (Or.inr h0)
      rw [List.length_drop] at ih
      rw [List.length_cons]
      omega

theorem length_le_of_mem_pieces {piece : Bytes} (h : piece ∈ pieces size bs) :
    piece.length ≤ size := by
  fun_induction pieces size bs with
  | case1 bs hempty => cases h
  | case2 bs hne ih =>
      rcases List.mem_cons.mp h with rfl | h
      · exact List.length_take_le size bs
      · exact ih h

end Pieces

/-! ## The link packets of a payload -/

/-- The link packets of pieces that stand behind one another. -/
def divide (header : LpPacket) (base : UInt64) (cut : List Bytes) : List LpPacket :=
  cut.zipIdx.map fun (piece, index) => packetAt header base cut.length index piece

/-- A payload goes in one link packet without numbers, or in pieces that are numbered. -/
inductive Cut (payload : Bytes) (header : LpPacket) (mtu : Nat) (fragmentation : Bool)
    (next : UInt64) : List LpPacket × UInt64 → Prop where
  | whole (fits : overhead header fragmentation + payload.length ≤ mtu) :
      Cut payload header mtu fragmentation next ([{ header with fragment := some payload }], next)
  | divided (room : Nat) (on : fragmentation = true) (positive : 0 < room)
      (large : room < payload.length) (fits : overhead header true + room = mtu) :
      Cut payload header mtu fragmentation next
        (divide header next (pieces room payload),
          next + UInt64.ofNat (pieces room payload).length)

theorem packets_cut {payload : Bytes} {header : LpPacket} {mtu : Nat} {fragmentation : Bool}
    {next : UInt64} {r : List LpPacket × UInt64}
    (h : packets payload header mtu fragmentation next = .ok r) :
    Cut payload header mtu fragmentation next r := by
  unfold packets at h
  dsimp only at h
  split at h
  · cases h
  · split at h
    · cases h
      exact .whole (by omega)
    · split at h
      · cases h
      · rename_i hroom hlarge hon
        have hon : fragmentation = true := by simpa using hon
        subst hon
        cases h
        exact .divided _ rfl (by omega) (by omega) (by omega)

/-- With fragmentation, a payload is refused only if its header leaves no room at all. -/
theorem mtu_le_of_packets_eq_error {payload : Bytes} {header : LpPacket} {mtu : Nat} {next : UInt64}
    {e : Error} (h : packets payload header mtu true next = .error e) :
    mtu ≤ overhead header true := by
  unfold packets at h
  dsimp only at h
  split at h
  · assumption
  · split at h
    · cases h
    · cases h

/-- A header without numbers of its own, and with no fields but those that count. -/
structure PlainHeader (header : LpPacket) : Prop extends header.Provided where
  sequence : header.sequence = none
  fragIndex : header.fragIndex = none
  fragCount : header.fragCount = none

theorem packetAt_provided {header : LpPacket} (hh : header.Provided) (base : UInt64)
    (count index : Nat) (piece : Bytes) : (packetAt header base count index piece).Provided := by
  by_cases h0 : index = 0
  · simp only [packetAt, h0, ↓reduceIte]
    exact ⟨hh.nack, hh.nextHopFaceId, hh.nonDiscovery, hh.prefixAnnouncement⟩
  · simp only [packetAt, h0, ↓reduceIte]
    exact ⟨rfl, rfl, rfl, rfl⟩

theorem overhead_packetAt_le (header : LpPacket) (base : UInt64) (count index : Nat)
    (piece : Bytes) :
    overhead (packetAt header base count index piece) true ≤ overhead header true := by
  by_cases h0 : index = 0
  · simp only [packetAt, h0, ↓reduceIte]
    exact Nat.le_refl _
  · simp only [packetAt, h0, ↓reduceIte, overhead, Option.map_none, Option.getD_none,
      Option.isSome_none, Bool.false_eq_true]
    omega

/-- No link packet of a payload is larger than the transmission unit. -/
theorem Cut.encode_le {payload : Bytes} {header : LpPacket} {mtu : Nat} {fragmentation : Bool}
    {next : UInt64} {r : List LpPacket × UInt64} (hc : Cut payload header mtu fragmentation next r)
    (hh : PlainHeader header) (hmtu : mtu ≤ 0xFFFF) : ∀ p ∈ r.1, p.encode.length ≤ mtu := by
  cases hc with
  | whole fits =>
      intro p hp
      obtain rfl := List.mem_singleton.mp hp
      have hp : ({ header with fragment := some payload } : LpPacket).Provided :=
        ⟨hh.nack, hh.nextHopFaceId, hh.nonDiscovery, hh.prefixAnnouncement⟩
      exact length_encode_le hp rfl (fun _ => ⟨hh.sequence, hh.fragIndex, hh.fragCount⟩) fits hmtu
  | divided room on positive large fits =>
      intro p hp
      obtain ⟨⟨piece, index⟩, hmem, rfl⟩ := List.mem_map.mp hp
      have hpiece : piece.length ≤ room :=
        length_le_of_mem_pieces (List.fst_mem_of_mem_zipIdx hmem)
      have hoverhead :=
        overhead_packetAt_le header next (pieces room payload).length index piece
      have hfits : overhead (packetAt header next (pieces room payload).length index piece) true
          + piece.length ≤ mtu := by omega
      refine length_encode_le ?_ rfl ?_ hfits hmtu
      · exact packetAt_provided hh.toProvided _ _ _ _
      · simp

end Fragmentation

end NamedData
