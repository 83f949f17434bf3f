import NamedData.Proofs.Link.Fragments

/-!
# The bytes of a header

What the fields of a header take on the wire, against the bytes that are set aside for them. All
frames of a payload fit the transmission unit, whatever the payload, exactly if the bytes that are
set aside are enough for the fields that the first frame can have.
-/

namespace NamedData

open Tlv

theorem toNat_ofNat_of_le_maxSize {n : Nat} (h : n ≤ maxSize) : (UInt64.ofNat n).toNat = n :=
  UInt64.toNat_ofNat_of_lt' (Nat.lt_succ_of_le h)

namespace LpPacket

/-- The bytes that the fields of a link packet take in front of the fragment. -/
def fieldBytes (p : LpPacket) : Nat :=
  (Block.encodeAll { p with fragment := none }.toBlocks).length

variable {p : LpPacket} {payload : Bytes}

theorem length_encodeAll_toBlocks (h : p.fragment = some payload) :
    (Block.encodeAll p.toBlocks).length
      = p.fieldBytes + (1 + VarNumber.size (UInt64.ofNat payload.length) + payload.length) := by
  have hfragment : (Block.encodeAll (p.fragment.toList.map Field.fragment.block)).length
      = 1 + VarNumber.size (UInt64.ofNat payload.length) + payload.length := by
    have htype : VarNumber.size Field.fragment.type = 1 := by decide
    rw [h, Block.length_encodeAll_some, Block.size, blockSize]
    simp only [Field.block, htype]
  have hnothing : (Block.encodeAll []).length = 0 := rfl
  simp only [fieldBytes, toBlocks, Block.length_encodeAll_append, hfragment, Option.toList_none,
    List.map_nil, hnothing]
  omega

theorem length_encode_eq (h : p.fragment = some payload) :
    ∃ value, p.encode.length = 1 + VarNumber.size (UInt64.ofNat value) + value
      ∧ value
        = p.fieldBytes + (1 + VarNumber.size (UInt64.ofNat payload.length) + payload.length) := by
  have htype : VarNumber.size blockType = 1 := by decide
  refine ⟨_, ?_, length_encodeAll_toBlocks h⟩
  rw [encode, Block.length_encode, Block.size, blockSize, htype]

/-- Two headers of four bytes each are enough around the fields and the fragment. -/
theorem length_encode_le_of_fieldBytes {mtu : Nat} (h : p.fragment = some payload)
    (hfits : Fragmentation.baseOverhead + p.fieldBytes + payload.length ≤ mtu)
    (hmtu : mtu ≤ 0xFFFF) : p.encode.length ≤ mtu := by
  obtain ⟨value, hlength, hvalue⟩ := length_encode_eq h
  rw [Fragmentation.baseOverhead] at hfits
  have hpayload : VarNumber.size (UInt64.ofNat payload.length) ≤ 3 :=
    VarNumber.size_ofNat_le (by omega)
  have houter : VarNumber.size (UInt64.ofNat value) ≤ 3 := VarNumber.size_ofNat_le (by omega)
  omega

/-- The outer length takes no fewer bytes than the length of the fragment. -/
theorem lt_length_encode {mtu : Nat} (h : p.fragment = some payload) (hmtu : mtu ≤ maxSize)
    (hlarge : mtu < 2 + 2 * VarNumber.size (UInt64.ofNat payload.length) + p.fieldBytes
      + payload.length) : mtu < p.encode.length := by
  obtain ⟨value, hlength, hvalue⟩ := length_encode_eq h
  by_cases hwide : value ≤ maxSize
  · have hmono : VarNumber.size (UInt64.ofNat payload.length)
        ≤ VarNumber.size (UInt64.ofNat value) := by
      refine VarNumber.size_mono (UInt64.le_iff_toNat_le.mpr ?_)
      rw [toNat_ofNat_of_le_maxSize hwide, toNat_ofNat_of_le_maxSize (by omega)]
      omega
    omega
  · omega

/-- The numbers of a fragment, and what is left of its fields without them. -/
theorem fieldBytes_numbers (p : LpPacket) (sequence index count : UInt64) :
    ({ p with sequence := some sequence, fragIndex := some index, fragCount := some count } :
        LpPacket).fieldBytes
      = 14 + Nni.size index + Nni.size count
        + ({ p with sequence := none, fragIndex := none, fragCount := none } :
          LpPacket).fieldBytes := by
  have hindex : (Field.fragIndex.number index).size = 2 + Nni.size index := by
    have htype : VarNumber.size Field.fragIndex.type = 1 := by decide
    rw [Field.number, Block.size_ofNumber, htype]
  have hcount : (Field.fragCount.number count).size = 2 + Nni.size count := by
    have htype : VarNumber.size Field.fragCount.type = 1 := by decide
    rw [Field.number, Block.size_ofNumber, htype]
  have hnothing : (Block.encodeAll []).length = 0 := rfl
  simp only [fieldBytes, toBlocks, Block.length_encodeAll_append, Block.length_encodeAll_some,
    size_sequence, hindex, hcount, Option.toList_none, List.map_nil, hnothing]
  omega

end LpPacket

namespace Fragmentation

open LpPacket

/-! ## Headers that are covered -/

/-- A header as the first of more fragments than can be counted in fewer than eight bytes. -/
def numbered (header : LpPacket) : LpPacket :=
  { header with
    sequence := some 0
    fragIndex := some 0
    fragCount := some 0xFFFFFFFFFFFFFFFF }

/-- The most that the fields of a header take in a first link packet. -/
def mostFieldBytes (header : LpPacket) (fragmentation : Bool) : Nat :=
  max header.fieldBytes (if fragmentation then (numbered header).fieldBytes else 0)

/-- What is set aside for a header is enough for its fields. -/
def Covered (header : LpPacket) (fragmentation : Bool) : Prop :=
  baseOverhead + mostFieldBytes header fragmentation ≤ overhead header fragmentation

instance (header : LpPacket) (fragmentation : Bool) : Decidable (Covered header fragmentation) :=
  inferInstanceAs (Decidable (_ ≤ _))

variable {header : LpPacket} {fragmentation : Bool} {payload : Bytes} {mtu : Nat} {next : UInt64}

theorem fieldBytes_first_le (header : LpPacket) (base : UInt64) (count : Nat) (piece : Bytes) :
    (packetAt header base count 0 piece).fieldBytes ≤ (numbered header).fieldBytes := by
  have hfirst : (packetAt header base count 0 piece).fieldBytes
      = _ := fieldBytes_numbers header (base + 0) 0 (UInt64.ofNat count)
  have hnumbered : (numbered header).fieldBytes = _ := fieldBytes_numbers header 0 0 _
  have hcount := Nni.size_le (UInt64.ofNat count)
  have hmost : Nni.size 0xFFFFFFFFFFFFFFFF = 8 := by decide
  omega

/-- A count of more than four bytes takes eight. -/
theorem fieldBytes_first_eq (header : LpPacket) (base : UInt64) {count : Nat} (piece : Bytes)
    (hlow : 0xFFFFFFFF < count) (hhigh : count ≤ maxSize) :
    (packetAt header base count 0 piece).fieldBytes = (numbered header).fieldBytes := by
  have hfirst : (packetAt header base count 0 piece).fieldBytes
      = _ := fieldBytes_numbers header (base + 0) 0 (UInt64.ofNat count)
  have hnumbered : (numbered header).fieldBytes = _ := fieldBytes_numbers header 0 0 _
  have hcount : Nni.size (UInt64.ofNat count) = 8 := by
    simp only [Nni.size, UInt64.le_iff_toNat_le, toNat_ofNat_of_le_maxSize hhigh]
    rw [if_neg (by simp; omega), if_neg (by simp; omega), if_neg (by simp; omega)]
  have hmost : Nni.size 0xFFFFFFFFFFFFFFFF = 8 := by decide
  omega

theorem fieldBytes_later_le (header : LpPacket) (base : UInt64) (count : Nat) {index : Nat}
    (piece : Bytes) (hindex : index ≠ 0) :
    (packetAt header base count index piece).fieldBytes ≤ sequenceOverhead := by
  have hlater : (packetAt header base count index piece).fieldBytes
      = 14 + Nni.size (UInt64.ofNat index) + Nni.size (UInt64.ofNat count) + 0 := by
    simp only [packetAt, if_neg hindex]
    exact fieldBytes_numbers {} (base + UInt64.ofNat index) _ _
  have hindexBytes := Nni.size_le (UInt64.ofNat index)
  have hcountBytes := Nni.size_le (UInt64.ofNat count)
  rw [hlater, sequenceOverhead]
  omega

theorem fieldBytes_le_of_provided (hp : header.Provided)
    (halone : fragmentation = false →
      header.sequence = none ∧ header.fragIndex = none ∧ header.fragCount = none) :
    baseOverhead + header.fieldBytes ≤ overhead header fragmentation := by
  -- Any payload whose length takes three bytes shows the bound.
  obtain ⟨payload, hpayload⟩ : ∃ payload : Bytes, payload.length = 0xFD :=
    ⟨List.replicate 0xFD 0, List.length_replicate⟩
  have hprovided : ({ header with fragment := some payload } : LpPacket).Provided :=
    ⟨hp.nack, hp.nextHopFaceId, hp.nonDiscovery, hp.prefixAnnouncement⟩
  have hblocks := length_toBlocks_le hprovided rfl halone (by rw [hpayload]; decide)
  have hlength : VarNumber.size (UInt64.ofNat payload.length) = 3 := by
    rw [hpayload]
    decide
  have hfields : ({ header with fragment := some payload } : LpPacket).fieldBytes
      = header.fieldBytes := rfl
  have hoverhead : overhead { header with fragment := some payload } fragmentation
      = overhead header fragmentation := rfl
  rw [length_encodeAll_toBlocks rfl, hlength, hfields, hoverhead] at hblocks
  rw [baseOverhead]
  omega

theorem covered_of_provided (hp : header.Provided)
    (halone : fragmentation = false →
      header.sequence = none ∧ header.fragIndex = none ∧ header.fragCount = none) :
    Covered header fragmentation := by
  have hheader := fieldBytes_le_of_provided hp halone
  unfold Covered mostFieldBytes
  cases fragmentation with
  | false =>
      rw [if_neg (by decide)]
      omega
  | true =>
      have hprovided : (numbered header).Provided :=
        ⟨hp.nack, hp.nextHopFaceId, hp.nonDiscovery, hp.prefixAnnouncement⟩
      have hnumbered : baseOverhead + (numbered header).fieldBytes ≤ overhead header true :=
        fieldBytes_le_of_provided hprovided (by simp)
      rw [if_pos rfl]
      omega

theorem Covered.encode_le (hcovered : Covered header fragmentation) {r : List LpPacket × UInt64}
    (hcut : Cut payload header mtu fragmentation next r) (hmtu : mtu ≤ 0xFFFF) :
    ∀ p ∈ r.1, p.encode.length ≤ mtu := by
  unfold Covered mostFieldBytes at hcovered
  cases hcut with
  | whole fits =>
      intro p hp
      obtain rfl := List.mem_singleton.mp hp
      have hfields : ({ header with fragment := some payload } : LpPacket).fieldBytes
          = header.fieldBytes := rfl
      refine length_encode_le_of_fieldBytes rfl ?_ hmtu
      omega
  | divided room on positive large fits =>
      subst on
      rw [if_pos rfl] at hcovered
      intro p hp
      obtain ⟨⟨piece, index⟩, hmem, rfl⟩ := List.mem_map.mp hp
      have hpiece : piece.length ≤ room :=
        length_le_of_mem_pieces (List.fst_mem_of_mem_zipIdx hmem)
      have hreserved : baseOverhead
          + (packetAt header next (pieces room payload).length index piece).fieldBytes
          ≤ overhead header true := by
        by_cases h0 : index = 0
        · subst h0
          have hfirst := fieldBytes_first_le header next (pieces room payload).length piece
          omega
        · have hlater := fieldBytes_later_le header next (pieces room payload).length piece h0
          have hnumbers : baseOverhead + sequenceOverhead ≤ overhead header true := by
            unfold overhead
            rw [if_pos rfl]
            omega
          omega
      dsimp only
      exact length_encode_le_of_fieldBytes rfl (by omega) hmtu

/-! ## Headers that are not -/

/-- Some payload goes in frames of which one is larger than the transmission unit. -/
def SomeTooLarge (header : LpPacket) (mtu : Nat) (fragmentation : Bool) (next : UInt64) : Prop :=
  ∃ payload r, frames payload header mtu fragmentation next = .ok r ∧ ∃ frame ∈ r.1,
    mtu < frame.length

theorem someTooLarge_of_packets {ps : List LpPacket} {next' : UInt64} {p : LpPacket}
    (h : packets payload header mtu fragmentation next = .ok (ps, next')) (hp : p ∈ ps)
    (hlarge : mtu < p.encode.length) : SomeTooLarge header mtu fragmentation next := by
  refine ⟨payload, (ps.map LpPacket.encode, next'), ?_, p.encode, List.mem_map_of_mem hp, hlarge⟩
  rw [frames, h]
  rfl

/-- A payload that fills the room that is left to it. -/
theorem someTooLarge_whole (hroom : overhead header fragmentation < mtu) (hmtu : mtu ≤ maxSize)
    (hlarge : overhead header fragmentation
      < 2 + 2 * VarNumber.size (UInt64.ofNat (mtu - overhead header fragmentation))
        + header.fieldBytes) : SomeTooLarge header mtu fragmentation next := by
  have hpayload : (List.replicate (mtu - overhead header fragmentation) (0 : UInt8)).length
      = mtu - overhead header fragmentation := List.length_replicate
  generalize List.replicate (mtu - overhead header fragmentation) (0 : UInt8) = payload at hpayload
  have hpackets : packets payload header mtu fragmentation next
      = .ok ([{ header with fragment := some payload }], next) := by
    unfold packets
    simp only
    rw [if_neg (Nat.not_le.mpr hroom), if_pos (Nat.le_of_eq hpayload)]
  refine someTooLarge_of_packets hpackets (List.mem_singleton_self _) ?_
  have hfields : ({ header with fragment := some payload } : LpPacket).fieldBytes
      = header.fieldBytes := rfl
  refine lt_length_encode rfl hmtu ?_
  rw [hpayload, hfields]
  omega

/-- A payload of so many pieces that their number takes eight bytes. -/
theorem someTooLarge_divided (hroom : overhead header true < mtu) (hmtu : mtu ≤ maxSize)
    (hlarge : overhead header true
      < 2 + 2 * VarNumber.size (UInt64.ofNat (mtu - overhead header true))
        + (numbered header).fieldBytes) : SomeTooLarge header mtu true next := by
  obtain ⟨room, hroom'⟩ : ∃ room, mtu - overhead header true = room := ⟨_, rfl⟩
  rw [hroom'] at hlarge
  have hpositive : 0 < room := by omega
  have hpayload : (List.replicate (room * 0xFFFFFFFF + 1) (0 : UInt8)).length
      = room * 0xFFFFFFFF + 1 := List.length_replicate
  generalize List.replicate (room * 0xFFFFFFFF + 1) (0 : UInt8) = payload at hpayload
  have hpackets : packets payload header mtu true next
      = .ok (divide header next (pieces room payload),
        next + UInt64.ofNat (pieces room payload).length) := by
    unfold packets
    simp only [hroom', Bool.not_true, Bool.false_eq_true, ↓reduceIte]
    rw [if_neg (Nat.not_le.mpr hroom), if_neg (by rw [hpayload]; omega)]
    rfl
  have hcount : (pieces room payload).length = 0x100000000 := by
    rw [length_pieces hpositive, hpayload]
    exact Nat.div_eq_of_lt_le (by omega) (by omega)
  have hpieces : pieces room payload = payload.take room :: pieces room (payload.drop room) := by
    rw [pieces, if_neg]
    rintro (rfl | hzero)
    · simp at hpayload
    · omega
  have hfirst : packetAt header next 0x100000000 0 (payload.take room)
      ∈ divide header next (pieces room payload) := by
    rw [divide, hcount, hpieces, List.zipIdx_cons, List.map_cons]
    exact List.mem_cons_self
  refine someTooLarge_of_packets hpackets hfirst ?_
  have hpiece : (payload.take room).length = room := by
    rw [List.length_take, hpayload]
    omega
  refine lt_length_encode rfl hmtu ?_
  rw [hpiece, fieldBytes_first_eq header next _ (by decide) (by decide)]
  omega

theorem size_le_size_ofNat {v : UInt64} {n : Nat} (hlow : v.toNat ≤ n) (hhigh : n ≤ maxSize) :
    VarNumber.size v ≤ VarNumber.size (UInt64.ofNat n) := by
  refine VarNumber.size_mono (UInt64.le_iff_toNat_le.mpr ?_)
  rw [toNat_ofNat_of_le_maxSize hhigh]
  exact hlow

theorem someTooLarge_of_not_covered (hcovered : ¬ Covered header fragmentation)
    (hroom : overhead header fragmentation + 253 ≤ mtu) (hmtu : mtu ≤ maxSize) :
    SomeTooLarge header mtu fragmentation next := by
  have hsize : 3 ≤ VarNumber.size (UInt64.ofNat (mtu - overhead header fragmentation)) :=
    size_le_size_ofNat (v := 0xFD) (by simp; omega) (by omega)
  unfold Covered mostFieldBytes at hcovered
  rw [baseOverhead] at hcovered
  by_cases hwhole : overhead header fragmentation < 8 + header.fieldBytes
  · exact someTooLarge_whole (by omega) hmtu (by omega)
  · cases fragmentation with
    | false =>
        simp only [Bool.false_eq_true, ↓reduceIte] at hcovered
        omega
    | true =>
        simp only [↓reduceIte] at hcovered
        exact someTooLarge_divided (by omega) hmtu (by omega)

/-- No frame is larger than a transmission unit of two bytes if what is set aside for the header is
enough for its fields, as it is for those that are counted; if it is not, there is a payload that
does not fit for every transmission unit above it. Longer lengths take four bytes more. -/
theorem frames_fit_only_when_covered (header : LpPacket) (fragmentation : Bool) :
    (header.Provided → (fragmentation = false →
        header.sequence = none ∧ header.fragIndex = none ∧ header.fragCount = none) →
          Covered header fragmentation)
      ∧ (Covered header fragmentation → ∀ payload mtu next r, mtu ≤ 0xFFFF →
        frames payload header mtu fragmentation next = .ok r → ∀ frame ∈ r.1, frame.length ≤ mtu)
      ∧ (¬ Covered header fragmentation → ∀ mtu next,
        overhead header fragmentation + 0xFD ≤ mtu → mtu ≤ maxSize →
          SomeTooLarge header mtu fragmentation next)
      ∧ (overhead header fragmentation < baseOverhead + 4 + header.fieldBytes → ∀ mtu next,
        overhead header fragmentation + 0x10000 ≤ mtu → mtu ≤ maxSize →
          SomeTooLarge header mtu fragmentation next) := by
  refine ⟨covered_of_provided, fun hcovered payload mtu next r hmtu hframes => ?_,
    fun hcovered mtu next hroom hmtu => someTooLarge_of_not_covered hcovered hroom hmtu,
    fun hlarge mtu next hroom hmtu => ?_⟩
  · obtain ⟨⟨ps, next'⟩, hpackets, hr⟩ := exists_of_bind_eq_ok hframes
    cases hr
    intro frame hframe
    obtain ⟨p, hp, rfl⟩ := List.mem_map.mp hframe
    exact hcovered.encode_le (packets_cut hpackets) hmtu p hp
  · have hsize : 5 ≤ VarNumber.size (UInt64.ofNat (mtu - overhead header fragmentation)) :=
      size_le_size_ofNat (v := 0x10000) (by simp; omega) (by omega)
    rw [baseOverhead] at hlarge
    exact someTooLarge_whole (by omega) hmtu (by omega)

/-- A token is counted. The next hop is not: without numbers it spoils some frames, and with them
none. Neither is a prefix announcement, which takes more than there is for lengths. -/
theorem frames_fit_only_when_covered_of_headers :
    let token : LpPacket := { pitToken := some [1, 2, 3] }
    let hop : LpPacket := { nextHopFaceId := some 1 }
    let announcement : LpPacket := { prefixAnnouncement := some (List.replicate 40 0) }
    token.Provided ∧ Covered token false ∧ ¬ Covered hop false ∧ Covered hop true
      ∧ (∀ payload next r, frames payload token 1500 false next = .ok r →
        ∀ frame ∈ r.1, frame.length ≤ 1500)
      ∧ (∀ payload next r, frames payload hop 1500 true next = .ok r →
        ∀ frame ∈ r.1, frame.length ≤ 1500)
      ∧ SomeTooLarge hop 1500 false 0
      ∧ SomeTooLarge announcement 0x20000 false 0 := by
  intro token hop announcement
  have hprovided : token.Provided := ⟨rfl, rfl, rfl, rfl⟩
  have hbare : ¬ Covered hop false := by decide
  have hnumbered : Covered hop true := by decide
  obtain ⟨hcovered, hfit, -⟩ := frames_fit_only_when_covered token false
  obtain ⟨-, -, hspoilt, -⟩ := frames_fit_only_when_covered hop false
  obtain ⟨-, hfit', -⟩ := frames_fit_only_when_covered hop true
  obtain ⟨-, -, -, hlong⟩ := frames_fit_only_when_covered announcement false
  have htoken : Covered token false := hcovered hprovided fun _ => ⟨rfl, rfl, rfl⟩
  exact ⟨hprovided, htoken, hbare, hnumbered,
    fun payload next r hframes => hfit htoken payload 1500 next r (by decide) hframes,
    fun payload next r hframes => hfit' hnumbered payload 1500 next r (by decide) hframes,
    hspoilt hbare 1500 0 (by decide) (by decide),
    hlong (by decide) 0x20000 0 (by decide) (by decide)⟩

/-- A header that names the next hop, for which nothing is set aside. -/
theorem next_hop_makes_frame_too_large :
    let header : LpPacket := { nextHopFaceId := some 1 }
    header.fragment = none ∧ ¬ Covered header false
      ∧ ∃ frame, frames (List.replicate 22 0) header 30 false 0 = .ok ([frame], 0)
        ∧ frame.length = 31 :=
  ⟨rfl, by decide, _, rfl, by decide⟩

end Fragmentation

end NamedData
