import NamedData.Face.System
import NamedData.Proofs.Link.Transfer

/-!
# Packets without a link header

A packet may come in a link packet or bare. The bare form is told by the type in front, before
anything is read of it, and yet a face makes the same of both.
-/

namespace NamedData

open Tlv

namespace Tlv

/-- The type in front of a byte string, whether or not the block is whole. -/
def firstType? (bs : Bytes) : Option UInt64 :=
  (VarNumber.decode? bs).map (·.1)

theorem firstType?_of_peek? {bs : Bytes} {type : UInt64} {size : Nat}
    (h : peek? bs = some (type, size)) : firstType? bs = some type := by
  simp only [peek?] at h
  cases hheader : Header.decode bs with
  | error e => rw [hheader] at h; cases h
  | ok header =>
      simp only [hheader] at h
      split at h
      · cases h
      · cases h
        simp only [Header.decode] at hheader
        split at hheader
        · cases hheader
        · rename_i type typeSize htype
          split at hheader
          · cases hheader
          · cases hheader
            rw [firstType?, htype]
            rfl

end Tlv

/-- What is read as a packet has the type of one in front. -/
theorem Packet.peek?_of_decode {wire : Bytes} {p : Packet} (h : decode wire = .ok p) :
    ∃ type size, peek? wire = some (type, size)
      ∧ (type = Interest.blockType ∨ type = Data.blockType) := by
  unfold decode at h
  cases hblock : Block.decode wire with
  | error e => rw [hblock] at h; cases h
  | ok r =>
      obtain ⟨b, rest⟩ := r
      obtain ⟨size, hpeek⟩ := Block.peek?_of_decode hblock
      refine ⟨b.type, size, hpeek, ?_⟩
      simp only [hblock] at h
      split at h
      · cases h
      · unfold ofBlock at h
        split at h
        · exact .inl ‹_›
        · split at h
          · exact .inr ‹_›
          · split at h <;> cases h

namespace LinkService

variable {l : LinkService} {faceId : UInt64} {wire : Bytes} {now : Instant}

theorem parcel?_eq_none {options : LinkOptions} (h : ∀ p, Packet.decode wire ≠ .ok p) :
    parcel? options faceId ⟨{}, wire⟩ = none := by
  cases hdecode : Packet.decode wire with
  | error e =>
      simp only [parcel?, Option.isSome_none, Bool.false_eq_true, ↓reduceIte, Parcel.ofWire,
        hdecode]
      rfl
  | ok p => exact absurd hdecode (h p)

/-- What comes bare is taken as a packet, and is dropped where it cannot be read as one. -/
theorem receive_bare (htype : firstType? wire ≠ some LpPacket.blockType) :
    l.receive faceId wire now = (parcel? l.options faceId ⟨{}, wire⟩, l) := by
  cases hpeek : peek? wire with
  | none =>
      have hnone : parcel? l.options faceId ⟨{}, wire⟩ = none :=
        parcel?_eq_none fun p hp => by
          obtain ⟨type, size, hsome, -⟩ := Packet.peek?_of_decode hp
          rw [hpeek] at hsome
          cases hsome
      simp only [receive, unwrap, hpeek, Option.bind_none, hnone]
  | some front =>
      obtain ⟨type, size⟩ := front
      by_cases hpacket : type = Interest.blockType ∨ type = Data.blockType
      · simp only [receive, unwrap, hpeek, if_pos hpacket, Option.bind_some]
      · have hlink : type ≠ LpPacket.blockType := by
          rintro rfl
          exact htype (firstType?_of_peek? hpeek)
        have hnone : parcel? l.options faceId ⟨{}, wire⟩ = none :=
          parcel?_eq_none fun p hp => by
            obtain ⟨type', size', hsome, hkind⟩ := Packet.peek?_of_decode hp
            rw [hpeek] at hsome
            cases hsome
            exact hpacket hkind
        simp only [receive, unwrap, hpeek, if_neg hpacket, if_neg hlink, Option.bind_none, hnone]

theorem receive_ofFragment (hsize : (LpPacket.ofFragment wire).encode.length ≤ maxSize) :
    l.receive faceId (LpPacket.ofFragment wire).encode now
      = (parcel? l.options faceId ⟨{}, wire⟩, l) := by
  have hwhole : l.unwrapLink (LpPacket.ofFragment wire) now = (some ⟨{}, wire⟩, l) :=
    unwrapLink_whole {} rfl rfl wire
  simp only [receive, unwrap_encode hsize, hwhole, Option.bind_some]

end LinkService

theorem LpPacket.length_encode_ofFragment_le (wire : Bytes) :
    (ofFragment wire).encode.length ≤ wire.length + 20 := by
  have hinner := Block.size_le_add (Field.fragment.block wire)
  have houter := Block.size_le_add ⟨blockType, Block.encodeAll (ofFragment wire).toBlocks⟩
  have hblocks : (Block.encodeAll (ofFragment wire).toBlocks).length
      = (Field.fragment.block wire).size := Block.length_encodeAll_some Field.fragment.block wire
  have hfragment : VarNumber.size Field.fragment.type = 1 := by decide
  have hlink : VarNumber.size blockType = 1 := by decide
  rw [encode, Block.length_encode]
  simp only [Field.block_type, Field.block_value] at hinner houter
  omega

namespace FaceSystem

/-- Any byte string that does not begin with the type of link packets, a whole packet or not, leaves
the forwarding threads, the counters and the fragments of a face as the same bytes in a link packet
without other fields do. The bound is that of every byte string in memory. -/
theorem receive_bare_eq_receive_wrapped (s : FaceSystem) (key : FaceKey) {wire : Bytes}
    (htype : firstType? wire ≠ some LpPacket.blockType) (hlength : wire.length < 2 ^ 63) :
    s.receive key wire = s.receive key (LpPacket.ofFragment wire).encode := by
  have hsize : (LpPacket.ofFragment wire).encode.length ≤ maxSize := by
    have hle := LpPacket.length_encode_ofFragment_le wire
    have hmax : maxSize = 2 ^ 64 - 1 := by decide
    omega
  have hface (f : Face) : f.receive wire s.clock.now
      = f.receive (LpPacket.ofFragment wire).encode s.clock.now := by
    unfold Face.receive
    cases f.service with
    | discard => rfl
    | link l =>
        simp only [LinkService.receive_bare htype, LinkService.receive_ofFragment hsize]
  unfold receive
  cases s.face? key with
  | none => rfl
  | some f => simp only [hface f]

/-- An Interest whose type and length are longer than they need be, at a face that waits for the
second fragment of another packet. -/
theorem receive_bare_eq_receive_wrapped_while_reassembling :
    let fragment : LpPacket :=
      { sequence := some 7, fragIndex := some 0, fragCount := some 2, fragment := some [5] }
    let s := ((create .testing).adopt (.component 4 {} .testing)).2.receive 0 fragment.encode
    let wire : Bytes := [0xFD, 0, 5, 0xFD, 0, 5, 7, 3, 8, 1, 97]
    firstType? wire ≠ some LpPacket.blockType ∧ wire.length < 2 ^ 63
      ∧ s.receive 0 wire = s.receive 0 (LpPacket.ofFragment wire).encode
      ∧ ((s.receive 0 (LpPacket.ofFragment wire).encode).face? 0).map (·.counters.inInterests)
        = some 1 := by
  intro fragment s wire
  have htype : firstType? wire ≠ some LpPacket.blockType := by decide
  have hsame := s.receive_bare_eq_receive_wrapped 0 htype (by decide)
  refine ⟨htype, by decide, hsame, ?_⟩
  rw [← hsame]
  decide +kernel

end FaceSystem

end NamedData
