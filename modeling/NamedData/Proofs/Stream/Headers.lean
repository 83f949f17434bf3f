import NamedData.Proofs.Stream.Framing
import NamedData.Proofs.Tlv.Editing
import NamedData.Proofs.Tlv.Forms

/-!
# Three readers of a header

The header in front of a byte string is looked at to see whether a block is whole, to read the
block, and to take a frame from a stream. Each of the three adds up its size in another way, and all
come to the same, whatever length is declared.
-/

namespace NamedData

open Tlv

/-- Both numbers in front are complete, and a block of so many bytes begins with them, as far as a
byte count can say. -/
def Declares (bs : Bytes) (total : Nat) : Prop :=
  ∃ (type length : UInt64) (front behind : Bytes), VarNumber.Form type front
    ∧ VarNumber.Form length behind ∧ front ++ behind <+: bs
    ∧ total = min (front.length + behind.length + length.toNat) maxSize

variable {bs : Bytes} {type : UInt64} {n : Nat}

theorem declares_iff {total : Nat} :
    Declares bs total ↔ ∃ h, Header.decode bs = .ok h ∧ h.saturatedTotal = total := by
  constructor
  · rintro ⟨type, length, front, behind, hfront, hbehind, ⟨rest, rfl⟩, rfl⟩
    refine ⟨⟨type, length, front.length + behind.length⟩, ?_, rfl⟩
    exact Header.decode_eq_ok_iff.mpr
      ⟨front, behind, rest, hfront, hbehind, rfl, List.append_assoc _ _ _⟩
  · rintro ⟨h, hdecode, rfl⟩
    obtain ⟨front, behind, rest, hfront, hbehind, hsize, rfl⟩ :=
      Header.decode_eq_ok_iff.mp hdecode
    refine ⟨h.type, h.length, front, behind, hfront, hbehind,
      ⟨rest, List.append_assoc _ _ _⟩, ?_⟩
    rw [Header.saturatedTotal, Header.total, hsize]

theorem oversized_iff {size : Nat} :
    Oversized bs size ↔ Declares bs size ∧ maxPacketSize < size := by
  rw [declares_iff, and_comm]
  exact Iff.rfl

/-- A block is whole just if it can be read. -/
theorem peek?_eq_some_iff (hsize : bs.length < maxSize) :
    peek? bs = some (type, n) ↔ ∃ b rest, Block.decode bs = .ok (b, rest) ∧ b.type = type
      ∧ bs.length = n + rest.length := by
  constructor
  · intro h
    simp only [peek?] at h
    split at h
    · cases h
    · rename_i header hheader
      split at h
      · cases h
      · rename_i hwhole
        cases h
        -- The byte string is shorter than the largest count, so nothing was cut down to it.
        have htotal : header.saturatedTotal = header.total := by
          unfold Header.saturatedTotal at hwhole ⊢
          omega
        rw [htotal] at hwhole ⊢
        have hmax : ¬ maxSize < header.total := by omega
        have hfront := (Header.decode_size_pos hheader).2
        cases hcut : Bytes.cut? header.length.toNat (bs.drop header.size) with
        | none =>
            rw [Bytes.cut?_eq_none_iff, List.length_drop] at hcut
            unfold Header.total at hwhole
            omega
        | some cut =>
            obtain ⟨hle, -, hrest⟩ := Bytes.cut?_eq_some_iff.mp hcut
            refine ⟨⟨header.type, cut.1⟩, cut.2, ?_, rfl, ?_⟩
            · simp only [Block.decode, hheader, if_neg hmax, hcut]
            · rw [List.length_drop] at hle
              rw [hrest, List.length_drop, List.length_drop, Header.total]
              omega
  · rintro ⟨b, rest, hdecode, rfl, hlength⟩
    obtain ⟨form, hform, hmax, rfl⟩ := Block.decode_eq_ok_iff.mp hdecode
    obtain ⟨header, hheader, htype, htotal, -, -⟩ := hform.header rest
    have hn : n = form.length := by
      rw [List.length_append] at hlength
      omega
    have hsaturated : header.saturatedTotal = form.length := by
      rw [Header.saturatedTotal, htotal, Nat.min_eq_left hmax]
    have hwhole : ¬ (form ++ rest).length < form.length := by
      rw [List.length_append]
      omega
    simp only [peek?, hheader, hsaturated, if_neg hwhole, htype, hn]

namespace Framer

variable {f g : Framer} {frame : Bytes}

theorem next_eq_frame_iff_peek? (hsize : f.buffer.length < maxSize) :
    f.next = .ok (some (frame, g)) ↔ ∃ type n, peek? f.buffer = some (type, n)
      ∧ n ≤ maxPacketSize ∧ frame = f.buffer.take n ∧ g.buffer = f.buffer.drop n := by
  rw [next_eq_frame_iff]
  constructor
  · rintro ⟨hframe, hbuffer⟩
    obtain ⟨b, hb⟩ := hframe.whole
    have hdecode : Block.decode f.buffer = .ok (b, g.buffer) := by
      rw [hbuffer, Block.decode_append hb, List.nil_append]
    refine ⟨b.type, frame.length, ?_, hframe.size_le, ?_, ?_⟩
    · exact (peek?_eq_some_iff hsize).mpr
        ⟨b, g.buffer, hdecode, rfl, by rw [hbuffer, List.length_append]⟩
    · rw [hbuffer, List.take_left]
    · rw [hbuffer, List.drop_left]
  · rintro ⟨type, n, hpeek, hn, rfl, hg⟩
    obtain ⟨b, rest, hdecode, -, hlength⟩ := (peek?_eq_some_iff hsize).mp hpeek
    have hfront := Block.decode_front hdecode
    rw [hlength, Nat.add_sub_cancel] at hfront
    have hle : (f.buffer.take n).length ≤ n := List.length_take_le n f.buffer
    exact ⟨⟨hle.trans hn, b, hfront⟩, by rw [hg, List.take_append_drop]⟩

/-- A block is found whole just if it can be read, with the same type and as many bytes. A framer
gives a frame just if a block no larger than a packet is found whole; the frame is its bytes, and
those behind it stay. It fails just if both numbers in front are complete and declare more than a
packet may have, whether or not a byte count can say how much more, and then keeps all that it
has. -/
theorem header_readers_agree (f : Framer) (hsize : f.buffer.length < maxSize) :
    (∀ type n, peek? f.buffer = some (type, n) ↔
      ∃ b rest, Block.decode f.buffer = .ok (b, rest) ∧ b.type = type
        ∧ f.buffer.length = n + rest.length)
      ∧ (∀ frame g, f.next = .ok (some (frame, g)) ↔
        ∃ type n, peek? f.buffer = some (type, n) ∧ n ≤ maxPacketSize
          ∧ frame = f.buffer.take n ∧ g.buffer = f.buffer.drop n)
      ∧ (∀ e, f.next = .error e ↔ ∃ total, Declares f.buffer total ∧ maxPacketSize < total
        ∧ e = .packetTooLarge total maxPacketSize)
      ∧ ∀ e, f.next = .error e → f.takeFrames = ⟨[], f, some e⟩ := by
  refine ⟨fun type n => peek?_eq_some_iff hsize, fun frame g => next_eq_frame_iff_peek? hsize,
    fun e => ?_, fun e => takeFrames_of_error⟩
  simp only [next_eq_error_iff, oversized_iff, and_assoc]

/-- The largest length that can be declared, and a frame with the beginning of another behind it. -/
theorem header_readers_agree_on_largest_length :
    let f : Framer := ⟨[5, 0xFF, 0xFF, 0xFF, 0xFF, 0xFF, 0xFF, 0xFF, 0xFF, 0xFF]⟩
    let g : Framer := ⟨[0xFD, 0, 5, 1, 0xAA, 6]⟩
    f.buffer.length < maxSize ∧ g.buffer.length < maxSize
      ∧ Declares f.buffer maxSize ∧ f.takeFrames = ⟨[], f, some (.packetTooLarge maxSize 8800)⟩
      ∧ peek? g.buffer = some (5, 5) ∧ g.next = .ok (some ([0xFD, 0, 5, 1, 0xAA], ⟨[6]⟩)) := by
  intro f g
  have hf : f.buffer.length < maxSize := by decide
  have hg : g.buffer.length < maxSize := by decide
  have hfails : f.next = .error (.packetTooLarge maxSize 8800) := by decide
  obtain ⟨-, -, herror, hkept⟩ := header_readers_agree f hf
  obtain ⟨hwhole, hframe, -, -⟩ := header_readers_agree g hg
  have hpeek : peek? g.buffer = some (5, 5) :=
    (hwhole 5 5).mpr ⟨⟨5, [0xAA]⟩, [6], by decide, rfl, rfl⟩
  obtain ⟨total, htotal, -, heq⟩ := (herror _).mp hfails
  cases heq
  exact ⟨hf, hg, htotal, hkept _ hfails, hpeek,
    (hframe _ _).mpr ⟨5, 5, hpeek, by decide, rfl, rfl⟩⟩

end Framer

end NamedData
