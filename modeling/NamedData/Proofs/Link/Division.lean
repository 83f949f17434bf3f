import NamedData.Proofs.Link.Fragments
import NamedData.Proofs.Reassembly.Gathering

/-!
# Divided payloads

What a receiver takes from the link packets of a divided payload is a series, whose bytes are the
payload again.
-/

namespace NamedData.Fragmentation

/-- What a receiver takes from the link packet of the piece at `index` of `count`. -/
def fragmentAt (header : LpPacket) (base : UInt64) (count index : Nat) (piece : Bytes) :
    Fragment where
  base := base
  index := UInt64.ofNat index
  count := UInt64.ofNat count
  header := { packetAt header base count index piece with fragment := none }
  payload := piece

/-- What a receiver takes from the link packets of pieces that stand behind one another. -/
def fragments (header : LpPacket) (base : UInt64) (cut : List Bytes) : List Fragment :=
  cut.zipIdx.map fun (piece, index) => fragmentAt header base cut.length index piece

variable {header : LpPacket} {base : UInt64} {cut : List Bytes}

theorem map_packet_fragments :
    (fragments header base cut).map Fragment.packet = divide header base cut := by
  rw [fragments, List.map_map]
  rfl

theorem map_payload_fragments : (fragments header base cut).map (·.payload) = cut := by
  rw [fragments, List.map_map]
  exact List.zipIdx_map_fst 0 cut

@[simp] theorem length_fragments : (fragments header base cut).length = cut.length := by
  rw [fragments, List.length_map, List.length_zipIdx]

theorem toNat_ofNat_of_le {n : Nat} (h : n ≤ maxPacketSize) : (UInt64.ofNat n).toNat = n :=
  UInt64.toNat_ofNat_of_lt' (Nat.lt_of_le_of_lt h (by decide))

theorem ofPacket_packetAt {count index : Nat} (hindex : index < count)
    (hcount : count ≤ maxPacketSize) (piece : Bytes) :
    Fragment.ofPacket (packetAt header base count index piece)
      = .ok (fragmentAt header base count index piece) := by
  have hlt : ¬ UInt64.ofNat count ≤ UInt64.ofNat index := by
    rw [UInt64.le_iff_toNat_le, toNat_ofNat_of_le hcount, toNat_ofNat_of_le (by omega)]
    omega
  have hfits : ¬ maxPacketSize < (UInt64.ofNat count).toNat := by
    rw [toNat_ofNat_of_le hcount]
    omega
  have hbase : base + UInt64.ofNat index - UInt64.ofNat index = base := by
    rw [UInt64.add_sub_cancel]
  simp only [Fragment.ofPacket, packetAt, Option.getD_some, if_neg hlt, if_neg hfits, hbase]
  rfl

theorem series_fragments (header : LpPacket) (base : UInt64) (several : 2 ≤ cut.length)
    (few : cut.length ≤ maxPacketSize) (total : cut.flatten.length ≤ maxPacketSize) :
    Series base (fragments header base cut) where
  several := by rwa [length_fragments]
  accepted := by
    intro f hf
    obtain ⟨⟨piece, index⟩, hmem, rfl⟩ := List.mem_map.mp hf
    have hindex : index < cut.length := List.snd_lt_of_mem_zipIdx hmem
    exact ofPacket_packetAt hindex few piece
  base_eq := by
    intro f hf
    obtain ⟨x, -, rfl⟩ := List.mem_map.mp hf
    rfl
  count_eq := by
    intro f hf
    obtain ⟨x, -, rfl⟩ := List.mem_map.mp hf
    rw [length_fragments]
    exact toNat_ofNat_of_le few
  indices := by
    calc (fragments header base cut).map (·.index.toNat)
        = cut.zipIdx.map (·.2) := by
          rw [fragments, List.map_map]
          refine List.map_congr_left fun x hx => ?_
          have hx : x.2 < cut.length := List.snd_lt_of_mem_zipIdx hx
          exact toNat_ofNat_of_le (by omega)
      _ = List.range (fragments header base cut).length := by
          rw [List.zipIdx_map_snd, length_fragments, List.range_eq_range']
  total_le := by
    have hlengths : (fragments header base cut).map (·.payload.length)
        = ((fragments header base cut).map (·.payload)).map List.length := by
      rw [List.map_map]
      rfl
    rwa [hlengths, map_payload_fragments, ← List.length_flatten]

theorem flatMap_payload_fragments :
    (fragments header base cut).flatMap (·.payload) = cut.flatten := by
  rw [List.flatMap_def, map_payload_fragments]

theorem fragmentAt_zero_mem {piece : Bytes} {rest : List Bytes} :
    fragmentAt header base (piece :: rest).length 0 piece
      ∈ fragments header base (piece :: rest) :=
  List.mem_map.mpr ⟨(piece, 0), List.mem_cons_self, rfl⟩

end NamedData.Fragmentation
