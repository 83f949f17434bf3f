import NamedData.Proofs.Stream.Framing
import NamedData.Proofs.System.Faces

/-!
# Receiving from a stream

A face that reads a stream to its end gets the same frames, counts the same bytes and ends in the
same way, however the stream is cut into reads.
-/

namespace NamedData

open Tlv

namespace StreamReading

/-- What a reading of some chunks up to the end of the stream consists of. -/
structure Faithful (r : StreamReading) (chunks : List Bytes) : Prop where
  /-- Every frame is one whole block. -/
  whole : ∀ frame ∈ r.frames, IsFrame frame
  /-- Nothing that was read is lost, and all is read unless the stream fails. -/
  joined : ∃ n ≤ chunks.length, r.frames.flatten ++ r.rest.buffer = (chunks.take n).flatten
    ∧ (r.ending = .closed → n = chunks.length)
  /-- The stream ends at its end, or where the size of a block in front is too large. -/
  ends : r.ending = .closed ∧ r.rest.next = .ok none
    ∨ ∃ size, Oversized r.rest.buffer size
      ∧ r.ending = .failed (.packetTooLarge size maxPacketSize)
  /-- All frames before the first header that is too large are there. -/
  delivered : ∀ (frames : List Bytes) (tail : Bytes) (size : Nat),
    (∀ frame ∈ frames, IsFrame frame) → chunks.flatten = frames.flatten ++ tail →
      Oversized tail size → r.frames = frames
        ∧ r.ending = .failed (.packetTooLarge size maxPacketSize)

end StreamReading

namespace Framer

variable {chunks : List Bytes} {last : StreamEnd}

theorem next_empty : empty.next = .ok none := rfl

theorem read_faithful (hread : ∀ chunk ∈ chunks, chunk ≠ []) :
    (empty.read .closed chunks).Faithful chunks := by
  obtain ⟨n, hn, heq, hall⟩ := read_eq .closed next_empty hread
  obtain ⟨hframes, hending⟩ := read_eq_flatten .closed next_empty hread
  have hdivides := takeFrames_divides (empty.extend (chunks.take n).flatten)
  rw [heq] at hframes hending ⊢
  generalize hcut : (empty.extend (chunks.take n).flatten).takeFrames = cut at *
  refine
    { whole := hdivides.whole
      joined := ⟨n, hn, hdivides.joined, fun hclosed => hall ?_⟩
      ends := ?_
      delivered := ?_ }
  · cases hfault : cut.fault with
    | none => rfl
    | some e =>
        rw [Framing.reading, hfault] at hclosed
        cases hclosed
  · have hends := hdivides.ends
    cases hfault : cut.fault with
    | none =>
        rw [hfault] at hends
        exact Or.inl ⟨by rw [Framing.reading, hfault]; rfl, hends⟩
    | some e =>
        rw [hfault] at hends
        obtain ⟨size, hsize, rfl⟩ := next_eq_error_iff.mp hends
        exact Or.inr ⟨size, hsize, by rw [Framing.reading, hfault]; rfl⟩
  · intro frames tail size hwhole hsplit hsize
    have htail : (⟨tail⟩ : Framer).next = .error (.packetTooLarge size maxPacketSize) :=
      next_eq_error_iff.mpr ⟨size, hsize, rfl⟩
    have hall : (empty.extend chunks.flatten).takeFrames
        = ⟨frames, ⟨tail⟩, some (.packetTooLarge size maxPacketSize)⟩ :=
      takeFrames_eq_of_divides ⟨hwhole, hsplit.symm, htail⟩
    rw [hframes, hending, hall]
    exact ⟨rfl, rfl⟩

/-- The frames and the end of a stream do not depend on how it is cut. -/
theorem read_singleton_flatten (hread : ∀ chunk ∈ chunks, chunk ≠ []) :
    (empty.read .closed [chunks.flatten]).frames = (empty.read .closed chunks).frames
      ∧ (empty.read .closed [chunks.flatten]).ending = (empty.read .closed chunks).ending := by
  have hparts := read_eq_flatten .closed next_empty hread
  -- An empty stream is no single nonempty read.
  by_cases hempty : chunks.flatten = []
  · rw [hparts.1, hparts.2, hempty, extend, List.append_nil, takeFrames_of_none next_empty]
    simp [read, Framing.reading]
  · have hone : ∀ chunk ∈ [chunks.flatten], chunk ≠ [] := by simpa using hempty
    have hwhole := read_eq_flatten .closed next_empty hone
    rw [List.flatten_singleton] at hwhole
    exact ⟨hwhole.1.trans hparts.1.symm, hwhole.2.trans hparts.2.symm⟩

end Framer

namespace FaceSystem

variable {s : FaceSystem} {key : FaceKey} {f : Face} {chunks : List Bytes}

/-- A face that was not stopped is handed the frames of the stream one after the other. -/
theorem runStream_closed (hf : s.face? key = some f) (hrun : f.base.stop.isStopped = false)
    (hread : ∀ chunk ∈ chunks, chunk ≠ []) :
    s.runStream key chunks .closed
      = ((Framer.empty.read .closed chunks).ending,
        s.receiveAll key (Framer.empty.read .closed chunks).frames) := by
  have hstop : ((s.face? key).any fun f => f.base.stop.isStopped) = false := by simp [hf, hrun]
  have hending : (Framer.empty.read .closed chunks).ending ≠ .stopped := by
    rcases (Framer.read_faithful hread).ends with ⟨hclosed, -⟩ | ⟨size, -, hfailed⟩
    · simp [hclosed]
    · simp [hfailed]
  simp [runStream, hstop, hending]

/-- However a stream is cut into reads, a face that was not stopped gets the same frames in the same
order, with the same effect, counts their bytes, and sees the same end. -/
theorem runStream_cut_anywhere (hf : s.face? key = some f) (hrun : f.base.stop.isStopped = false)
    (hread : ∀ chunk ∈ chunks, chunk ≠ []) :
    let reading := Framer.empty.read .closed chunks
    s.runStream key chunks .closed = (reading.ending, s.receiveAll key reading.frames)
      ∧ reading.frames = (Framer.empty.read .closed [chunks.flatten]).frames
      ∧ s.runStream key chunks .closed = s.runStream key [chunks.flatten] .closed
      ∧ (∃ g, (s.runStream key chunks .closed).2.face? key = some g
          ∧ g.base.inBytes = f.base.inBytes + UInt64.ofNat (reading.frames.map List.length).sum)
      ∧ reading.Faithful chunks
      ∧ ∀ framer : Framer, framer.next = .ok none → framer.buffer.length < maxPacketSize := by
  intro reading
  have hrunStream := runStream_closed hf hrun hread
  obtain ⟨hframes, hending⟩ := Framer.read_singleton_flatten hread
  have hstop : ((s.face? key).any fun f => f.base.stop.isStopped) = false := by simp [hf, hrun]
  refine ⟨hrunStream, hframes.symm, ?_, ?_, Framer.read_faithful hread,
    fun framer => Framer.length_lt_of_next⟩
  · simp only [runStream, hstop, hframes, hending]
  · rw [hrunStream]
    exact inBytes_receiveAll hf reading.frames

/-- Reads that end inside a header, inside a value and behind a frame, up to a header that declares
too large a block. -/
theorem runStream_cut_anywhere_in_headers :
    let s := ((create .testing).adopt (.component 4 {} .testing)).2
    let chunks : List Bytes := [[5], [5, 7, 3], [8, 1, 97, 6], [0], [5, 0xFD], [0x30, 0, 1]]
    let frames : List Bytes := [[5, 5, 7, 3, 8, 1, 97], [6, 0]]
    s.face? 0 = some (.component 4 {} .testing) ∧ (∀ chunk ∈ chunks, chunk ≠ [])
      ∧ s.runStream 0 chunks .closed
        = (.failed (.packetTooLarge 12292 8800), s.receiveAll 0 frames)
      ∧ s.runStream 0 chunks .closed = s.runStream 0 [chunks.flatten] .closed
      ∧ ∃ g, (s.runStream 0 chunks .closed).2.face? 0 = some g ∧ g.base.inBytes = 9 := by
  intro s chunks frames
  have hface : s.face? 0 = some (.component 4 {} .testing) := rfl
  have hread : ∀ chunk ∈ chunks, chunk ≠ [] := by decide
  obtain ⟨hrun, -, hwhole, hbytes, hfaithful, -⟩ := runStream_cut_anywhere hface rfl hread
  have hframes : ∀ frame ∈ frames, IsFrame frame := by
    simp only [frames, List.forall_mem_cons, List.not_mem_nil, false_imp_iff, implies_true,
      and_true]
    exact ⟨⟨by decide, ⟨5, [7, 3, 8, 1, 97]⟩, rfl⟩, ⟨by decide, ⟨6, []⟩, rfl⟩⟩
  have hsize : Oversized [5, 0xFD, 0x30, 0, 1] 12292 :=
    ⟨by decide, ⟨5, 12288, 4⟩, rfl, rfl⟩
  obtain ⟨hgot, hending⟩ := hfaithful.delivered frames _ 12292 hframes rfl hsize
  rw [hgot] at hbytes
  rw [hgot, hending] at hrun
  exact ⟨hface, hread, hrun, hwhole, hbytes⟩

end FaceSystem

end NamedData
