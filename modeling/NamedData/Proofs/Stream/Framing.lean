import NamedData.Proofs.Tlv.Fields
import NamedData.Stream.Framer

/-!
# The frames of a byte stream

A byte string divides in one way into whole blocks and a remainder that does not begin with one.
Frames are taken by that division, so more bytes behind it change nothing that was taken, and the
chunks in which a stream is read are of no account.
-/

namespace NamedData

open Tlv

/-- One whole block, no larger than a packet. -/
structure IsFrame (frame : Bytes) : Prop where
  size_le : frame.length ≤ maxPacketSize
  whole : ∃ b, Block.decode frame = .ok (b, [])

/-- In front stands the complete header of a block of this size, which is too large. -/
def Oversized (bs : Bytes) (size : Nat) : Prop :=
  maxPacketSize < size ∧ ∃ h, Header.decode bs = .ok h ∧ h.saturatedTotal = size

theorem Oversized.append {bs : Bytes} {size : Nat} (h : Oversized bs size) (tail : Bytes) :
    Oversized (bs ++ tail) size := by
  obtain ⟨hsize, header, hheader, htotal⟩ := h
  exact ⟨hsize, header, Header.decode_append hheader tail, htotal⟩

theorem IsFrame.of_header {bs : Bytes} {h : Header} (hheader : Header.decode bs = .ok h)
    (hsize : h.total ≤ maxPacketSize) (hlength : h.total ≤ bs.length) :
    IsFrame (bs.take h.total) := by
  have htake : (bs.take h.total).length = h.total := List.length_take_of_le hlength
  have hmax : ¬ maxSize < h.total := Nat.not_lt.mpr (Nat.le_trans hsize (by decide))
  have hvalue : ((bs.take h.total).drop h.size).length = h.length.toNat := by
    rw [List.length_drop, htake, Header.total, Nat.add_sub_cancel_left]
  have hcut := Bytes.cut?_append ((bs.take h.total).drop h.size) []
  rw [List.append_nil, hvalue] at hcut
  have hback : Header.decode (bs.take h.total) = .ok h :=
    Header.decode_take hheader (Nat.le_add_right h.size _)
  refine ⟨Nat.le_trans (Nat.le_of_eq htake) hsize, ⟨h.type, (bs.take h.total).drop h.size⟩, ?_⟩
  simp only [Block.decode, hback, if_neg hmax, hcut]

theorem IsFrame.header {frame : Bytes} (hframe : IsFrame frame) :
    ∃ h, Header.decode frame = .ok h ∧ h.total = frame.length := by
  obtain ⟨b, hb⟩ := hframe.whole
  unfold Block.decode at hb
  cases hheader : Header.decode frame with
  | error e => rw [hheader] at hb; cases hb
  | ok h =>
      rw [hheader] at hb
      dsimp only at hb
      split at hb
      · cases hb
      · split at hb
        · cases hb
        · rename_i value rest hcut
          cases hb
          obtain ⟨hle, -, hrest⟩ := Bytes.cut?_eq_some_iff.1 hcut
          have hsize := (Header.decode_size_pos hheader).2
          have hempty := congrArg List.length hrest
          simp only [List.length_drop, List.length_nil] at hempty hle
          refine ⟨h, rfl, ?_⟩
          unfold Header.total
          omega

namespace Framer

variable {f g : Framer} {frame : Bytes} {e : Error}

/-! ## The next frame -/

theorem next_eq_error_iff :
    f.next = .error e
      ↔ ∃ size, Oversized f.buffer size ∧ e = .packetTooLarge size maxPacketSize := by
  unfold next Oversized
  cases hheader : Header.decode f.buffer with
  | error e' => simp
  | ok h =>
      by_cases hsize : maxPacketSize < h.saturatedTotal
      · simp [hsize, eq_comm]
      · simp only [if_neg hsize, reduceCtorEq, Except.ok.injEq, false_iff]
        rintro ⟨size, ⟨hlt, h', rfl, rfl⟩, -⟩
        exact hsize hlt

theorem next_eq_frame_iff :
    f.next = .ok (some (frame, g)) ↔ IsFrame frame ∧ f.buffer = frame ++ g.buffer := by
  constructor
  · intro h
    unfold next at h
    cases hheader : Header.decode f.buffer with
    | error e => rw [hheader] at h; cases h
    | ok header =>
        rw [hheader] at h
        dsimp only at h
        split at h
        · cases h
        · rename_i hsize
          simp only [Except.ok.injEq, Option.map_eq_some_iff, Prod.mk.injEq] at h
          obtain ⟨⟨head, rest⟩, hcut, rfl, rfl⟩ := h
          obtain ⟨hle, rfl, rfl⟩ := Bytes.cut?_eq_some_iff.1 hcut
          -- A total that was cut down to the maximum would have been too large.
          have htotal : header.saturatedTotal = header.total := by
            unfold Header.saturatedTotal at hsize ⊢
            have : maxPacketSize < maxSize := by decide
            omega
          rw [htotal] at hsize hle ⊢
          exact ⟨IsFrame.of_header hheader (Nat.not_lt.mp hsize) hle,
            (List.take_append_drop _ _).symm⟩
  · rintro ⟨hframe, hbuffer⟩
    obtain ⟨header, hheader, htotal⟩ := hframe.header
    have hsaturated : header.saturatedTotal = frame.length := by
      unfold Header.saturatedTotal
      have := hframe.size_le
      have : maxPacketSize < maxSize := by decide
      omega
    have hsize : ¬ maxPacketSize < frame.length := Nat.not_lt.mpr hframe.size_le
    simp only [next, hbuffer, Header.decode_append hheader, hsaturated, if_neg hsize,
      Bytes.cut?_append, Option.map_some]

/-- What waits for more bytes is smaller than a packet. -/
theorem length_lt_of_next (h : f.next = .ok none) : f.buffer.length < maxPacketSize := by
  unfold next at h
  cases hheader : Header.decode f.buffer with
  | error e =>
      have := Header.length_lt_of_decode_eq_error hheader
      exact Nat.lt_trans this (by decide)
  | ok header =>
      rw [hheader] at h
      dsimp only at h
      split at h
      · cases h
      · rename_i hsize
        have hnone := Option.map_eq_none_iff.1 (Except.ok.inj h)
        have := Bytes.cut?_eq_none_iff.1 hnone
        omega

end Framer

/-! ## All frames of a buffer -/

/-- The frames are whole and stand one behind the other, and what stays behind them does not begin
with another frame. -/
structure Framing.Divides (r : Framing) (bs : Bytes) : Prop where
  whole : ∀ frame ∈ r.frames, IsFrame frame
  joined : r.frames.flatten ++ r.rest.buffer = bs
  ends : r.rest.next = r.fault.elim (.ok none) .error

/-- The frames of a stream that ends in `last` unless a header is too large. -/
def Framing.reading (r : Framing) (last : StreamEnd) : StreamReading :=
  ⟨r.frames, r.rest, r.fault.elim last .failed⟩

namespace Framer

variable {f g : Framer} {frame bs : Bytes} {e : Error} {chunks : List Bytes} {last : StreamEnd}

theorem takeFrames_of_frame (h : f.next = .ok (some (frame, g))) :
    f.takeFrames = { g.takeFrames with frames := frame :: g.takeFrames.frames } := by
  rw [takeFrames]
  split <;> simp_all

theorem takeFrames_of_none (h : f.next = .ok none) : f.takeFrames = ⟨[], f, none⟩ := by
  rw [takeFrames]
  split <;> simp_all

theorem takeFrames_of_error (h : f.next = .error e) : f.takeFrames = ⟨[], f, some e⟩ := by
  rw [takeFrames]
  split <;> simp_all

theorem takeFrames_divides (f : Framer) : f.takeFrames.Divides f.buffer := by
  -- By the recursion of `takeFrames`: every frame makes the buffer shorter.
  induction f using takeFrames.induct with
  | case1 f e h =>
      rw [takeFrames_of_error h]
      exact ⟨by simp, rfl, h⟩
  | case2 f h =>
      rw [takeFrames_of_none h]
      exact ⟨by simp, rfl, h⟩
  | case3 f frame g h _ ih =>
      obtain ⟨hframe, hbuffer⟩ := next_eq_frame_iff.mp h
      rw [takeFrames_of_frame h]
      exact
        { whole := List.forall_mem_cons.mpr ⟨hframe, ih.whole⟩
          joined := by rw [List.flatten_cons, List.append_assoc, ih.joined, hbuffer]
          ends := ih.ends }

/-- A byte string divides in only one way. -/
theorem takeFrames_eq_of_divides {r : Framing} (h : r.Divides f.buffer) : f.takeFrames = r := by
  obtain ⟨frames, rest, fault⟩ := r
  obtain ⟨hwhole, hjoined, hends⟩ := h
  dsimp only at hwhole hjoined hends
  induction frames generalizing f with
  | nil =>
      have hf : f = rest := congrArg Framer.mk hjoined.symm
      subst hf
      cases fault with
      | none => exact takeFrames_of_none hends
      | some e => exact takeFrames_of_error hends
  | cons frame frames ih =>
      obtain ⟨hframe, hframes⟩ := List.forall_mem_cons.mp hwhole
      have hnext : f.next = .ok (some (frame, ⟨frames.flatten ++ rest.buffer⟩)) :=
        next_eq_frame_iff.mpr ⟨hframe, by rw [← hjoined, List.flatten_cons, List.append_assoc]⟩
      rw [takeFrames_of_frame hnext, ih hframes rfl]

/-- Bytes that come later bring later frames and leave those before as they are. -/
theorem takeFrames_extend (f : Framer) (bs : Bytes) :
    (f.extend bs).takeFrames
      = { (f.takeFrames.rest.extend bs).takeFrames with
          frames := f.takeFrames.frames ++ (f.takeFrames.rest.extend bs).takeFrames.frames } := by
  have hfirst := takeFrames_divides f
  have hlater := takeFrames_divides (f.takeFrames.rest.extend bs)
  refine takeFrames_eq_of_divides ⟨?_, ?_, hlater.ends⟩
  · intro frame hframe
    exact (List.mem_append.mp hframe).elim (hfirst.whole frame) (hlater.whole frame)
  · dsimp only
    rw [List.flatten_append, List.append_assoc, hlater.joined, extend, ← List.append_assoc,
      hfirst.joined, extend]

/-- Once a header is too large, it makes no difference what follows. -/
theorem takeFrames_extend_of_fault (h : f.takeFrames.fault = some e) (bs : Bytes) :
    (f.extend bs).takeFrames = ⟨f.takeFrames.frames, f.takeFrames.rest.extend bs, some e⟩ := by
  have hends : f.takeFrames.rest.next = .error e := by rw [(takeFrames_divides f).ends, h]; rfl
  obtain ⟨size, hsize, he⟩ := next_eq_error_iff.mp hends
  have hnext : (f.takeFrames.rest.extend bs).next = .error e :=
    next_eq_error_iff.mpr ⟨size, hsize.append bs, he⟩
  rw [takeFrames_extend, takeFrames_of_error hnext, List.append_nil]

/-! ## Reading in chunks -/

theorem read_cons_of_fault {chunk : Bytes} (hchunk : chunk ≠ [])
    (h : (f.extend chunk).takeFrames.fault = some e) :
    read last (chunk :: chunks) f = (f.extend chunk).takeFrames.reading last := by
  simp [read, hchunk, h, Framing.reading]

theorem read_cons_of_none {chunk : Bytes} (hchunk : chunk ≠ [])
    (h : (f.extend chunk).takeFrames.fault = none) :
    read last (chunk :: chunks) f
      = { read last chunks (f.extend chunk).takeFrames.rest with
          frames := (f.extend chunk).takeFrames.frames
            ++ (read last chunks (f.extend chunk).takeFrames.rest).frames } := by
  simp [read, hchunk, h]

/-- Reading takes the frames of all bytes that have come, until a header is too large. -/
theorem read_eq (last : StreamEnd) (hwait : f.next = .ok none)
    (hread : ∀ chunk ∈ chunks, chunk ≠ []) :
    ∃ n ≤ chunks.length,
      read last chunks f = (f.extend (chunks.take n).flatten).takeFrames.reading last
        ∧ ((f.extend (chunks.take n).flatten).takeFrames.fault = none → n = chunks.length) := by
  induction chunks generalizing f with
  | nil =>
      refine ⟨0, Nat.le_refl 0, ?_, fun _ => rfl⟩
      rw [List.take_nil, List.flatten_nil, extend, List.append_nil, takeFrames_of_none hwait]
      rfl
  | cons chunk chunks ih =>
      obtain ⟨hchunk, hchunks⟩ := List.forall_mem_cons.mp hread
      cases hfault : (f.extend chunk).takeFrames.fault with
      | some e =>
          refine ⟨1, Nat.le_add_left 1 _, ?_, fun hnone => ?_⟩
          · rw [read_cons_of_fault hchunk hfault]
            simp
          · simp [hfault] at hnone
      | none =>
          -- The rest waits for more bytes as the framer did before, so the later chunks can follow.
          have hnext : (f.extend chunk).takeFrames.rest.next = .ok none := by
            rw [(takeFrames_divides _).ends, hfault]; rfl
          obtain ⟨n, hn, heq, hall⟩ := ih hnext hchunks
          have hextend : f.extend ((chunk :: chunks).take (n + 1)).flatten
              = (f.extend chunk).extend (chunks.take n).flatten := by
            simp [extend]
          refine ⟨n + 1, Nat.succ_le_succ hn, ?_, fun hnone => ?_⟩
          · rw [read_cons_of_none hchunk hfault, heq, hextend, takeFrames_extend (f.extend chunk)]
            rfl
          · rw [hextend, takeFrames_extend] at hnone
            rw [hall hnone, List.length_cons]

/-- What a reading gives does not depend on the chunks, apart from bytes that it leaves behind a
header that is too large. -/
theorem read_eq_flatten (last : StreamEnd) (hwait : f.next = .ok none)
    (hread : ∀ chunk ∈ chunks, chunk ≠ []) :
    (read last chunks f).frames = (f.extend chunks.flatten).takeFrames.frames
      ∧ (read last chunks f).ending
          = ((f.extend chunks.flatten).takeFrames.reading last).ending := by
  obtain ⟨n, hn, heq, hall⟩ := read_eq last hwait hread
  rw [heq]
  cases hfault : (f.extend (chunks.take n).flatten).takeFrames.fault with
  | none =>
      rw [hall hfault, List.take_length]
      exact ⟨rfl, rfl⟩
  | some e =>
      have hsplit : f.extend chunks.flatten
          = (f.extend (chunks.take n).flatten).extend (chunks.drop n).flatten := by
        rw [extend, extend, extend, List.append_assoc, ← List.flatten_append,
          List.take_append_drop]
      rw [hsplit, takeFrames_extend_of_fault hfault, Framing.reading, hfault]
      exact ⟨rfl, rfl⟩

end Framer

end NamedData
