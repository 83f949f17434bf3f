import NamedData.Tlv.Block

/-!
# Framing a byte stream

Bytes from a stream medium are kept until they begin with a whole block. A header that declares too
large a block is fatal as soon as it is complete. A stream is read chunk by chunk; where one chunk
ends and the next begins says nothing about the frames.
-/

namespace NamedData

open Tlv

/-- The bytes that are not yet part of a frame. -/
structure Framer where
  buffer : Bytes
deriving DecidableEq, Repr

/-- Why a stream ended. -/
inductive StreamEnd where
  | stopped
  | closed
  | failed (e : Error)
deriving DecidableEq, Repr

/-- The complete frames in a buffer, and what stays there. -/
structure Framing where
  frames : List Bytes
  rest : Framer
  /-- The error of a header that stays in front. -/
  fault : Option Error
deriving DecidableEq, Repr

/-- What was read from a stream until it ended. -/
structure StreamReading where
  frames : List Bytes
  rest : Framer
  ending : StreamEnd
deriving DecidableEq, Repr

namespace Framer

def empty : Framer := ⟨[]⟩

def extend (f : Framer) (bs : Bytes) : Framer :=
  ⟨f.buffer ++ bs⟩

/-- The next frame, if it is complete, and what stays in the buffer. -/
def next (f : Framer) : Except Error (Option (Bytes × Framer)) :=
  match Header.decode f.buffer with
  | .error _ => .ok none
  | .ok h =>
    if maxPacketSize < h.saturatedTotal then
      .error (.packetTooLarge h.saturatedTotal maxPacketSize)
    else .ok ((Bytes.cut? h.saturatedTotal f.buffer).map fun (frame, rest) => (frame, ⟨rest⟩))

theorem next_buffer_lt {f g : Framer} {frame : Bytes} (h : f.next = .ok (some (frame, g))) :
    g.buffer.length < f.buffer.length := by
  simp only [next] at h
  split at h
  · cases h
  · rename_i header hheader
    have hpos := Header.decode_size_pos hheader
    split at h
    · cases h
    · rename_i hsize
      simp only [Except.ok.injEq, Option.map_eq_some_iff, Prod.mk.injEq] at h
      obtain ⟨⟨head, rest⟩, hcut, -, rfl⟩ := h
      obtain ⟨hle, -, hrest⟩ := Bytes.cut?_eq_some_iff.1 hcut
      have htotal : 0 < header.saturatedTotal := by
        simp only [Header.saturatedTotal, Header.total, maxSize]
        omega
      simp only [hrest, List.length_drop]
      omega

/-- Takes all complete frames in order. -/
def takeFrames (f : Framer) : Framing :=
  match h : f.next with
  | .error e => ⟨[], f, some e⟩
  | .ok none => ⟨[], f, none⟩
  | .ok (some (frame, g)) =>
    have := next_buffer_lt h
    let later := g.takeFrames
    { later with frames := frame :: later.frames }
termination_by f.buffer.length

/-- Reads a stream that gives one chunk at a time and ends in `last`; an empty chunk is the end of
the stream. -/
def read (last : StreamEnd) : (chunks : List Bytes) → Framer → StreamReading
  | [], f => ⟨[], f, last⟩
  | chunk :: chunks, f =>
    if chunk = [] then ⟨[], f, .closed⟩
    else
      let cut := (f.extend chunk).takeFrames
      match cut.fault with
      | some e => ⟨cut.frames, cut.rest, .failed e⟩
      | none =>
        let later := read last chunks cut.rest
        { later with frames := cut.frames ++ later.frames }

end Framer

end NamedData
