import NamedData.Proofs.Link.WireForm
import NamedData.Proofs.System.Faces

/-!
# What a face receives

All that a link service can make of a frame, and what of it reaches the counters of the face and the
dispatcher.
-/

namespace NamedData

open Tlv

namespace LinkService

variable {l : LinkService} {frame : Bytes} {now : Instant} {faceId : UInt64}

/-- All that a link service can make of a frame. -/
inductive Unwrapped (l : LinkService) (frame : Bytes) (now : Instant) :
    Option Reassembled × LinkService → Prop where
  | dropped : Unwrapped l frame now (none, l)
  | bare {type : UInt64} {size : Nat} (front : peek? frame = some (type, size))
      (isPacket : type = Interest.blockType ∨ type = Data.blockType) :
      Unwrapped l frame now (some ⟨{}, frame⟩, l)
  | whole {p : LpPacket} {payload : Bytes} (decoded : LpPacket.decode frame = .ok p)
      (count : p.fragCount.getD 1 = 1) (index : p.fragIndex.getD 0 = 0)
      (carried : p.fragment = some payload) :
      Unwrapped l frame now (some ⟨{ p with fragment := none }, payload⟩, l)
  | inserted {p : LpPacket} (decoded : LpPacket.decode frame = .ok p) :
      Unwrapped l frame now ((l.reassembly.insert p now).1.toOption.join,
        { l with reassembly := (l.reassembly.insert p now).2 })

theorem unwrapped_link {p : LpPacket} (decoded : LpPacket.decode frame = .ok p) :
    Unwrapped l frame now (l.unwrapLink p now) := by
  unfold unwrapLink
  split
  · exact .dropped
  · rename_i hcarries
    split
    · rename_i count
      split
      · rename_i index
        cases hfragment : p.fragment with
        | none => simp [LpPacket.isIdle, hfragment] at hcarries
        | some payload => exact .whole decoded count index hfragment
      · exact .dropped
    · exact .inserted decoded

theorem unwrapped (l : LinkService) (frame : Bytes) (now : Instant) :
    Unwrapped l frame now (l.unwrap frame now) := by
  unfold unwrap
  split
  · exact .dropped
  · rename_i front
    split
    · exact .bare front ‹_›
    · split
      · split
        · exact unwrapped_link ‹_›
        · exact .dropped
      · exact .dropped

theorem unwrap_of_decode {p : LpPacket} (h : LpPacket.decode frame = .ok p) :
    l.unwrap frame now = l.unwrapLink p now := by
  obtain ⟨size, hpeek⟩ := LpPacket.peek?_of_decode h
  have hother :
      ¬ (LpPacket.blockType = Interest.blockType ∨ LpPacket.blockType = Data.blockType) := by
    decide
  simp only [unwrap, hpeek, if_neg hother, ↓reduceIte, h]

@[simp] theorem options_unwrap (l : LinkService) (frame : Bytes) (now : Instant) :
    (l.unwrap frame now).2.options = l.options := by
  have h := l.unwrapped frame now
  generalize l.unwrap frame now = r at h ⊢
  cases h <;> rfl

theorem receive_eq : l.receive faceId frame now
    = ((l.unwrap frame now).1.bind (parcel? l.options faceId), (l.unwrap frame now).2) := by
  rw [← l.options_unwrap frame now]
  rfl

/-- A parcel is read from the bytes that it has with it, and names the face that it came in by. -/
theorem parcel?_eq_some {options : LinkOptions} {r : Reassembled} {p : Parcel}
    (h : parcel? options faceId r = some p) :
    p.raw = r.payload ∧ Packet.decode p.raw = .ok p.packet ∧ p.incomingFaceId = some faceId := by
  unfold parcel? at h
  split at h
  · cases h
  · split at h
    · cases h
    · rename_i hwire
      cases h
      obtain ⟨packet, hdecode, hp⟩ := exists_of_bind_eq_ok hwire
      cases hp
      exact ⟨rfl, hdecode, rfl⟩

end LinkService

namespace PacketCounters

/-- Counts what a frame brought. -/
def countArrival (c : PacketCounters) (p : Option Parcel) : PacketCounters :=
  match p with
  | some p => c.countIn p.packet
  | none => c

end PacketCounters

theorem Face.receive_eq {f : Face} {l : LinkService} (hl : f.service = .link l) (frame : Bytes)
    (now : Instant) :
    f.receive frame now = ((l.receive f.id frame now).1,
      { f with
        service := .link (l.receive f.id frame now).2
        counters := f.counters.countArrival (l.receive f.id frame now).1 }) := by
  rw [receive, hl]
  rfl

theorem Face.receive_of_discard {f : Face} (h : f.service = .discard) (frame : Bytes)
    (now : Instant) : f.receive frame now = (none, f) := by
  rw [receive, h]

theorem FaceSystem.receive_eq {s : FaceSystem} {key : FaceKey} {f : Face}
    (hf : s.face? key = some f) (frame : Bytes) :
    s.receive key frame
      = { s with
          faces := s.faces.set key (f.receive frame s.clock.now).2
          dispatcher := (f.receive frame s.clock.now).1.toList.foldl
            (fun d p => d.dispatch p f.base.scope) s.dispatcher } := by
  rw [receive, hf]
  dsimp only
  rw [← f.base_receive frame s.clock.now]
  generalize f.receive frame s.clock.now = r
  obtain ⟨parcel, f⟩ := r
  cases parcel <;> rfl

/-! ## Runs -/

namespace Face

/-- What the frames that come in one after the other bring to the dispatcher. -/
def deliveries (f : Face) : List (Bytes × Instant) → List (Option Parcel)
  | [] => []
  | (frame, now) :: rest => (f.receive frame now).1 :: (f.receive frame now).2.deliveries rest

/-- The face after frames that come in one after the other. -/
def receiveAll (f : Face) : List (Bytes × Instant) → Face
  | [] => f
  | (frame, now) :: rest => (f.receive frame now).2.receiveAll rest

theorem deliveries_append (f : Face) (early late : List (Bytes × Instant)) :
    f.deliveries (early ++ late) = f.deliveries early ++ (f.receiveAll early).deliveries late := by
  induction early generalizing f with
  | nil => rfl
  | cons first rest ih => exact congrArg (_ :: ·) (ih _)

@[simp] theorem length_deliveries (f : Face) (arrivals : List (Bytes × Instant)) :
    (f.deliveries arrivals).length = arrivals.length := by
  induction arrivals generalizing f with
  | nil => rfl
  | cons first rest ih => exact congrArg (· + 1) (ih _)

end Face

namespace FaceSystem

variable {s : FaceSystem} {key : FaceKey} {f : Face}

/-- A face receives frames at these times. -/
def receiveTimed (s : FaceSystem) (key : FaceKey) (arrivals : List (Bytes × Instant)) :
    FaceSystem :=
  arrivals.foldl (fun s a => { s with clock := { s.clock with now := a.2 } }.receive key a.1) s

/-- A run of a face as a whole. -/
theorem receiveTimed_eq (hf : s.face? key = some f) (arrivals : List (Bytes × Instant)) :
    s.receiveTimed key arrivals
      = { s with
          faces := s.faces.set key (f.receiveAll arrivals)
          dispatcher := (f.deliveries arrivals).reduceOption.foldl
            (fun d p => d.dispatch p f.base.scope) s.dispatcher
          clock := { s.clock with now := (arrivals.map (·.2)).getLastD s.clock.now } } := by
  induction arrivals generalizing s f with
  | nil =>
      obtain ⟨hlt, hface⟩ := List.getElem?_eq_some_iff.mp hf
      have hfaces : s.faces.set key f = s.faces := by rw [← hface, List.set_getElem_self]
      exact congrArg (fun faces => { s with faces }) hfaces.symm
  | cons first rest ih =>
      obtain ⟨frame, now⟩ := first
      -- The first frame finds the system as it was but for the time.
      have hstamped :
          ({ s with clock := { s.clock with now := now } } : FaceSystem).face? key = some f := hf
      have hface := face?_receive hstamped frame
      rw [receiveTimed, List.foldl_cons, ← receiveTimed, ih hface, receive_eq hstamped]
      simp only [List.set_set, Face.base_receive, Face.deliveries, Face.receiveAll, List.map_cons,
        List.getLastD_cons]
      cases (f.receive frame now).1 with
      | none => rfl
      | some p => rfl

end FaceSystem

end NamedData
