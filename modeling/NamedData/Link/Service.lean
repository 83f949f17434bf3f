import NamedData.Channel
import NamedData.Link.Fragmentation
import NamedData.Link.Options
import NamedData.Link.Reassembly
import NamedData.Packet.Parcel

/-!
# Link services

What stands between packets and the frames of a medium: a send queue whose bytes are counted, the
header and the fragments of each packet, and on the way in the unwrapping and reassembly of frames.
-/

namespace NamedData

open Tlv

/-- The state of a link service. -/
structure LinkService where
  options : LinkOptions
  queue : Channel Parcel
  /-- The bytes that are counted as queued. -/
  queuedBytes : UInt64 := 0
  nextSequence : UInt64 := 0
  marker : CongestionMarker := {}
  reassembly : Reassembly
deriving DecidableEq, Repr

namespace LinkService

/-- A service with an empty queue of at least one place. -/
def create (options : LinkOptions) (queueSize : Nat) : LinkService :=
  { options
    queue := .empty (max queueSize 1)
    reassembly := .empty options.reassemblyTimeout options.reassemblyMaxGroups }

/-- New options; the fragments received so far are dropped if the limits of reassembly change. -/
def setOptions (l : LinkService) (options : LinkOptions) : LinkService :=
  { l with
    options
    reassembly :=
      if l.options.reassemblyTimeout = options.reassemblyTimeout
          ∧ l.options.reassemblyMaxGroups = options.reassemblyMaxGroups then l.reassembly
      else
        (Reassembly.empty options.reassemblyTimeout options.reassemblyMaxGroups).choosing
          l.reassembly.choices }

/-! ## The send queue -/

def rawLength (p : Parcel) : UInt64 :=
  UInt64.ofNat p.raw.length

/-- Counts a parcel as queued. -/
def count (l : LinkService) (p : Parcel) : LinkService :=
  { l with queuedBytes := l.queuedBytes + rawLength p }

/-- No longer counts a parcel as queued. -/
def uncount (l : LinkService) (p : Parcel) : LinkService :=
  { l with queuedBytes := l.queuedBytes - rawLength p }

/-- Puts a parcel that is already counted into the queue, if it has room. -/
def enqueue? (l : LinkService) (p : Parcel) : Except Error LinkService := do
  return { l with queue := ← l.queue.send p }

/-- Queues a parcel, or drops it when the queue is full or no longer read. -/
def send (l : LinkService) (p : Parcel) : LinkService :=
  let l := l.count p
  match l.enqueue? p with
  | .ok l => l
  | .error _ => l.uncount p

/-- The next parcel of the queue. -/
def dequeue? (l : LinkService) : Option (Parcel × LinkService) :=
  match l.queue.receive with
  | (.item p, queue) => some (p, { l with queue })
  | _ => none

/-! ## Sending -/

/-- The mark of a parcel: its own, or one for congestion. -/
def chooseMark (l : LinkService) (p : Parcel) (occupancy : UInt64) (now : Instant) :
    Option UInt64 × CongestionMarker :=
  match p.congestionMark with
  | some mark => (some mark, l.marker)
  | none =>
    if l.options.congestionMarking then
      let (marked, marker) :=
        l.marker.consult occupancy l.options.congestionThreshold l.options.congestionInterval now
      (if marked then some 1 else none, marker)
    else (none, l.marker)

/-- The header of a parcel's first frame. -/
def header (options : LinkOptions) (p : Parcel) (mark : Option UInt64) : LpPacket :=
  { pitToken := p.pitToken
    congestionMark := mark
    incomingFaceId := if options.incomingFaceIndication then p.incomingFaceId else none
    cachePolicy := if options.localCachePolicy then p.cachePolicy else none }

/-- The frames of a parcel. -/
def frames (l : LinkService) (p : Parcel) (mtu : Nat) (occupancy : UInt64) (now : Instant) :
    Except Error (List Bytes) × LinkService :=
  let (mark, marker) := l.chooseMark p occupancy now
  match Fragmentation.frames p.raw (header l.options p mark) mtu l.options.fragmentation
      l.nextSequence with
  | .error e => (.error e, { l with marker })
  | .ok (frames, next) => (.ok frames, { l with marker, nextSequence := next })

/-! ## Receiving -/

/-- The header and the bytes of a packet that a link packet completes. -/
def unwrapLink (l : LinkService) (p : LpPacket) (now : Instant) :
    Option Reassembled × LinkService :=
  if p.isIdle || (p.hasFragmentation && !l.options.reassembly) then (none, l)
  else if p.fragCount.getD 1 = 1 then
    if p.fragIndex.getD 0 = 0 then
      (some ⟨{ p with fragment := none }, p.fragment.getD []⟩, l)
    else (none, l)
  else
    let (result, reassembly) := l.reassembly.insert p now
    (result.toOption.join, { l with reassembly })

/-- The header and the bytes of a packet that a frame completes. -/
def unwrap (l : LinkService) (frame : Bytes) (now : Instant) : Option Reassembled × LinkService :=
  match peek? frame with
  | none => (none, l)
  | some (type, _) =>
    if type = Interest.blockType ∨ type = Data.blockType then (some ⟨{}, frame⟩, l)
    else if type = LpPacket.blockType then
      match LpPacket.decode frame with
      | .ok p => l.unwrapLink p now
      | .error _ => (none, l)
    else (none, l)

/-- The parcel that goes to the dispatcher; a packet that was sent back is dropped. -/
def parcel? (options : LinkOptions) (faceId : UInt64) (r : Reassembled) : Option Parcel :=
  if r.head.nack.isSome then none
  else match Parcel.ofWire r.payload with
    | .error _ => none
    | .ok p => some { p with
        congestionMark := r.head.congestionMark
        pitToken := r.head.pitToken
        nextHopFaceId :=
          if options.consumerControlledForwarding then r.head.nextHopFaceId else none
        cachePolicy := if options.localCachePolicy then r.head.cachePolicy else none
        incomingFaceId := some faceId }

/-- What a frame that came in by a face brings. -/
def receive (l : LinkService) (faceId : UInt64) (frame : Bytes) (now : Instant) :
    Option Parcel × LinkService :=
  let (unwrapped, l) := l.unwrap frame now
  (unwrapped.bind (parcel? l.options faceId), l)

end LinkService

end NamedData
