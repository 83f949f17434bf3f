import NamedData.Channel
import NamedData.Link.LpPacket

/-!
# Media

Where frames go. A component of the forwarder is reached by a pair of channels, and holds the other
ends of them as its handle.
-/

namespace NamedData

open Tlv

/-- The channels between a face and a component. -/
structure ComponentLink where
  toComponent : Channel Bytes
  fromComponent : Channel Bytes
deriving DecidableEq, Repr

/-- What a component receives. -/
structure ComponentPacket where
  wire : Bytes
  pitToken : Option Bytes := none
  incomingFaceId : Option UInt64 := none
deriving DecidableEq, Repr

namespace ComponentPacket

/-- The packet in a frame. A link packet must hold a nonempty fragment, and a block of any other
type is taken whole. -/
def ofFrame? (frame : Bytes) : Option ComponentPacket :=
  match peek? frame with
  | none => none
  | some (type, _) =>
    if type = LpPacket.blockType then
      match LpPacket.decode frame with
      | .error _ => none
      | .ok p =>
        match p.fragment.getD [] with
        | [] => none
        | wire => some { wire, pitToken := p.pitToken, incomingFaceId := p.incomingFaceId }
    else some { wire := frame }

end ComponentPacket

namespace ComponentLink

/-- Each channel holds at least one frame. -/
def create (queueSize : Nat) : ComponentLink :=
  ⟨.empty (max queueSize 1), .empty (max queueSize 1)⟩

/-! ## The component's side -/

/-- The component sends a frame; with a full queue it would wait. -/
def sendFrame (c : ComponentLink) (frame : Bytes) : Except Error ComponentLink := do
  return { c with fromComponent := ← c.fromComponent.send frame }

/-- The link packet around a packet that the component sends. -/
def wrap (wire : Bytes) (pitToken : Option Bytes) (nextHopFaceId : Option UInt64) : Bytes :=
  LpPacket.encode { pitToken, nextHopFaceId, fragment := some wire }

def sendPacket (c : ComponentLink) (wire : Bytes) (pitToken : Option Bytes)
    (nextHopFaceId : Option UInt64) : Except Error ComponentLink :=
  c.sendFrame (wrap wire pitToken nextHopFaceId)

def receiveFrame (c : ComponentLink) : Received Bytes × ComponentLink :=
  let (frame, toComponent) := c.toComponent.receive
  (frame, { c with toComponent })

/-- The first of some frames that holds a packet, and the frames behind it. -/
def firstPacket? : List Bytes → Option ComponentPacket × List Bytes
  | [] => (none, [])
  | frame :: rest =>
    match ComponentPacket.ofFrame? frame with
    | some packet => (some packet, rest)
    | none => firstPacket? rest

/-- The next packet; frames without one are skipped. -/
def receivePacket (c : ComponentLink) : Received ComponentPacket × ComponentLink :=
  let (packet, items) := firstPacket? c.toComponent.items
  let c := { c with toComponent := { c.toComponent with items } }
  match packet with
  | some packet => (.item packet, c)
  | none => (if c.toComponent.hasSender then .pending else .closed, c)

/-- The component goes away. -/
def dropHandle (c : ComponentLink) : ComponentLink :=
  ⟨c.toComponent.dropReceiver, c.fromComponent.dropSender⟩

end ComponentLink

/-- What carries the frames of a face. -/
inductive Medium where
  /-- Swallows all frames. -/
  | null
  /-- Keeps the frames that it was given, and reports some bytes as queued below the face. -/
  | outbox (sent : List Bytes) (queued : UInt64)
  | component (link : ComponentLink)
deriving DecidableEq, Repr

namespace Medium

/-- The bytes that wait below the face. -/
def queued : Medium → UInt64
  | outbox _ queued => queued
  | _ => 0

/-- Gives a frame to the medium, and says whether it was taken. -/
def transmit (m : Medium) (frame : Bytes) (mtu : Nat) : Bool × Medium :=
  match m with
  | null => (false, null)
  | outbox sent queued => (true, outbox (sent ++ [frame]) queued)
  | component link =>
    if mtu < frame.length then (false, m)
    else match link.toComponent.send frame with
      | .ok toComponent => (true, component { link with toComponent })
      | .error _ => (false, m)

/-- Closes the medium before anything reads from it. -/
def close : Medium → Medium
  | component link => component { link with fromComponent := link.fromComponent.dropReceiver }
  | m => m

end Medium

end NamedData
