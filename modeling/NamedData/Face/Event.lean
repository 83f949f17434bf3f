import NamedData.Face.Property
import NamedData.Tlv.Block

/-!
# Face events

What happens to faces is kept in a log of limited length that forgets its oldest entry, and is
announced by number to a subscriber.
-/

namespace NamedData

open Tlv

inductive FaceEventKind where
  | created
  | destroyed
  | up
  | down
deriving DecidableEq, Repr

namespace FaceEventKind

def code : FaceEventKind → UInt64
  | created => 1
  | destroyed => 2
  | up => 3
  | down => 4

end FaceEventKind

/-- What an event says about its face. -/
structure FaceSummary where
  faceId : UInt64
  remote : String
  localUri : String
  scope : Scope
  persistency : Persistency
  linkType : LinkType
  flags : UInt64
deriving DecidableEq, Repr

/-- An event and its number in the log. -/
structure FaceEvent where
  id : UInt64
  kind : FaceEventKind
  face : FaceSummary
deriving DecidableEq, Repr

namespace FaceEvent

def blockType : UInt64 := 0xC0

def kindType : UInt64 := 0xC1

def faceIdType : UInt64 := 0x69

def remoteType : UInt64 := 0x72

def localType : UInt64 := 0x81

def scopeType : UInt64 := 0x84

def persistencyType : UInt64 := 0x85

def linkTypeType : UInt64 := 0x86

def flagsType : UInt64 := 0x6C

def toBlocks (e : FaceEvent) : List Block :=
  [.ofNumber kindType e.kind.code, .ofNumber faceIdType e.face.faceId,
    ⟨remoteType, Bytes.ofText e.face.remote⟩, ⟨localType, Bytes.ofText e.face.localUri⟩,
    .ofNumber scopeType e.face.scope.code, .ofNumber persistencyType e.face.persistency.code,
    .ofNumber linkTypeType e.face.linkType.code, .ofNumber flagsType e.face.flags]

/-- The notification of the management protocol. -/
def encode (e : FaceEvent) : Bytes :=
  Block.encode ⟨blockType, Block.encodeAll e.toBlocks⟩

end FaceEvent

/-- The latest events, oldest first. -/
structure EventLog where
  events : List FaceEvent
  nextId : UInt64
  capacity : Nat
deriving DecidableEq, Repr

namespace EventLog

/-- At least one event is kept. -/
def empty (capacity : Nat) : EventLog :=
  ⟨[], 1, max capacity 1⟩

/-- Records an event under the next number. -/
def emit (log : EventLog) (kind : FaceEventKind) (face : FaceSummary) : EventLog :=
  let kept := if log.capacity ≤ log.events.length then log.events.drop 1 else log.events
  { log with events := kept ++ [⟨log.nextId, kind, face⟩], nextId := log.nextId + 1 }

/-- The event of a number, unless it was forgotten or is still to come. -/
def get? (log : EventLog) (id : UInt64) : Option FaceEvent :=
  match log.events with
  | [] => none
  | first :: _ => if id < first.id then none else log.events[(id - first.id).toNat]?

def lastId? (log : EventLog) : Option UInt64 :=
  log.events.getLast?.map (·.id)

end EventLog

/-- The numbers that were announced to a subscriber and not yet read. -/
structure EventSubscription where
  waiting : List UInt64
  capacity : Nat
  /-- Whether numbers were lost since the last reading. -/
  missed : Bool
deriving DecidableEq, Repr

namespace EventSubscription

/-- The buffer has the least power of two that is not below the log's capacity. -/
def empty (capacity : Nat) : EventSubscription :=
  ⟨[], (max capacity 1).nextPowerOfTwo, false⟩

def announce (s : EventSubscription) (id : UInt64) : EventSubscription :=
  if s.capacity ≤ s.waiting.length then
    { s with waiting := s.waiting.drop 1 ++ [id], missed := true }
  else { s with waiting := s.waiting ++ [id] }

/-- The oldest number that waits; after a loss the first reading gives none. -/
def next (s : EventSubscription) : Option UInt64 × EventSubscription :=
  if s.missed then (none, { s with missed := false })
  else (s.waiting.head?, { s with waiting := s.waiting.drop 1 })

end EventSubscription

end NamedData
