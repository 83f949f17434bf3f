import NamedData.Config.Basic
import NamedData.Face.Base
import NamedData.Face.Event
import NamedData.Face.Medium
import NamedData.Link.Service
import NamedData.Stream.Framer

/-!
# Faces

A face joins a medium with a service that turns packets into frames and back. Once started it runs
a task that sends and a task that receives, which its stop signal ends.
-/

namespace NamedData

/-- What becomes of packets. -/
inductive Service where
  /-- They are counted and dropped. -/
  | discard
  | link (service : LinkService)
deriving DecidableEq, Repr

/-- The life of a service. -/
inductive Lifecycle where
  | created
  | running
  | quitting
  | quit
deriving DecidableEq, Repr

namespace Lifecycle

def toText : Lifecycle → String
  | created => "Created"
  | running => "Running"
  | quitting => "Quitting"
  | quit => "Quit"

end Lifecycle

/-- The packets that went through a face. -/
structure PacketCounters where
  inInterests : UInt64 := 0
  inData : UInt64 := 0
  outInterests : UInt64 := 0
  outData : UInt64 := 0
deriving DecidableEq, Repr

namespace PacketCounters

def countIn (c : PacketCounters) (p : Packet) : PacketCounters :=
  if p.isInterest then { c with inInterests := c.inInterests + 1 }
  else { c with inData := c.inData + 1 }

def countOut (c : PacketCounters) (p : Packet) : PacketCounters :=
  if p.isInterest then { c with outInterests := c.outInterests + 1 }
  else { c with outData := c.outData + 1 }

end PacketCounters

/-- A task of a face. -/
inductive TaskState where
  | idle
  | running
  | ended
deriving DecidableEq, Repr

/-- A face. -/
structure Face where
  base : FaceBase
  medium : Medium
  service : Service
  lifecycle : Lifecycle := .created
  counters : PacketCounters := {}
  sender : TaskState := .idle
  receiver : TaskState := .idle
deriving DecidableEq, Repr

namespace Face

/-! ## Making faces -/

/-- The face that drops every packet. -/
def null : Face where
  base :=
    { kind := "NullTransport"
      remote := .null
      localUri := .null
      persistency := .permanent
      scope := .isLocal
      linkType := .pointToPoint
      mtu := maxPacketSize }
  medium := .null
  service := .discard

/-- The end of a component link that belongs to the forwarder. -/
def componentBase : FaceBase :=
  { kind := "InternalTransport"
    remote := .internal
    localUri := .internal
    persistency := .persistent
    scope := .isLocal
    linkType := .pointToPoint
    mtu := maxPacketSize }

/-- A face with a link service. -/
def withLink (base : FaceBase) (medium : Medium) (options : LinkOptions) (config : Config) : Face :=
  { base, medium, service := .link (.create options config.queueSize) }

/-- A face to a component of the forwarder. -/
def component (queueSize : Nat) (options : LinkOptions) (config : Config) : Face :=
  withLink componentBase (.component (.create queueSize)) options config

/-! ## Looking at faces -/

def id (f : Face) : UInt64 :=
  f.base.id

def link? (f : Face) : Option LinkService :=
  match f.service with
  | .discard => none
  | .link l => some l

def options? (f : Face) : Option LinkOptions :=
  f.link?.map (·.options)

/-- The bytes queued in the service and below it. -/
def queueSize (f : Face) : UInt64 :=
  match f.service with
  | .discard => 0
  | .link l => l.queuedBytes + f.medium.queued

def toText (f : Face) : String :=
  match f.service with
  | .discard => "NullLinkService, " ++ f.base.toText
  | .link _ => "NdnlpLinkService, " ++ f.base.toText

def summary (f : Face) : FaceSummary where
  faceId := f.id
  remote := f.base.remote.toText
  localUri := f.base.localUri.toText
  scope := f.base.scope
  persistency := f.base.persistency
  linkType := f.base.linkType
  flags := (f.options?.map LinkOptions.flags).getD 0

/-! ## Changing properties -/

/-- Every medium keeps the persistency that it was made with. -/
def acceptsPersistency (f : Face) (p : Persistency) : Bool :=
  p == f.base.persistency

def setMtu (f : Face) (mtu : Nat) : Face :=
  { f with base := { f.base with mtu } }

/-- Only a link service has options. -/
def setOptions? (f : Face) (options : LinkOptions) : Option Face :=
  f.link?.map fun l => { f with service := .link (l.setOptions options) }

/-! ## Sending -/

/-- Takes a packet for sending. -/
def send (f : Face) (p : Parcel) : Face :=
  match f.service with
  | .discard => { f with counters := f.counters.countOut p.packet }
  | .link l => { f with service := .link (l.send p) }

/-- Gives one frame to the medium. -/
def transmit (f : Face) (frame : Bytes) (now : Instant) : Face :=
  let (taken, medium) := f.medium.transmit frame f.base.mtu
  { f with medium, base := if taken then f.base.recordOut frame.length now else f.base }

/-- Sends a parcel that is no longer counted: unless the face is down its frames go to the medium,
up to the first that is too large. -/
def sendUncounted (f : Face) (l : LinkService) (p : Parcel) (occupancy : UInt64) (now : Instant) :
    Face :=
  if f.base.state ≠ .up then { f with service := .link l }
  else
    match l.frames p f.base.mtu occupancy now with
    | (.error _, l) => { f with service := .link l }
    | (.ok frames, l) =>
      let f := { f with service := .link l, counters := f.counters.countOut p.packet }
      (frames.takeWhile fun frame => frame.length ≤ f.base.mtu).foldl
        (fun f frame => f.transmit frame now) f

/-- Sends a parcel that was taken from the queue. The occupancy that it is marked for includes its
own bytes, which are no longer counted after that. -/
def sendOne (f : Face) (l : LinkService) (p : Parcel) (now : Instant) : Face :=
  f.sendUncounted (l.uncount p) p (l.queuedBytes + f.medium.queued) now

/-- One round of the sending task, if a parcel waits. -/
def sendNext? (f : Face) (now : Instant) : Option Face := do
  let l ← f.link?
  let (p, l) ← l.dequeue?
  return f.sendOne l p now

/-- At most `rounds` rounds of the sending task. -/
def sendRounds (now : Instant) : (rounds : Nat) → Face → Face
  | 0, f => f
  | rounds + 1, f =>
    match f.sendNext? now with
    | none => f
    | some f => sendRounds now rounds f

/-- The sending task has seen the stop signal; what waits in the queue is lost. -/
def endSender (f : Face) : Face :=
  let service := match f.service with
    | .discard => .discard
    | .link l => .link { l with queue := l.queue.dropReceiver }
  { f with service, sender := .ended, lifecycle := .quit }

/-- Runs the sending task until it waits. -/
def runSender (f : Face) (now : Instant) : Face :=
  match f.sender, f.link? with
  | .running, some l =>
    if f.base.stop.isStopped then f.endSender else f.sendRounds now l.queue.items.length
  | _, _ => f

/-! ## Receiving -/

/-- What a frame from the medium brings to the dispatcher. -/
def receive (f : Face) (frame : Bytes) (now : Instant) : Option Parcel × Face :=
  match f.service with
  | .discard => (none, f)
  | .link l =>
    let (parcel, l) := l.receive f.id frame now
    (parcel, { f with
      service := .link l
      counters := match parcel with
        | some p => f.counters.countIn p.packet
        | none => f.counters })

def recordIn (f : Face) (n : Nat) (now : Instant) : Face :=
  { f with base := f.base.recordIn n now }

/-! ## Starting and stopping -/

/-- Whether a start will start tasks: those of a link service, and once. -/
def canStartTasks (f : Face) : Bool :=
  f.lifecycle = .created && f.link?.isSome

/-- Starts the service and its tasks, which happens once. -/
def start (f : Face) : Face :=
  if f.lifecycle = .created then
    match f.service with
    | .discard => { f with lifecycle := .running }
    | .link _ => { f with lifecycle := .running, sender := .running, receiver := .running }
  else f

/-- How a request for a state shows in the life of the service. -/
def requestState (f : Face) (target : FaceState) : Face :=
  if target = .up then f
  else
    match f.service, f.lifecycle with
    | .discard, _ => { f with lifecycle := .quit }
    | .link _, .created => { f with lifecycle := .quit }
    | .link _, .running => { f with lifecycle := .quitting }
    | .link _, _ => f

/-- The receiving task owns its end of the medium; until it has started, closing drops that end. -/
def close (f : Face) : Face :=
  if f.receiver = .idle then { f with medium := f.medium.close } else f

def signalStop (f : Face) : Face :=
  { f with base := { f.base with stop := f.base.stop.stop } }

/-- Gives up the fragments that are too old. -/
def evictExpired (f : Face) (now : Instant) : Face :=
  match f.service with
  | .discard => f
  | .link l => { f with service := .link { l with reassembly := l.reassembly.evictExpired now } }

end Face

end NamedData
